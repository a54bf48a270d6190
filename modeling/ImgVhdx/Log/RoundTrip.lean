import ImgVhdx.Log.Encode

/-! The parser reads back what the encoder wrote, wherever in the region it lies,
and takes no sector inside an entry for the start of another. -/
namespace ImgVhdx
open Lib

section descriptor
variable {seq : UInt64} {w : PendingWrite} {entry : Bytes} {n i base : Nat}

private theorem length_trailing (w : PendingWrite) : (slice w.sector.1 (logSectorSize - 4) 4).length = 4 :=
  length_slice (by rw [sector_length]; decide)

private theorem length_leading (w : PendingWrite) : (slice w.sector.1 0 8).length = 8 :=
  length_slice (by rw [sector_length]; decide)

private theorem descriptor_field {j o n : Nat} {p : Bytes}
    (hp : [dataDescSignature,slice w.sector.1 (logSectorSize - 4) 4,slice w.sector.1 0 8,toLE 8 w.fileOffset.toNat,
      toLE 8 seq.toNat][j]? = some p)
    (ho : o = (([4,4,8,8,8] : List Nat).take j).sum) (hl : n = p.length) :
    slice (descriptorBytes seq w) o n = p := by
  have h : descriptorBytes seq w = [dataDescSignature,slice w.sector.1 (logSectorSize - 4) 4,slice w.sector.1 0 8,
      toLE 8 w.fileOffset.toNat,toLE 8 seq.toNat].flatten := by
    simp [descriptorBytes]
  rw [h]
  refine slice_flatten hp (ho.trans ?_) hl
  rw [List.length_flatten,List.map_take]
  simp [dataDescSignature,length_trailing,length_leading]

private theorem stamped_front {a k : Nat} {p : Bytes} (h : a + k ≤ 8)
    (hp : slice (splice (splice w.sector.1 0 dataSectorSignature) 4 (toLE 4 (seq.toNat / 2^32))) a k = p) :
    slice (stampedSector seq w) a k = p := by
  have hw := sector_length w
  have hsig : dataSectorSignature.length = 4 := rfl
  have h1 : (splice w.sector.1 0 dataSectorSignature).length = 4096 := (length_splice (by omega)).trans hw
  have h2 : (splice (splice w.sector.1 0 dataSectorSignature) 4 (toLE 4 (seq.toNat / 2^32))).length = 4096 :=
    (length_splice (by rw [length_toLE]; omega)).trans h1
  rw [stampedSector,slice_splice_of_disjoint (by rw [length_toLE,h2]; decide)
    (.inl (by simp only [logSectorSize]; omega))]
  exact hp

private theorem slice_stampedSector_signature : slice (stampedSector seq w) 0 4 = dataSectorSignature := by
  have hw := sector_length w
  have hsig : dataSectorSignature.length = 4 := rfl
  have h1 : (splice w.sector.1 0 dataSectorSignature).length = 4096 := (length_splice (by omega)).trans hw
  refine stamped_front (by decide) ?_
  rw [slice_splice_of_disjoint (by rw [length_toLE]; omega) (by omega)]
  exact slice_splice_same (by omega) rfl

private theorem slice_stampedSector_high : slice (stampedSector seq w) 4 4 = toLE 4 (seq.toNat / 2^32) := by
  have hw := sector_length w
  have hsig : dataSectorSignature.length = 4 := rfl
  have h1 : (splice w.sector.1 0 dataSectorSignature).length = 4096 := (length_splice (by omega)).trans hw
  exact stamped_front (by decide) (slice_splice_same (by rw [length_toLE]; omega) (by simp))

private theorem slice_stampedSector_low :
    slice (stampedSector seq w) (logSectorSize - 4) 4 = toLE 4 (seq.toNat % 2^32) := by
  have hw := sector_length w
  have hsig : dataSectorSignature.length = 4 := rfl
  have h1 : (splice w.sector.1 0 dataSectorSignature).length = 4096 := (length_splice (by omega)).trans hw
  have h2 : (splice (splice w.sector.1 0 dataSectorSignature) 4 (toLE 4 (seq.toNat / 2^32))).length = 4096 :=
    (length_splice (by rw [length_toLE]; omega)).trans h1
  exact slice_splice_same (by rw [length_toLE,h2]; decide) (by simp)

/-- Undoing the stamps gives back the sector, whatever bytes they displaced. -/
private theorem reconstruct_stampedSector {q : UInt64} (s : Sector) (hs : s.1 = stampedSector q w) :
    reconstruct s (ofLE (slice w.sector.1 0 8)) (ofLE (slice w.sector.1 (logSectorSize - 4) 4)) = w.sector := by
  have hw := sector_length w
  have hsig : dataSectorSignature.length = 4 := rfl
  have hsize : logSectorSize = 4096 := rfl
  have hlead : toLE 8 (ofLE (slice w.sector.1 0 8)) = slice w.sector.1 0 8 := by
    have := toLE_ofLE (slice w.sector.1 0 8)
    rwa [length_leading] at this
  have htrail : toLE 4 (ofLE (slice w.sector.1 (logSectorSize - 4) 4)) = slice w.sector.1 (logSectorSize - 4) 4 := by
    have := toLE_ofLE (slice w.sector.1 (logSectorSize - 4) 4)
    rwa [length_trailing] at this
  have h1 : (splice w.sector.1 0 dataSectorSignature).length = 4096 := (length_splice (by omega)).trans hw
  have h2 : (splice (splice w.sector.1 0 dataSectorSignature) 4 (toLE 4 (q.toNat / 2^32))).length = 4096 :=
    (length_splice (by rw [length_toLE]; omega)).trans h1
  have h3 : (splice (stampedSector q w) 0 (slice w.sector.1 0 8)).length = 4096 :=
    (length_splice (by rw [length_leading,length_stampedSector]; decide)).trans length_stampedSector
  apply Subtype.ext
  change splice (splice s.1 0 (toLE 8 (ofLE (slice w.sector.1 0 8)))) (logSectorSize - 4)
    (toLE 4 (ofLE (slice w.sector.1 (logSectorSize - 4) 4))) = w.sector.1
  rw [hlead,htrail,hs]
  apply List.ext_getElem?
  intro k
  rw [getElem?_splice (by rw [length_trailing,h3]; decide),
    getElem?_splice (by rw [length_leading,length_stampedSector]; decide),
    length_trailing,length_leading,getElem?_slice,getElem?_slice]
  simp only [show logSectorSize - 4 = 4092 from rfl]
  split_ifs with ha hb hc hd
  · rw [show 4092 + (k - 4092) = k by omega]
  · omega
  · rw [Nat.zero_add,Nat.sub_zero]
  · omega
  · rw [stampedSector,getElem?_splice (by rw [length_toLE,h2]; decide),if_neg (by rw [length_toLE,hsize]; omega),
      getElem?_splice (by rw [length_toLE]; omega),if_neg (by rw [length_toLE]; omega),
      getElem?_splice (by omega),if_neg (by omega)]

private theorem readDescriptor_encoded (hn : entry.length = n) (hroom : 64 + i * 32 + 32 ≤ n) (hb : base + 4096 ≤ n)
    (hd : slice entry (64 + i * 32) 32 = descriptorBytes seq w) (hs : slice entry base 4096 = stampedSector seq w) :
    readDescriptor entry n seq.toNat i base = .ok (w.descriptor seq,base + 4096) := by
  have hfield : ∀ {j o m : Nat} {p : Bytes}, [dataDescSignature,slice w.sector.1 (logSectorSize - 4) 4,
      slice w.sector.1 0 8,toLE 8 w.fileOffset.toNat,toLE 8 seq.toNat][j]? = some p →
      o = (([4,4,8,8,8] : List Nat).take j).sum → m = p.length → o + m ≤ 32 →
      slice entry (64 + i * 32 + o) m = p := fun hp ho hl h32 => by
    rw [← slice_slice h32,hd]
    exact descriptor_field hp ho hl
  have hsig := hfield (j := 0) (o := 0) (m := 4) rfl rfl rfl (by decide)
  have htrail := hfield (j := 1) (o := 4) (m := 4) rfl rfl (length_trailing w).symm (by decide)
  have hlead := hfield (j := 2) (o := 8) (m := 8) rfl rfl (length_leading w).symm (by decide)
  have hoff := hfield (j := 3) (o := 16) (m := 8) rfl rfl (by simp) (by decide)
  have hseq := hfield (j := 4) (o := 24) (m := 8) rfl rfl (by simp) (by decide)
  have hhi : seq.toNat / 2^32 < 2^32 := by have := seq.toNat_lt; omega
  have hlo : seq.toNat % 2^32 < 2^32 := Nat.mod_lt _ (by decide)
  have hwhole : seq.toNat / 2^32 * 2^32 + seq.toNat % 2^32 = seq.toNat := Nat.div_add_mod' _ _
  have hsector : sectorAt entry base = .ok ⟨stampedSector seq w,length_stampedSector⟩ := by
    rw [sectorAt,dif_pos (show base + logSectorSize ≤ _ by simp only [logSectorSize]; omega)]
    refine congrArg Outcome.ok (Subtype.ext hs)
  have hl := length_stampedSector (q := seq) (w := w)
  rw [readDescriptor]
  simp only [show logEntryHeaderSize + i * logDescriptorSize = 64 + i * 32 from rfl]
  rw [index_of_le (by omega) (by omega),readU64Le_of_le (by omega),readU32Le_of_le (by omega),
    readU64Le_of_le (by omega),
    readU64Le_of_le (by omega),hsector,Nat.add_sub_cancel_left,show 64 + i * 32 = 64 + i * 32 + 0 from rfl,hsig]
  simp only [Nat.add_zero,hseq,htrail,hlead,hoff,Outcome.ok_bind,ofLE_toLE_u64]
  rw [Outcome.rejectIf_of_not _ (by simp),if_neg (by decide),if_pos trivial,
    Outcome.rejectIf_of_not _ (by simp only [logSectorSize]; omega),index_of_le (by omega) (by omega),
    readU32Le_of_le (by omega),readU32Le_of_le (show logSectorSize - 4 + 4 ≤ _ by rw [hl]; decide)]
  simp only [Outcome.ok_bind,Nat.sub_zero,slice_stampedSector_signature,slice_stampedSector_high,
    slice_stampedSector_low]
  rw [ofLE_toLE (by omega),ofLE_toLE (by omega),shiftLeft_or hlo,hwhole,Outcome.rejectIf_of_not _ (by simp),
    Outcome.rejectIf_of_not _ (by simp)]
  rw [reconstruct_stampedSector (q := seq) ⟨stampedSector seq w,length_stampedSector⟩ rfl]
  rfl

private theorem readDescriptors_encoded {writes : List PendingWrite} (hn : entry.length = n) {d : Nat}
    (hdi : d = 64 + i * 32) (hroom : d + writes.length * 32 ≤ n) (hb : base + writes.length * 4096 ≤ n)
    (hd : ∀ j w, writes[j]? = some w → slice entry (d + j * 32) 32 = descriptorBytes seq w)
    (hs : ∀ j w, writes[j]? = some w → slice entry (base + j * 4096) 4096 = stampedSector seq w) :
    readDescriptors entry n seq.toNat i writes.length base = .ok (writes.map (PendingWrite.descriptor seq)) := by
  induction writes generalizing i base d with
  | nil => rfl
  | cons w writes ih =>
    rw [List.length_cons,Nat.succ_mul,← Nat.add_assoc] at hroom hb
    have hd0 : slice entry (64 + i * 32) 32 = descriptorBytes seq w := by
      have := hd 0 w rfl
      rwa [Nat.zero_mul,Nat.add_zero,hdi] at this
    have hs0 : slice entry base 4096 = stampedSector seq w := by
      have := hs 0 w rfl
      rwa [Nat.zero_mul,Nat.add_zero] at this
    rw [List.length_cons,readDescriptors,readDescriptor_encoded hn (by omega) (by omega) hd0 hs0,Outcome.ok_bind]
    dsimp only
    rw [ih (d := d + 32) (by rw [Nat.succ_mul]; omega) (by omega) (by omega)]
    · rfl
    · intro j v hv
      have := hd (j+1) v (by simpa using hv)
      rwa [Nat.succ_mul,show d + (j * 32 + 32) = d + 32 + j * 32 by omega] at this
    · intro j v hv
      have := hs (j+1) v (by simpa using hv)
      rwa [Nat.succ_mul,show base + (j * 4096 + 4096) = base + 4096 + j * 4096 by omega] at this

end descriptor

theorem logSectorSize_le_encodedLength (writes : List PendingWrite) : logSectorSize ≤ encodedLength writes := by
  have hc : writes.length % 2^32 < 2^32 := Nat.mod_lt _ (by decide)
  have hb : dataSectorsBase writes = (64 + writes.length % 2^32 * 32 + 4095) / 4096 * 4096 :=
    roundUpSector_eq (by simp only [logEntryHeaderSize,logDescriptorSize]; omega)
  have hl : encodedLength writes = dataSectorsBase writes + writes.length * 4096 := rfl
  have hsize : logSectorSize = 4096 := rfl
  omega

def encodedEntry (pos : Nat) (seq : UInt64) (tail : UInt32) (guid : Guid) (flushed last : UInt64)
    (writes : List PendingWrite) : LogEntry where
  header := {
    entryLength := encodedLength writes
    tail := tail.toNat
    sequenceNumber := seq.toNat
    descriptorCount := writes.length
    logGuid := guid
    flushedFileOffset := flushed.toNat
    lastFileOffset := last.toNat }
  descriptors := writes.map (PendingWrite.descriptor seq)
  logOffsetInRegion := pos
  long := logSectorSize_le_encodedLength writes

section slot
variable [Crc32c] {seq : UInt64} {tail : UInt32} {guid : Guid} {flushed last : UInt64} {writes : List PendingWrite}
  {log : Bytes} {pos : Nat}

omit [Crc32c] in
theorem encodedLength_mod (h : encodedLength writes < 2^32) : encodedLength writes % logSectorSize = 0 := by
  have hb := dataSectorsBase_eq h
  have hl : encodedLength writes = dataSectorsBase writes + writes.length * 4096 := rfl
  rw [show logSectorSize = 4096 from rfl]
  omega

/-- The slot an encoded entry starts in declares it. -/
theorem declaredLength_encoded (hp : pos + logSectorSize ≤ log.length) (hfit : encodedLength writes ≤ log.length)
    (hlt : encodedLength writes < 2^32)
    (henc : IsEncoded seq tail guid flushed last writes (circSlice log pos (encodedLength writes))) :
    declaredLength log pos guid = .ok (⟨encodedLength writes,logSectorSize_le_encodedLength writes⟩,guid) := by
  have hlong := logSectorSize_le_encodedLength writes
  have hsize : logSectorSize = 4096 := rfl
  have hsig := henc.signature
  have hlen := henc.entryLength
  have hguid := henc.logGuid
  rw [slice_circSlice (by omega) (by omega) (by omega) (by decide)] at hsig hlen hguid
  have hmod := encodedLength_mod hlt
  rw [declaredLength_of_le hp hsig]
  simp only [hlen,hguid,ofLE_toLE (w := 4) (n := encodedLength writes) (by omega)]
  rw [dif_neg (by omega),if_pos trivial]

/-- The encoder's entry parses back into the fields and the sectors it was made from. -/
theorem readEntry_encoded (hp : pos + logSectorSize ≤ log.length) (hfit : encodedLength writes ≤ log.length)
    (hlt : encodedLength writes < 2^32)
    (henc : IsEncoded seq tail guid flushed last writes (circSlice log pos (encodedLength writes))) :
    readEntry log pos ⟨encodedLength writes,logSectorSize_le_encodedLength writes⟩ guid =
      .ok (encodedEntry pos seq tail guid flushed last writes) := by
  have hsize : logSectorSize = 4096 := rfl
  have hn := length_lt_of_encodedLength hlt
  have hbase := dataSectorsBase_eq hlt
  have hl : encodedLength writes = dataSectorsBase writes + writes.length * 4096 := rfl
  have hcount : ofLE (toLE 4 (writes.length % 2^32)) = writes.length := by
    rw [Nat.mod_eq_of_lt (by omega)]
    exact ofLE_toLE (by omega)
  have hround : roundUpSector (logEntryHeaderSize + writes.length * logDescriptorSize) = dataSectorsBase writes := by
    rw [dataSectorsBase,Nat.mod_eq_of_lt (by omega)]
  rw [readEntry_of_le hp hfit,if_pos henc.crc,readFields_of_length henc.length,henc.descriptorCount,henc.sequenceNumber,
    henc.tail,henc.flushed,henc.last,hcount,hround]
  simp only [ofLE_toLE_u64,ofLE_toLE_u32]
  rw [if_neg (by simp only [logEntryHeaderSize,logDescriptorSize]; omega),
    readDescriptors_encoded henc.length (i := 0) (d := 64) (by omega) (by omega) (by omega) henc.descriptor henc.sector]
  rfl

omit [Crc32c] in
private theorem slice_front {entry p : Bytes} {off n : Nat} (h : slice entry off n = p) (hn : 4 ≤ n) :
    slice entry off 4 = slice p 0 4 := by
  rw [← h,slice_slice (by omega)]
  rfl

/-- No sector inside an encoded entry can pass for the start of one: past the first
they begin with a descriptor or with a stamped data sector. -/
theorem IsEncoded.interior {entry : Bytes} (henc : IsEncoded seq tail guid flushed last writes entry)
    (hlt : encodedLength writes < 2^32) {k : Nat} (h0 : 0 < k) (hk : k < encodedLength writes) (hm : k % 4096 = 0) :
    slice entry k 4 ≠ logEntrySignature := by
  have hbase := dataSectorsBase_eq hlt
  have hl : encodedLength writes = dataSectorsBase writes + writes.length * 4096 := rfl
  rcases Nat.lt_or_ge k (dataSectorsBase writes) with hb | hb
  · have hj : (k - 64) / 32 < writes.length := by omega
    have hoff : 64 + (k - 64) / 32 * 32 = k := by omega
    have hd := henc.descriptor _ _ (List.getElem?_eq_getElem hj)
    rw [hoff] at hd
    rw [slice_front hd (by decide),descriptor_field (j := 0) (o := 0) (n := 4) rfl rfl rfl]
    decide
  · have hj : (k - dataSectorsBase writes) / 4096 < writes.length := by omega
    have hoff : dataSectorsBase writes + (k - dataSectorsBase writes) / 4096 * 4096 = k := by omega
    have hs := henc.sector _ _ (List.getElem?_eq_getElem hj)
    rw [hoff] at hs
    rw [slice_front hs (by decide),slice_stampedSector_signature]
    decide

end slot
end ImgVhdx
