import ImgVhdx.Log.Scan

/-! Encoding one log entry, and that the parser reads back what was encoded. -/
namespace ImgVhdx
open Lib

structure PendingWrite where
  fileOffset : UInt64
  sector : Sector
  deriving DecidableEq

section encode
variable (sequenceNumber : UInt64) (tail : UInt32) (logGuid : Guid) (flushedFileOffset lastFileOffset : UInt64)

def encodeWrite (dataSectorsBase i : Nat) (buf : Bytes) (w : PendingWrite) : Bytes :=
  let seqHi := (sequenceNumber.toNat >>> 32) &&& 0xFFFFFFFF
  let seqLo := sequenceNumber.toNat &&& 0xFFFFFFFF
  let descOff := logEntryHeaderSize + i * logDescriptorSize
  let buf := splice buf descOff dataDescSignature
  let buf := splice buf (descOff + 4) (slice w.sector.1 (logSectorSize - 4) 4)
  let buf := splice buf (descOff + 8) (slice w.sector.1 0 8)
  let buf := splice buf (descOff + 16) (toLE 8 w.fileOffset.toNat)
  let buf := splice buf (descOff + 24) (toLE 8 sequenceNumber.toNat)
  let secBase := dataSectorsBase + i * logSectorSize
  let buf := splice buf secBase w.sector.1
  let buf := splice buf secBase dataSectorSignature
  let buf := splice buf (secBase + 4) (toLE 4 seqHi)
  splice buf (secBase + logSectorSize - 4) (toLE 4 seqLo)

def encodeWrites (dataSectorsBase : Nat) : Nat → List PendingWrite → Bytes → Bytes
  | _, [], buf => buf
  | i, w :: writes, buf =>
    encodeWrites dataSectorsBase (i+1) writes (encodeWrite sequenceNumber dataSectorsBase i buf w)

def dataSectorsBase (writes : List PendingWrite) : Nat :=
  let descriptorCount := writes.length % 2^32
  let descriptorsBytes := descriptorCount * logDescriptorSize
  let headerAndDescriptors := logEntryHeaderSize + descriptorsBytes
  roundUpSector headerAndDescriptors

def encodedLength (writes : List PendingWrite) : Nat := dataSectorsBase writes + writes.length * logSectorSize

def encodeEntryHeader (writes : List PendingWrite) : Bytes :=
  let descriptorCount := writes.length % 2^32
  let entryLength := encodedLength writes
  let buf := zeros entryLength
  let buf := splice buf 0 logEntrySignature
  let buf := splice buf 8 (toLE 4 entryLength)
  let buf := splice buf 12 (toLE 4 tail.toNat)
  let buf := splice buf 16 (toLE 8 sequenceNumber.toNat)
  let buf := splice buf 24 (toLE 4 descriptorCount)
  let buf := splice buf 32 logGuid.1
  let buf := splice buf 48 (toLE 8 flushedFileOffset.toNat)
  splice buf 56 (toLE 8 lastFileOffset.toNat)

def encodeEntry [Crc32c] (writes : List PendingWrite) : Bytes :=
  let buf := encodeEntryHeader sequenceNumber tail logGuid flushedFileOffset lastFileOffset writes
  let buf := encodeWrites sequenceNumber (dataSectorsBase writes) 0 writes buf
  splice buf 4 (toLE 4 (entryCrc buf))

end encode

theorem encodedLength_single (p : PendingWrite) : encodedLength [p] = 8192 := by
  unfold encodedLength dataSectorsBase
  simp only [List.length_singleton]
  decide

def descriptorBytes (sequenceNumber : UInt64) (w : PendingWrite) : Bytes :=
  dataDescSignature ++ slice w.sector.1 (logSectorSize - 4) 4 ++ slice w.sector.1 0 8 ++
    toLE 8 w.fileOffset.toNat ++ toLE 8 sequenceNumber.toNat

def stampedSector (sequenceNumber : UInt64) (w : PendingWrite) : Bytes :=
  splice (splice (splice w.sector.1 0 dataSectorSignature) 4 (toLE 4 (sequenceNumber.toNat / 2^32)))
    (logSectorSize - 4) (toLE 4 (sequenceNumber.toNat % 2^32))

def PendingWrite.descriptor (sequenceNumber : UInt64) (w : PendingWrite) : Descriptor :=
  .data (ofLE (slice w.sector.1 (logSectorSize - 4) 4)) (ofLE (slice w.sector.1 0 8)) w.fileOffset.toNat
    sequenceNumber.toNat w.sector

theorem roundUpSector_eq {n : Nat} (h : n < 2^63) : roundUpSector n = (n + 4095) / 4096 * 4096 :=
  clearLow_pow (k := 12) (by simp only [logSectorSize]; omega) (by decide)

section layout
variable {seq : UInt64} {base i : Nat} {buf : Bytes} {w : PendingWrite}

theorem sector_length (w : PendingWrite) : w.sector.1.length = 4096 := w.sector.2

@[simp] theorem length_descriptorBytes : (descriptorBytes seq w).length = 32 := by
  have := sector_length w
  simp only [descriptorBytes,List.length_append,length_toLE]
  rw [length_slice (by simp only [logSectorSize]; omega),length_slice (by omega)]
  rfl

@[simp] theorem length_stampedSector {q : UInt64} : (stampedSector q w).length = 4096 := by
  have := sector_length w
  have hs : dataSectorSignature.length = 4 := rfl
  have hl : logSectorSize = 4096 := rfl
  have h1 : (splice w.sector.1 0 dataSectorSignature).length = 4096 := (length_splice (by omega)).trans this
  have h2 : (splice (splice w.sector.1 0 dataSectorSignature) 4 (toLE 4 (q.toNat / 2^32))).length = 4096 :=
    (length_splice (by rw [length_toLE]; omega)).trans h1
  exact (length_splice (by rw [length_toLE]; omega)).trans h2

private theorem splice_descriptorBytes {off : Nat} (h : off + 32 ≤ buf.length) :
    splice buf off (descriptorBytes seq w) =
      splice (splice (splice (splice (splice buf off dataDescSignature) (off + 4)
        (slice w.sector.1 (logSectorSize - 4) 4))
        (off + 8) (slice w.sector.1 0 8)) (off + 16) (toLE 8 w.fileOffset.toNat)) (off + 24) (toLE 8 seq.toNat) := by
  have hw := sector_length w
  have hsig : dataDescSignature.length = 4 := rfl
  have ht : (slice w.sector.1 (logSectorSize - 4) 4).length = 4 := length_slice (by simp only [logSectorSize]; omega)
  have hl : (slice w.sector.1 0 8).length = 8 := length_slice (by omega)
  rw [descriptorBytes,← splice_splice_append (k := off + 24),← splice_splice_append (k := off + 16),
    ← splice_splice_append (k := off + 8),← splice_splice_append (k := off + 4)]
  all_goals (try simp only [List.length_append,length_toLE]); omega

private theorem splice_stampedSector {off : Nat} (h : off + 4096 ≤ buf.length) :
    splice buf off (stampedSector seq w) =
      splice (splice (splice (splice buf off w.sector.1) off dataSectorSignature) (off + 4)
        (toLE 4 (seq.toNat / 2^32))) (off + logSectorSize - 4) (toLE 4 (seq.toNat % 2^32)) := by
  have hw := sector_length w
  have hdat : dataSectorSignature.length = 4 := rfl
  have hsize : logSectorSize = 4096 := rfl
  have h1 : (splice w.sector.1 0 dataSectorSignature).length = 4096 := (length_splice (by omega)).trans hw
  have h2 : (splice (splice w.sector.1 0 dataSectorSignature) 4 (toLE 4 (seq.toNat / 2^32))).length = 4096 :=
    (length_splice (by rw [length_toLE]; omega)).trans h1
  rw [stampedSector,← splice_splice_within (b := off + logSectorSize - 4),
    ← splice_splice_within (b := off + 4),← splice_splice_within (b := off)]
  all_goals (try rw [length_toLE]); omega

private theorem encodeWrite_eq {q : UInt64} {b : Nat} {f : Bytes} (hs : b + i * 4096 + 4096 ≤ f.length)
    (hd : 64 + i * 32 + 32 ≤ b) :
    encodeWrite q b i f w =
      splice (splice f (64 + i * 32) (descriptorBytes q w)) (b + i * 4096) (stampedSector q w) := by
  have hhi : (q.toNat >>> 32) &&& 0xFFFFFFFF = q.toNat / 2^32 := by
    rw [Nat.shiftRight_eq_div_pow]
    refine (Nat.and_two_pow_sub_one_eq_mod _ 32).trans (Nat.mod_eq_of_lt ?_)
    have := q.toNat_lt
    omega
  have hlo : q.toNat &&& 0xFFFFFFFF = q.toNat % 2^32 := Nat.and_two_pow_sub_one_eq_mod _ 32
  have hlen : (splice f (64 + i * 32) (descriptorBytes q w)).length = f.length :=
    length_splice (by rw [length_descriptorBytes]; omega)
  rw [splice_stampedSector (by omega),splice_descriptorBytes (by omega),encodeWrite,hhi,hlo]
  rfl

/-- What the loop over the writes leaves in the buffer, and what it leaves alone: the
descriptors from `d` on and the data sectors from `s` on. -/
structure Encoded (seq : UInt64) (d s : Nat) (writes : List PendingWrite) (before after : Bytes) : Prop where
  length : after.length = before.length
  descriptor : ∀ j w, writes[j]? = some w → slice after (d + j * 32) 32 = descriptorBytes seq w
  sector : ∀ j w, writes[j]? = some w → slice after (s + j * 4096) 4096 = stampedSector seq w
  frame : ∀ a n, a + n ≤ d ∨ (d + writes.length * 32 ≤ a ∧ a + n ≤ s) ∨ s + writes.length * 4096 ≤ a →
    slice after a n = slice before a n

private theorem encodeWrites_encoded {q : UInt64} {b : Nat} {f : Bytes} {x : List PendingWrite} {d s : Nat}
    (hdi : d = 64 + i * 32) (hsi : s = b + i * 4096) (hd : d + x.length * 32 ≤ b)
    (hs : s + x.length * 4096 ≤ f.length) :
    Encoded q d s x f (encodeWrites q b i x f) := by
  induction x generalizing i f d s with
  | nil => exact ⟨rfl,by simp,by simp,fun _ _ _ => rfl⟩
  | cons w x ih =>
    rw [List.length_cons,Nat.succ_mul,← Nat.add_assoc] at hd hs
    have hone := encodeWrite_eq (q := q) (b := b) (i := i) (w := w) (f := f) (by omega) (by omega)
    rw [← hdi,← hsi] at hone
    have h1 : (splice f d (descriptorBytes q w)).length = f.length :=
      length_splice (by rw [length_descriptorBytes]; omega)
    have hlen : (encodeWrite q b i f w).length = f.length := by
      rw [hone,length_splice (by rw [length_stampedSector]; omega),h1]
    have hrest := ih (i := i+1) (f := encodeWrite q b i f w) (d := d + 32) (s := s + 4096)
      (by rw [Nat.succ_mul]; omega) (by rw [Nat.succ_mul]; omega) (by omega) (by omega)
    rw [encodeWrites]
    refine ⟨hrest.length.trans hlen,?_,?_,?_⟩
    · intro j v hv
      cases j with
      | zero =>
        obtain rfl : w = v := by simpa using hv
        simp only [Nat.zero_mul,Nat.add_zero]
        rw [hrest.frame _ _ (.inl le_rfl),hone,
          slice_splice_of_disjoint (by rw [length_stampedSector]; omega) (.inl (by omega))]
        exact slice_splice_same (by rw [length_descriptorBytes]; omega) length_descriptorBytes.symm
      | succ j =>
        rw [Nat.succ_mul,show d + (j * 32 + 32) = d + 32 + j * 32 by omega]
        exact hrest.descriptor j v (by simpa using hv)
    · intro j v hv
      cases j with
      | zero =>
        obtain rfl : w = v := by simpa using hv
        simp only [Nat.zero_mul,Nat.add_zero]
        rw [hrest.frame _ _ (.inr (.inl ⟨by omega,le_rfl⟩)),hone]
        exact slice_splice_same (by rw [length_stampedSector]; omega) length_stampedSector.symm
      | succ j =>
        rw [Nat.succ_mul,show s + (j * 4096 + 4096) = s + 4096 + j * 4096 by omega]
        exact hrest.sector j v (by simpa using hv)
    · intro a n ha
      rw [List.length_cons,Nat.succ_mul,Nat.succ_mul,← Nat.add_assoc,← Nat.add_assoc] at ha
      rw [hrest.frame a n (by omega),hone,
        slice_splice_of_disjoint (by rw [length_stampedSector]; omega) (by rw [length_stampedSector]; omega),
        slice_splice_of_disjoint (by rw [length_descriptorBytes]; omega) (by rw [length_descriptorBytes]; omega)]

end layout

section entry
variable {seq : UInt64} {tail : UInt32} {guid : Guid} {flushed last : UInt64} {writes : List PendingWrite}

theorem length_lt_of_encodedLength (h : encodedLength writes < 2^32) : writes.length < 2^20 := by
  have h' : dataSectorsBase writes + writes.length * 4096 < 2^32 := h
  omega

/-- The header, the descriptors and then whole data sectors. -/
theorem dataSectorsBase_eq (h : encodedLength writes < 2^32) :
    dataSectorsBase writes = (64 + writes.length * 32 + 4095) / 4096 * 4096 := by
  have hn := length_lt_of_encodedLength h
  rw [dataSectorsBase,Nat.mod_eq_of_lt (by omega),roundUpSector_eq]
  · rfl
  · simp only [logEntryHeaderSize,logDescriptorSize]
    omega

private def headerParts (seq : UInt64) (tail : UInt32) (guid : Guid) (flushed last : UInt64)
    (writes : List PendingWrite) :
    List Bytes :=
  [logEntrySignature,zeros 4,toLE 4 (encodedLength writes),toLE 4 tail.toNat,toLE 8 seq.toNat,
    toLE 4 (writes.length % 2^32),zeros 4,guid.1,toLE 8 flushed.toNat,toLE 8 last.toNat,
      zeros (encodedLength writes - 64)]

private theorem encodeEntryHeader_eq (h : 64 ≤ encodedLength writes) :
    encodeEntryHeader seq tail guid flushed last writes = (headerParts seq tail guid flushed last writes).flatten := by
  have hs : logEntrySignature.length = 4 := rfl
  unfold encodeEntryHeader headerParts
  dsimp only
  generalize encodedLength writes = n at *
  rw [show zeros n = [] ++ zeros n from rfl]
  repeat rw [splice_zeros (by simp [hs]) (by simp [hs]; omega)]
  simp [hs]
  rw [show 28 + (4 + (n - 4) - 8 - 4 - 4 - 8 - 4) - 32 - 16 - 8 - 8 = n - 64 by omega]

private theorem header_field (h : 64 ≤ encodedLength writes) {i off len : Nat} {p : Bytes}
    (hp : (headerParts seq tail guid flushed last writes)[i]? = some p)
    (ho : off = (([4,4,4,4,8,4,4,16,8,8,encodedLength writes - 64] : List Nat).take i).sum) (hl : len = p.length) :
    slice (encodeEntryHeader seq tail guid flushed last writes) off len = p := by
  rw [encodeEntryHeader_eq h]
  refine slice_flatten hp (ho.trans ?_) hl
  rw [List.length_flatten,List.map_take]
  simp [headerParts,logEntrySignature]

private theorem length_encodeEntryHeader {q : UInt64} {t : UInt32} {g : Guid} {f : UInt64} {l : UInt64}
    (h : 64 ≤ encodedLength writes) :
    (encodeEntryHeader q t g f l writes).length = encodedLength writes := by
  rw [encodeEntryHeader_eq h]
  simp [headerParts,logEntrySignature]
  omega

variable [Crc32c]

/-- The layout of an encoded entry, as the parser will look at it. -/
structure IsEncoded (seq : UInt64) (tail : UInt32) (guid : Guid) (flushed last : UInt64) (writes : List PendingWrite)
    (entry : Bytes) : Prop where
  length : entry.length = encodedLength writes
  signature : slice entry 0 4 = logEntrySignature
  crc : ofLE (slice entry 4 4) = checksumOf entry
  entryLength : slice entry 8 4 = toLE 4 (encodedLength writes)
  tail : slice entry 12 4 = toLE 4 tail.toNat
  sequenceNumber : slice entry 16 8 = toLE 8 seq.toNat
  descriptorCount : slice entry 24 4 = toLE 4 (writes.length % 2^32)
  logGuid : slice entry 32 16 = guid.1
  flushed : slice entry 48 8 = toLE 8 flushed.toNat
  last : slice entry 56 8 = toLE 8 last.toNat
  descriptor : ∀ j w, writes[j]? = some w → slice entry (64 + j * 32) 32 = descriptorBytes seq w
  sector : ∀ j w, writes[j]? = some w → slice entry (dataSectorsBase writes + j * 4096) 4096 = stampedSector seq w

theorem encodeEntry_isEncoded {q : UInt64} {t : UInt32} {g : Guid} {f : UInt64} {l : UInt64}
    (h : encodedLength writes < 2^32) :
    IsEncoded q t g f l writes (encodeEntry q t g f l writes) := by
  have hbase := dataSectorsBase_eq h
  have hl : encodedLength writes = dataSectorsBase writes + writes.length * 4096 := rfl
  have h64 : 64 + writes.length * 32 ≤ dataSectorsBase writes := by omega
  have hlong : 64 ≤ encodedLength writes := by omega
  rw [encodeEntry]
  have hhead := length_encodeEntryHeader (q := q) (t := t) (g := g) (f := f) (l := l) hlong
  have henc := encodeWrites_encoded (q := q) (b := dataSectorsBase writes) (i := 0) (x := writes)
    (f := encodeEntryHeader q t g f l writes) (d := 64) (s := dataSectorsBase writes)
    (by omega) (by omega) h64 (by rw [hhead,hl])
  generalize hbody : encodeWrites q (dataSectorsBase writes) 0 writes
    (encodeEntryHeader q t g f l writes) = body at henc
  have hlen : body.length = encodedLength writes := henc.length.trans hhead
  have hcrc : ∀ c : Nat, 4 + (toLE 4 c).length ≤ body.length := fun c => by rw [length_toLE]; omega
  have houter : ∀ c a n, a + n ≤ 4 ∨ 8 ≤ a → slice (splice body 4 (toLE 4 c)) a n = slice body a n := fun c a n ha =>
    slice_splice_of_disjoint (hcrc c) (by rw [length_toLE]; omega)
  -- the header's own fields are below the descriptors, which the loop over the writes starts at
  have hfield : ∀ {i off len : Nat} {p : Bytes} (c : Nat), off + len ≤ 4 ∨ 8 ≤ off → off + len ≤ 64 →
      (headerParts q t g f l writes)[i]? = some p →
      off = (([4,4,4,4,8,4,4,16,8,8,encodedLength writes - 64] : List Nat).take i).sum → len = p.length →
      slice (splice body 4 (toLE 4 c)) off len = p := fun c ha hb hp ho hl => by
    rw [houter c _ _ ha,henc.frame _ _ (.inl hb)]
    exact header_field hlong hp ho hl
  refine ⟨(length_splice (hcrc _)).trans hlen,?_,?_,?_,?_,?_,?_,?_,?_,?_,?_,?_⟩
  · exact hfield (i := 0) _ (by omega) (by omega) rfl rfl rfl
  · rw [slice_splice_same (hcrc _) (by simp),entryCrc_eq,ofLE_toLE (crc32c_lt _),checksumOf,checksumOf,
      splice_splice_within (k := 0) (by rfl) (by simp) (hcrc _),splice_zero_of_length (by simp)]
  · exact hfield (i := 2) _ (by omega) (by omega) rfl rfl (by simp)
  · exact hfield (i := 3) _ (by omega) (by omega) rfl rfl (by simp)
  · exact hfield (i := 4) _ (by omega) (by omega) rfl rfl (by simp)
  · exact hfield (i := 5) _ (by omega) (by omega) rfl rfl (by simp)
  · exact hfield (i := 7) _ (by omega) (by omega) rfl rfl (by simp)
  · exact hfield (i := 8) _ (by omega) (by omega) rfl rfl (by simp)
  · exact hfield (i := 9) _ (by omega) (by omega) rfl rfl (by simp)
  · intro j w hw
    rw [houter _ _ _ (by omega)]
    exact henc.descriptor j w hw
  · intro j w hw
    rw [houter _ _ _ (by omega)]
    exact henc.sector j w hw

/-- What the encoder has no field for it leaves zero. -/
theorem encodeEntry_gaps {q : UInt64} {t : UInt32} {g : Guid} {f : UInt64} {l : UInt64}
    (h : encodedLength writes < 2^32) :
    slice (encodeEntry q t g f l writes) 28 4 = zeros 4 ∧
    slice (encodeEntry q t g f l writes) (64 + writes.length * 32) (dataSectorsBase writes - (64 + writes.length * 32)) =
      zeros (dataSectorsBase writes - (64 + writes.length * 32)) := by
  have hbase := dataSectorsBase_eq h
  have hl : encodedLength writes = dataSectorsBase writes + writes.length * 4096 := rfl
  have hlong : 64 ≤ encodedLength writes := by omega
  have hhead := length_encodeEntryHeader (q := q) (t := t) (g := g) (f := f) (l := l) hlong
  have henc := encodeWrites_encoded (q := q) (b := dataSectorsBase writes) (i := 0) (x := writes)
    (f := encodeEntryHeader q t g f l writes) (d := 64) (s := dataSectorsBase writes)
    (by omega) (by omega) (by omega) (by rw [hhead,hl])
  have hframe : ∀ a n, 8 ≤ a → a + n ≤ 64 ∨ (64 + writes.length * 32 ≤ a ∧ a + n ≤ dataSectorsBase writes) →
      slice (encodeEntry q t g f l writes) a n = slice (encodeEntryHeader q t g f l writes) a n := fun a n ha hn => by
    rw [encodeEntry,slice_splice_of_disjoint (by rw [length_toLE,henc.length]; omega) (by rw [length_toLE]; omega)]
    exact henc.frame a n (by omega)
  refine ⟨(hframe 28 4 (by omega) (by omega)).trans (header_field (i := 6) hlong rfl rfl (by simp)),?_⟩
  rw [hframe _ _ (by omega) (by omega)]
  have hbody : slice (encodeEntryHeader q t g f l writes) 64 (encodedLength writes - 64) =
    zeros (encodedLength writes - 64) :=
    header_field (i := 10) hlong rfl rfl (by simp)
  have hin : writes.length * 32 + (dataSectorsBase writes - (64 + writes.length * 32)) ≤ encodedLength writes - 64 := by omega
  rw [← slice_slice hin,hbody,slice_zeros hin]

end entry
end ImgVhdx
