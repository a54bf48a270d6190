import ImgVhdx.Log.Format

/-! Encoding what was parsed: an entry of data descriptors alone, with nothing spare in it, is given back byte for byte. -/
namespace ImgVhdx
open Lib

def Descriptor.pending : Descriptor → Option PendingWrite
  | .zero _ _ _ => none
  | .data _ _ fileOffset _ sector => some ⟨UInt64.ofNat fileOffset,sector⟩

/-- The parsed fields and sectors, encoded again. -/
def LogEntry.reencode [Crc32c] (e : LogEntry) : Bytes :=
  encodeEntry (UInt64.ofNat e.header.sequenceNumber) (UInt32.ofNat e.header.tail) e.header.logGuid
    (UInt64.ofNat e.header.flushedFileOffset)
    (UInt64.ofNat e.header.lastFileOffset) (e.descriptors.filterMap Descriptor.pending)

/-- Nothing is spare, and what the format reserves is zero. -/
structure Compact (entry : Bytes) : Prop where
  exact : entry.length = dataStart entry + entryCount entry * 4096
  reserved : slice entry 28 4 = zeros 4
  padding : slice entry (64 + entryCount entry * 32) (dataStart entry - (64 + entryCount entry * 32)) =
    zeros (dataStart entry - (64 + entryCount entry * 32))

section sectors
variable {entry : Bytes} {off base q : Nat}

private theorem toLE_ofLE_slice {a w : Nat} (h : a + w ≤ entry.length) :
    toLE w (ofLE (slice entry a w)) = slice entry a w := by
  have := toLE_ofLE (slice entry a w)
  rwa [length_slice h] at this

private theorem getElem?_reconstruct (s : Sector) (lead trail k : Nat) : (reconstruct s lead trail).1[k]? =
    if 4092 ≤ k ∧ k < 4096 then (toLE 4 trail)[k - 4092]? else if k < 8 then (toLE 8 lead)[k]? else s.1[k]? := by
  have hs : s.1.length = 4096 := s.2
  have h1 : (splice s.1 0 (toLE 8 lead)).length = 4096 := (length_splice (by rw [length_toLE]; omega)).trans hs
  have h4 : logSectorSize - 4 + (toLE 4 trail).length ≤ (splice s.1 0 (toLE 8 lead)).length := by
    rw [h1,length_toLE]
    decide
  unfold reconstruct
  rw [getElem?_splice h4,getElem?_splice (by rw [length_toLE]; omega),length_toLE,length_toLE]
  simp only [Nat.zero_le,true_and,Nat.zero_add,Nat.sub_zero]
  rfl

private theorem reconstruct_front (s : Sector) (lead trail : Nat) :
    slice (reconstruct s lead trail).1 0 8 = toLE 8 lead := by
  apply List.ext_getElem?
  intro k
  rw [getElem?_slice,getElem?_reconstruct,Nat.zero_add]
  split_ifs with h1 h2
  · omega
  · rfl
  · exact (List.getElem?_eq_none (by rw [length_toLE]; omega)).symm

private theorem reconstruct_back (s : Sector) (lead trail : Nat) :
    slice (reconstruct s lead trail).1 (logSectorSize - 4) 4 = toLE 4 trail := by
  apply List.ext_getElem?
  intro k
  rw [getElem?_slice,getElem?_reconstruct,show logSectorSize - 4 = 4092 from rfl,Nat.add_sub_cancel_left]
  split_ifs with h1 h2 h2
  · rfl
  · omega
  · omega
  · exact (List.getElem?_eq_none (by rw [length_toLE]; omega)).symm

/-- Stamping a reconstructed sector gives back the one it was read from. -/
private theorem stampedSector_reconstruct {s : Sector} {lead trail : Nat} {w : PendingWrite}
    (hw : w.sector = reconstruct s lead trail) {seq : UInt64} (hs : slice s.1 0 4 = dataSectorSignature)
    (hhi : slice s.1 4 4 = toLE 4 (seq.toNat / 2^32)) (hlo : slice s.1 4092 4 = toLE 4 (seq.toNat % 2^32)) :
    stampedSector seq w = s.1 := by
  have hlen : s.1.length = 4096 := s.2
  have hwl : w.sector.1.length = 4096 := w.sector.2
  have hsig : dataSectorSignature.length = 4 := rfl
  have h1 : (splice w.sector.1 0 dataSectorSignature).length = 4096 := (length_splice (by omega)).trans hwl
  have h2 : (splice (splice w.sector.1 0 dataSectorSignature) 4 (toLE 4 (seq.toNat / 2^32))).length = 4096 :=
    (length_splice (by rw [length_toLE]; omega)).trans h1
  have hpart : ∀ {a k : Nat} {p : Bytes}, slice s.1 a 4 = p → a ≤ k → k < a + 4 → p[k - a]? = s.1[k]? :=
      fun hp hle hlt => by
    rw [← hp,getElem?_slice,if_pos (by omega),Nat.add_sub_cancel' hle]
  apply List.ext_getElem?
  intro k
  rw [stampedSector,getElem?_splice (by rw [length_toLE,h2]; decide),getElem?_splice (by rw [length_toLE]; omega),
    getElem?_splice (by omega),
    length_toLE,length_toLE,hsig,show logSectorSize - 4 = 4092 from rfl]
  split_ifs with ha hb hc
  · exact hpart hlo ha.1 ha.2
  · exact hpart hhi hb.1 hb.2
  · exact hpart hs hc.1 hc.2
  · rw [hw,getElem?_reconstruct,if_neg (by omega),if_neg (by omega)]

/-- A data descriptor and its sector as the parser read them are the bytes the encoder writes for them. -/
private theorem encoded_of_readDescriptor {n i b : Nat} {t l f s : Nat} {sector : Sector} (hn : entry.length = n)
    (hroom : 64 + i * 32 + 32 ≤ n) (hq : q < 2^64)
    (h : readDescriptor entry n q i base = .ok (.data t l f s sector,b)) :
    b = base + 4096 ∧ slice entry (64 + i * 32) 32 = descriptorBytes (UInt64.ofNat q) ⟨UInt64.ofNat f,sector⟩ ∧
      slice entry base 4096 = stampedSector (UInt64.ofNat q) ⟨UInt64.ofNat f,sector⟩ := by
  have hqn : (UInt64.ofNat q).toNat = q := UInt64.toNat_ofNat_of_lt' hq
  obtain ⟨hstamp,⟨-,-,hz⟩ | ⟨hsig,hb,hin,hdata,hseq,sec,hsec,hd⟩⟩ := (readDescriptor_eq_ok hn hroom).mp h
  · cases hz
  · simp only [Descriptor.data.injEq] at hd
    obtain ⟨rfl,rfl,rfl,-,rfl⟩ := hd
    have hf := ofLE_slice_lt entry (64 + i * 32 + 16) 8
    have hfn : (UInt64.ofNat (ofLE (slice entry (64 + i * 32 + 16) 8))).toNat =
      ofLE (slice entry (64 + i * 32 + 16) 8) :=
      UInt64.toNat_ofNat_of_lt' hf
    refine ⟨hb,?_,?_⟩
    · unfold descriptorBytes
      dsimp only
      rw [reconstruct_back,reconstruct_front,hqn,hfn,toLE_ofLE_slice (by omega),toLE_ofLE_slice (by omega),
        toLE_ofLE_slice (by omega),← hstamp,
        toLE_ofLE_slice (by omega),← hsig]
      rw [show (32 : Nat) = 4 + 4 + 8 + 8 + 8 from rfl,slice_add,slice_add,slice_add,slice_add]
    · have hlo := ofLE_slice_lt entry (base + 4092) 4
      have hhi : q / 2^32 = ofLE (slice entry (base + 4) 4) := by omega
      have hlow : q % 2^32 = ofLE (slice entry (base + 4092) 4) := by omega
      have hpart : ∀ a, a + 4 ≤ 4096 → slice sec.1 a 4 = slice entry (base + a) 4 := fun a ha => by
        rw [hsec,slice_slice ha]
      refine hsec.symm.trans (stampedSector_reconstruct rfl ?_ ?_ ?_).symm
      · rw [hpart 0 (by decide)]
        exact hdata
      · rw [hpart 4 (by decide),hqn,hhi,toLE_ofLE_slice (by omega)]
      · rw [hpart 4092 (by decide),hqn,hlow,toLE_ofLE_slice (by omega)]

end sectors

section entries
variable {entry : Bytes} {q : Nat}

def DataOnly (ds : List Descriptor) : Prop := ∀ d ∈ ds, d.pending.isSome = true

private theorem length_filterMap_pending {ds : List Descriptor} (h : DataOnly ds) :
    (ds.filterMap Descriptor.pending).length = ds.length := by
  induction ds with
  | nil => rfl
  | cons d ds ih =>
    obtain ⟨w,hw⟩ := Option.isSome_iff_exists.mp (h d List.mem_cons_self)
    rw [List.filterMap_cons_some hw,List.length_cons,List.length_cons,ih fun x hx => h x (List.mem_cons_of_mem _ hx)]

/-- The descriptors and their sectors are those the encoder writes, one after the other. -/
private theorem encoded_of_readDescriptors {n i k base : Nat} {ds : List Descriptor} (hn : entry.length = n)
    (hroom : 64 + (i+k) * 32 ≤ n) (hq : q < 2^64) (hdata : DataOnly ds)
    (h : readDescriptors entry n q i k base = .ok ds) : ds.length = k ∧
    ∀ j w, (ds.filterMap Descriptor.pending)[j]? = some w → slice entry (64 + (i+j) * 32) 32 =
    descriptorBytes (UInt64.ofNat q) w ∧
      slice entry (base + j * 4096) 4096 = stampedSector (UInt64.ofNat q) w := by
  induction k generalizing i base ds with
  | zero =>
    obtain rfl : ds = [] := (Outcome.ok.inj h).symm
    exact ⟨rfl,by simp⟩
  | succ k ih =>
    rw [readDescriptors] at h
    obtain ⟨⟨d,b⟩,hd,h⟩ := Outcome.bind_eq_ok.mp h
    obtain ⟨rest,hrest,h⟩ := Outcome.bind_eq_ok.mp h
    obtain rfl : ds = d :: rest := (Outcome.ok.inj h).symm
    obtain ⟨w,hw⟩ := Option.isSome_iff_exists.mp (hdata d List.mem_cons_self)
    cases d with
    | zero => cases hw
    | data t l f s sector =>
      obtain ⟨rfl,hdesc,hsec⟩ := encoded_of_readDescriptor hn (by omega) hq hd
      obtain ⟨hlen,htail⟩ := ih (by omega) (fun x hx => hdata x (List.mem_cons_of_mem _ hx)) hrest
      refine ⟨by rw [List.length_cons,hlen],fun j v hv => ?_⟩
      rw [List.filterMap_cons_some hw] at hv
      obtain rfl : _ = w := Option.some.inj hw
      cases j with
      | zero =>
        obtain rfl : _ = v := Option.some.inj hv
        rw [Nat.add_zero,Nat.zero_mul,Nat.add_zero]
        exact ⟨hdesc,hsec⟩
      | succ j =>
        have := htail j v hv
        rwa [show i + 1 + j = i + (j+1) by omega,show base + 4096 + j * 4096 = base + (j+1) * 4096 by omega] at this

variable [Crc32c] {seq : UInt64} {tail : UInt32} {guid : Guid} {flushed last : UInt64} {writes : List PendingWrite} {a b : Bytes}

/-- The layout leaves no byte open but the gaps. -/
theorem IsEncoded.unique (ha : IsEncoded seq tail guid flushed last writes a)
    (hb : IsEncoded seq tail guid flushed last writes b) (hlt : encodedLength writes < 2^32)
    (hreserved : slice a 28 4 = slice b 28 4)
    (hpadding : slice a (64 + writes.length * 32) (dataSectorsBase writes - (64 + writes.length * 32)) =
      slice b (64 + writes.length * 32) (dataSectorsBase writes - (64 + writes.length * 32))) : a = b := by
  have hbase := dataSectorsBase_eq hlt
  have hl : encodedLength writes = dataSectorsBase writes + writes.length * 4096 := rfl
  have hla := ha.length
  have hlb := hb.length
  have hall : ∀ k, ¬ (4 ≤ k ∧ k < 8) → a[k]? = b[k]? := by
    intro k hk
    have hsame : ∀ {o m : Nat}, slice a o m = slice b o m → o ≤ k → k < o + m → a[k]? = b[k]? := getElem?_of_slice
    rcases Nat.lt_or_ge k 64 with h64 | h64
    · rcases Nat.lt_or_ge k 8 with h | h
      · exact hsame (ha.signature.trans hb.signature.symm) (by omega) (by omega)
      rcases Nat.lt_or_ge k 12 with h | h
      · exact hsame (ha.entryLength.trans hb.entryLength.symm) (by omega) (by omega)
      rcases Nat.lt_or_ge k 16 with h | h
      · exact hsame (ha.tail.trans hb.tail.symm) (by omega) (by omega)
      rcases Nat.lt_or_ge k 24 with h | h
      · exact hsame (ha.sequenceNumber.trans hb.sequenceNumber.symm) (by omega) (by omega)
      rcases Nat.lt_or_ge k 28 with h | h
      · exact hsame (ha.descriptorCount.trans hb.descriptorCount.symm) (by omega) (by omega)
      rcases Nat.lt_or_ge k 32 with h | h
      · exact hsame hreserved (by omega) (by omega)
      rcases Nat.lt_or_ge k 48 with h | h
      · exact hsame (ha.logGuid.trans hb.logGuid.symm) (by omega) (by omega)
      rcases Nat.lt_or_ge k 56 with h | h
      · exact hsame (ha.flushed.trans hb.flushed.symm) (by omega) (by omega)
      · exact hsame (ha.last.trans hb.last.symm) (by omega) (by omega)
    rcases Nat.lt_or_ge k (64 + writes.length * 32) with h | h
    · -- inside the descriptor table
      have hj : (k - 64) / 32 < writes.length := by omega
      have hw := List.getElem?_eq_getElem hj
      exact hsame ((ha.descriptor _ _ hw).trans (hb.descriptor _ _ hw).symm) (by omega) (by omega)
    rcases Nat.lt_or_ge k (dataSectorsBase writes) with h | h
    · exact hsame hpadding (by omega) (by omega)
    rcases Nat.lt_or_ge k (encodedLength writes) with h | h
    · have hj : (k - dataSectorsBase writes) / 4096 < writes.length := by omega
      have hw := List.getElem?_eq_getElem hj
      exact hsame ((ha.sector _ _ hw).trans (hb.sector _ _ hw).symm) (by omega) (by omega)
    · rw [List.getElem?_eq_none (by omega),List.getElem?_eq_none (by omega)]
  have hzeroed : splice a 4 (zeros 4) = splice b 4 (zeros 4) := by
    apply List.ext_getElem?
    intro k
    rw [getElem?_splice (by rw [length_zeros]; omega),getElem?_splice (by rw [length_zeros]; omega),length_zeros]
    split_ifs with hk
    · rfl
    · exact hall k hk
  -- the rest being the same, so is the checksum, and so is the field that holds it
  have hcrc : slice a 4 4 = slice b 4 4 := by
    have : ofLE (slice a 4 4) = ofLE (slice b 4 4) := by
      rw [ha.crc,hb.crc,checksumOf,checksumOf,hzeroed]
    rw [← toLE_ofLE_slice (show 4 + 4 ≤ a.length by omega),this,toLE_ofLE_slice (by omega)]
  apply List.ext_getElem?
  intro k
  by_cases hk : 4 ≤ k ∧ k < 8
  · exact getElem?_of_slice hcrc hk.1 hk.2
  · exact hall k hk

end entries

section accepted
variable [Crc32c] {log : Bytes} {guid : Guid} {pos : Nat} {e : LogEntry}

/-- What the parser made of a slot it accepted, when all of it is data, is laid out in the region as the encoder lays it out. -/
private theorem isEncoded_of_readEntry {n : { n : Nat // logSectorSize ≤ n }} (hd : Declares log guid pos n.1)
    (h : readEntry log pos n guid = .ok e) (hdata : DataOnly e.descriptors) (hc : Compact (circSlice log pos n)) :
    (e.descriptors.filterMap Descriptor.pending).length = entryCount (circSlice log pos n) ∧
    encodedLength (e.descriptors.filterMap Descriptor.pending) = n.1 ∧
    IsEncoded (UInt64.ofNat e.header.sequenceNumber) (UInt32.ofNat e.header.tail) e.header.logGuid
    (UInt64.ofNat e.header.flushedFileOffset)
      (UInt64.ofNat e.header.lastFileOffset) (e.descriptors.filterMap Descriptor.pending) (circSlice log pos n) := by
  have hp : pos + 4096 ≤ log.length := hd.within
  have hlong : 4096 ≤ n.1 := hd.long
  have hlen : (circSlice log pos n).length = n := length_circSlice (by omega) hd.fits
  have hf := (readEntry_isOk hd).mp ⟨e,h⟩
  have hcount := ofLE_slice_lt (circSlice log pos n) 24 4
  have hround : roundUpSector (logEntryHeaderSize + ofLE (slice (circSlice log pos n) 24 4) * logDescriptorSize) =
      dataStart (circSlice log pos n) := by
    rw [roundUpSector_eq (by simp only [logEntryHeaderSize,logDescriptorSize]; omega)]
    rfl
  rw [readEntry_of_le hp hd.fits,readFields_of_length hlen,hround] at h
  split_ifs at h with hcrc htable
  obtain ⟨ds,hds,he⟩ := Outcome.bind_eq_ok.mp h
  obtain rfl := Outcome.ok.inj he
  dsimp only at hdata ⊢
  have htable' : 64 + entryCount (circSlice log pos n) * 32 ≤ n.1 := Nat.le_of_not_lt htable
  have hq := ofLE_slice_lt (circSlice log pos n) 16 8
  obtain ⟨hdslen,hall⟩ := encoded_of_readDescriptors (k := entryCount (circSlice log pos n)) hlen
    (by rwa [Nat.zero_add]) hq hdata hds
  have hwlen : (ds.filterMap Descriptor.pending).length = entryCount (circSlice log pos n) :=
    (length_filterMap_pending hdata).trans hdslen
  have hmod : (ds.filterMap Descriptor.pending).length % 2^32 = entryCount (circSlice log pos n) := by
    rw [hwlen]
    exact Nat.mod_eq_of_lt hcount
  have hbase : dataSectorsBase (ds.filterMap Descriptor.pending) = dataStart (circSlice log pos n) := by
    rw [dataSectorsBase,hmod]
    exact hround
  have henc : encodedLength (ds.filterMap Descriptor.pending) = n.1 := by
    have hexact := hc.exact
    rw [hlen] at hexact
    have hparts : encodedLength (ds.filterMap Descriptor.pending) = dataSectorsBase (ds.filterMap Descriptor.pending) +
      (ds.filterMap Descriptor.pending).length * 4096 := rfl
    rw [hparts,hbase,hwlen]
    exact hexact.symm
  have hu64 : ∀ o, (UInt64.ofNat (ofLE (slice (circSlice log pos n) o 8))).toNat =
    ofLE (slice (circSlice log pos n) o 8) := fun o =>
    UInt64.toNat_ofNat_of_lt' (ofLE_slice_lt _ o 8)
  have hu32 : ∀ o, (UInt32.ofNat (ofLE (slice (circSlice log pos n) o 4))).toNat =
    ofLE (slice (circSlice log pos n) o 4) := fun o =>
    UInt32.toNat_ofNat_of_lt' (ofLE_slice_lt _ o 4)
  refine ⟨hwlen,henc,hlen.trans henc.symm,hf.signature,hf.checked,?_,?_,?_,?_,hf.ours,?_,?_,fun j w hw =>
    ?_,fun j w hw => ?_⟩
  · have hdeclared := hf.declared
    rw [hlen] at hdeclared
    rw [henc.trans hdeclared.symm,toLE_ofLE_slice (by omega)]
  · rw [hu32,toLE_ofLE_slice (by omega)]
  · rw [hu64,toLE_ofLE_slice (by omega)]
  · rw [hmod]
    exact (toLE_ofLE_slice (show 24 + 4 ≤ _ by omega)).symm
  · rw [hu64,toLE_ofLE_slice (by omega)]
  · rw [hu64,toLE_ofLE_slice (by omega)]
  · have := (hall j w hw).1
    rwa [Nat.zero_add] at this
  · rw [hbase]
    exact (hall j w hw).2

private theorem reencode_of_readEntry {n : { n : Nat // logSectorSize ≤ n }} (hd : Declares log guid pos n.1)
    (h : readEntry log pos n guid = .ok e) (hdata : DataOnly e.descriptors) (hc : Compact (circSlice log pos n)) :
    e.reencode = circSlice log pos n := by
  obtain ⟨hcount,hlen,henc⟩ := isEncoded_of_readEntry hd h hdata hc
  have hlt : encodedLength (e.descriptors.filterMap Descriptor.pending) < 2^32 := by
    have := ofLE_slice_lt log (pos+8) 4
    rw [hlen,hd.length]
    omega
  obtain ⟨hreserved,hpadding⟩ := encodeEntry_gaps (q := UInt64.ofNat e.header.sequenceNumber)
    (t := UInt32.ofNat e.header.tail)
    (g := e.header.logGuid) (f := UInt64.ofNat e.header.flushedFileOffset) (l := UInt64.ofNat e.header.lastFileOffset) hlt
  have hbase : dataSectorsBase (e.descriptors.filterMap Descriptor.pending) = dataStart (circSlice log pos n) := by
    rw [dataSectorsBase_eq hlt,hcount]
    rfl
  refine (encodeEntry_isEncoded hlt).unique henc hlt (hreserved.trans hc.reserved.symm) (hpadding.trans ?_)
  rw [hbase,hcount]
  exact hc.padding.symm

/-- The parser accepts a slot exactly where the bytes read round from it are an entry of the format; and where it does,
an entry of data descriptors alone with nothing spare in it is given back by encoding what was parsed. -/
theorem parse_exact {budget : ChecksumBudget} (hm : log.length % logSectorSize = 0) (hpm : pos % logSectorSize = 0)
    (hp : pos < log.length) (hb : ofLE (slice log (pos+8) 4) ≤ budget.left) :
    ((∃ e, (parseLogEntry log pos guid budget).1 = .ok e) ↔ ∃ n, n ≤ log.length ∧
      EntryFormat (circSlice log pos n) guid) ∧
    ∀ e, (parseLogEntry log pos guid budget).1 = .ok e → DataOnly e.descriptors →
    Compact (circSlice log pos e.header.entryLength) →
      e.reencode = circSlice log pos e.header.entryLength := by
  have hin : pos + 4096 ≤ log.length := by
    simp only [logSectorSize] at hm hpm
    omega
  refine ⟨parseLogEntry_isOk hin hb,fun e h hdata hc => ?_⟩
  rcases parseLogEntry_charged log guid pos budget with ⟨n,-,-,hparse⟩ | ⟨n,hd,-,hparse⟩ | ⟨hno,hparse⟩
  · rw [hparse] at h
    cases h
  · rw [hparse] at h
    change probe log guid pos = _ at h
    unfold probe at h
    rw [hd.ok,Outcome.ok_bind] at h
    obtain ⟨-,hlen,-⟩ := readEntry_eq_ok hd.within hd.fits hd.whole h
    rw [hlen] at hc ⊢
    exact reencode_of_readEntry (n := ⟨n,hd.long⟩) hd h hdata hc
  · rw [hparse] at h
    obtain ⟨why,hw⟩ | ⟨a,ha,-,-,hda⟩ := probe_cases log guid pos
    · rw [show probe log guid pos = .ok e from h] at hw
      cases hw
    · exact absurd hda (hno _)

end accepted

theorem parse_exact_one_write :
    letI := castagnoli
    let log := encodeEntry 1 0 ⟨List.replicate 16 0x42,rfl⟩ 0 0 [⟨4194304,⟨zeros 4096,length_zeros _⟩⟩]
    ∃ e, (parseLogEntry log 0 ⟨List.replicate 16 0x42,rfl⟩ { left := 8192, exhausted := false }).1 = .ok e ∧
      e.reencode = log := by
  let := castagnoli
  intro log
  let writes : List PendingWrite := [⟨4194304,⟨zeros 4096,length_zeros _⟩⟩]
  have hsize : encodedLength writes = 8192 := by decide
  have hbase : dataSectorsBase writes = 4096 := by decide
  have hlt : encodedLength writes < 2^32 := by decide
  have henc : IsEncoded 1 0 ⟨List.replicate 16 0x42,rfl⟩ 0 0 writes log := encodeEntry_isEncoded hlt
  have hlen : log.length = 8192 := henc.length.trans hsize
  have hall : circSlice log 0 8192 = log := (circSlice_of_le (by rw [hlen])).trans (slice_eq_self hlen)
  have hround : IsEncoded 1 0 ⟨List.replicate 16 0x42,rfl⟩ 0 0 writes (circSlice log 0 (encodedLength writes)) := by
    rw [hsize,hall]
    exact henc
  have hp : 0 + logSectorSize ≤ log.length := by
    rw [hlen]
    decide
  have hfit : encodedLength writes ≤ log.length := by rw [hsize,hlen]
  have hparse : (parseLogEntry log 0 ⟨List.replicate 16 0x42,rfl⟩ { left := 8192, exhausted := false }).1 =
      .ok (encodedEntry 0 1 0 ⟨List.replicate 16 0x42,rfl⟩ 0 0 writes) := by
    unfold parseLogEntry
    rw [declaredLength_encoded hp hfit hlt hround]
    dsimp only
    rw [if_neg (by rw [hsize]; decide)]
    exact readEntry_encoded hp hfit hlt hround
  have hcount : entryCount log = 1 := by
    rw [entryCount,henc.descriptorCount]
    exact ofLE_toLE (by decide)
  have hstart : dataStart log = 4096 := by
    rw [dataStart,hcount]
  have hcompact : Compact log := by
    obtain ⟨hreserved,hpadding⟩ := encodeEntry_gaps (q := 1) (t := 0) (g := ⟨List.replicate 16 0x42,rfl⟩) (f := 0) (l := 0) hlt
    refine ⟨by rw [hstart,hcount,hlen],hreserved,?_⟩
    rw [hstart,hcount]
    rw [hbase] at hpadding
    exact hpadding
  have hdeclared : ofLE (slice log (0+8) 4) ≤ 8192 := by
    rw [henc.entryLength,hsize]
    exact (ofLE_toLE (by decide)).le
  have hexact := (@parse_exact castagnoli log ⟨List.replicate 16 0x42,rfl⟩ 0 { left := 8192, exhausted := false }
    (by rw [hlen]; decide) rfl (by rw [hlen]; decide) hdeclared).2 _ hparse
  have hdata : DataOnly (writes.map (PendingWrite.descriptor 1)) := fun d hd => by
    obtain ⟨w,-,rfl⟩ := List.mem_map.mp hd
    rfl
  refine ⟨_,hparse,(hexact hdata ?_).trans ?_⟩
  · change Compact (circSlice log 0 (encodedLength writes))
    rw [hsize,hall]
    exact hcompact
  · change circSlice log 0 (encodedLength writes) = log
    rw [hsize,hall]

end ImgVhdx
