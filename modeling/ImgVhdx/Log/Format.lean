import ImgVhdx.Log.Budget
import ImgVhdx.Log.RoundTrip

/-! The format of a log entry, said of its bytes alone: the parser accepts exactly the spans of the region that hold
one, and encoding what it read gives those bytes back. -/
namespace ImgVhdx
open Lib

section format
variable (entry : Bytes)

def entrySequence : Nat := ofLE (slice entry 16 8)

def entryCount : Nat := ofLE (slice entry 24 4)

def dataStart : Nat := (64 + entryCount entry * 32 + 4095) / 4096 * 4096

def dataBefore (i : Nat) : Nat := (List.range i).countP fun k => slice entry (64 + k * 32) 4 = dataDescSignature

structure DataFormat (base : Nat) : Prop where
  inside : base + 4096 ≤ entry.length
  signature : slice entry base 4 = dataSectorSignature
  sequence : ofLE (slice entry (base + 4) 4) * 2^32 + ofLE (slice entry (base + 4092) 4) = entrySequence entry

structure DescriptorFormat (i : Nat) : Prop where
  stamped : ofLE (slice entry (64 + i * 32 + 24) 8) = entrySequence entry
  kind : slice entry (64 + i * 32) 4 = zeroDescSignature ∨
    slice entry (64 + i * 32) 4 = dataDescSignature ∧ DataFormat entry (dataStart entry + dataBefore entry i * 4096)

/-- The bytes are one entry of the chain under `guid`. -/
structure EntryFormat [Crc32c] (guid : Guid) : Prop where
  signature : slice entry 0 4 = logEntrySignature
  declared : ofLE (slice entry 8 4) = entry.length
  nonempty : 0 < entry.length
  sectors : entry.length % 4096 = 0
  ours : slice entry 32 16 = guid.1
  checked : ofLE (slice entry 4 4) = checksumOf entry
  table : 64 + entryCount entry * 32 ≤ entry.length
  descriptors : ∀ i, i < entryCount entry → DescriptorFormat entry i

end format

section descriptors
variable {entry : Bytes} {n q i k base b : Nat} {d : Descriptor} {ds : List Descriptor}

private theorem zeroDescSignature_ne : zeroDescSignature ≠ dataDescSignature := by decide

@[simp] theorem dataBefore_zero (entry : Bytes) : dataBefore entry 0 = 0 := rfl

private theorem dataBefore_succ (entry : Bytes) (i : Nat) :
    dataBefore entry (i+1) = dataBefore entry i + if slice entry (64 + i * 32) 4 = dataDescSignature then 1 else 0 := by
  unfold dataBefore
  rw [List.range_succ,List.countP_append,List.countP_singleton]
  simp only [decide_eq_true_eq]

/-- One descriptor read: all the parser asked of it, and what it made of it. -/
theorem readDescriptor_eq_ok (hn : entry.length = n) (hroom : 64 + i * 32 + 32 ≤ n) :
    readDescriptor entry n q i base = .ok (d,b) ↔
    ofLE (slice entry (64 + i * 32 + 24) 8) = q ∧
    ((slice entry (64 + i * 32) 4 = zeroDescSignature ∧ b = base ∧
      d = .zero (ofLE (slice entry (64 + i * 32 + 8) 8)) (ofLE (slice entry (64 + i * 32 + 16) 8)) q) ∨
    (slice entry (64 + i * 32) 4 = dataDescSignature ∧ b = base + 4096 ∧ base + 4096 ≤ n ∧
      slice entry base 4 = dataSectorSignature ∧
      ofLE (slice entry (base + 4) 4) * 2^32 + ofLE (slice entry (base + 4092) 4) = q ∧
      ∃ s : Sector, s.1 = slice entry base 4096 ∧
        d = .data (ofLE (slice entry (64 + i * 32 + 4) 4)) (ofLE (slice entry (64 + i * 32 + 8) 8))
          (ofLE (slice entry (64 + i * 32 + 16) 8)) q
          (reconstruct s (ofLE (slice entry (64 + i * 32 + 8) 8)) (ofLE (slice entry (64 + i * 32 + 4) 4))))) := by
  have hsize : logSectorSize = 4096 := rfl
  rw [readDescriptor]
  simp only [show logEntryHeaderSize + i * logDescriptorSize = 64 + i * 32 from rfl]
  rw [index_of_le (by omega) (by omega),readU64Le_of_le (by omega),readU64Le_of_le (by omega),
    readU64Le_of_le (by omega),
    readU32Le_of_le (by omega),Nat.add_sub_cancel_left]
  simp only [Outcome.ok_bind]
  by_cases hq : ofLE (slice entry (64 + i * 32 + 24) 8) = q
  · rw [Outcome.rejectIf_of_not _ (not_not.mpr hq),hq,Outcome.ok_bind]
    by_cases hz : slice entry (64 + i * 32) 4 = zeroDescSignature
    · rw [if_pos hz]
      simp only [Outcome.pure_eq,Outcome.ok.injEq,Prod.mk.injEq,hz,zeroDescSignature_ne,false_and,or_false,true_and]
      exact ⟨fun h => ⟨h.2.symm,h.1.symm⟩,fun h => ⟨h.2.symm,h.1.symm⟩⟩
    · rw [if_neg hz]
      by_cases hd : slice entry (64 + i * 32) 4 = dataDescSignature
      · rw [if_pos hd]
        simp only [hd,zeroDescSignature_ne.symm,false_and,false_or,true_and]
        by_cases hin : base + 4096 ≤ n
        · have hin' : base + logSectorSize ≤ entry.length := by omega
          rw [Outcome.rejectIf_of_not _ (by omega),Outcome.ok_bind,sectorAt,dif_pos hin',Outcome.ok_bind]
          have hlen : (slice entry base logSectorSize).length = 4096 := length_slice hin'
          have h0 : slice (slice entry base logSectorSize) 0 (4 - 0) = slice entry base 4 := slice_slice (by decide)
          have h4 : slice (slice entry base logSectorSize) 4 4 = slice entry (base + 4) 4 := slice_slice (by decide)
          have hl : slice (slice entry base logSectorSize) (logSectorSize - 4) 4 = slice entry (base + 4092) 4 :=
            slice_slice (by decide)
          dsimp only
          rw [index_of_le (by omega) (by omega),Outcome.ok_bind,h0,readU32Le_of_le (by omega),
            readU32Le_of_le (by rw [hlen]; decide),
            Outcome.ok_bind,h4,Outcome.ok_bind,hl,shiftLeft_or (ofLE_slice_lt _ _ 4)]
          by_cases hs : slice entry base 4 = dataSectorSignature
          · rw [Outcome.rejectIf_of_not _ (not_not.mpr hs),Outcome.ok_bind]
            by_cases hseq : ofLE (slice entry (base + 4) 4) * 2^32 + ofLE (slice entry (base + 4092) 4) = q
            · rw [Outcome.rejectIf_of_not _ (not_not.mpr hseq)]
              simp only [Outcome.ok_bind,Outcome.pure_eq,Outcome.ok.injEq,Prod.mk.injEq]
              constructor
              · rintro ⟨rfl,rfl⟩
                exact ⟨rfl,hin,hs,hseq,⟨_,hlen⟩,rfl,rfl⟩
              · rintro ⟨rfl,-,-,-,s,hsec,rfl⟩
                obtain rfl : s = ⟨slice entry base logSectorSize,hlen⟩ := Subtype.ext hsec
                exact ⟨rfl,rfl⟩
            · rw [Outcome.rejectIf_of _ hseq]
              exact ⟨fun h => (by cases h),fun h => absurd h.2.2.2.1 hseq⟩
          · rw [Outcome.rejectIf_of _ hs]
            exact ⟨fun h => (by cases h),fun h => absurd h.2.2.1 hs⟩
        · rw [Outcome.rejectIf_of _ (by omega)]
          exact ⟨fun h => (by cases h),fun h => absurd h.2.1 hin⟩
      · rw [if_neg hd]
        simp only [hz,hd,false_and,or_false,and_false]
        exact ⟨fun h => (by cases h),False.elim⟩
  · rw [Outcome.rejectIf_of _ hq]
    exact ⟨fun h => (by cases h),fun h => absurd h.1 hq⟩

/-- Where the next data sector is follows from the descriptors so far. -/
private theorem readDescriptor_base (hn : entry.length = n) (hroom : 64 + i * 32 + 32 ≤ n)
    (hb : base = dataStart entry + dataBefore entry i * 4096) (h : readDescriptor entry n q i base = .ok (d,b)) :
    b = dataStart entry + dataBefore entry (i+1) * 4096 := by
  rw [dataBefore_succ]
  obtain ⟨-,⟨hsig,hbase,-⟩ | ⟨hsig,hbase,-⟩⟩ := (readDescriptor_eq_ok hn hroom).mp h
  · rw [if_neg (by rw [hsig]; exact zeroDescSignature_ne)]
    omega
  · rw [if_pos hsig]
    omega

private theorem readDescriptor_isOk (hn : entry.length = n) (hroom : 64 + i * 32 + 32 ≤ n)
    (hb : base = dataStart entry + dataBefore entry i * 4096) :
    (∃ d b, readDescriptor entry n (entrySequence entry) i base = .ok (d,b)) ↔ DescriptorFormat entry i := by
  subst hb hn
  constructor
  · rintro ⟨d,b,h⟩
    obtain ⟨hq,⟨hsig,-,-⟩ | ⟨hsig,-,hin,hs,hseq,-⟩⟩ := (readDescriptor_eq_ok rfl hroom).mp h
    · exact ⟨hq,.inl hsig⟩
    · exact ⟨hq,.inr ⟨hsig,hin,hs,hseq⟩⟩
  · rintro ⟨hq,hsig | ⟨hsig,hdata⟩⟩
    · exact ⟨_,_,(readDescriptor_eq_ok rfl hroom).mpr ⟨hq,.inl ⟨hsig,rfl,rfl⟩⟩⟩
    · exact ⟨_,_,(readDescriptor_eq_ok rfl hroom).mpr
        ⟨hq,.inr ⟨hsig,rfl,hdata.inside,hdata.signature,hdata.sequence,⟨_,length_slice hdata.inside⟩,rfl,rfl⟩⟩⟩

private theorem readDescriptors_isOk (hn : entry.length = n) (hroom : 64 + (i+k) * 32 ≤ n)
    (hb : base = dataStart entry + dataBefore entry i * 4096) :
    (∃ ds, readDescriptors entry n (entrySequence entry) i k base = .ok ds) ↔ ∀ j, i ≤ j → j < i + k →
    DescriptorFormat entry j := by
  induction k generalizing i base with
  | zero => exact ⟨fun _ j h1 h2 => by omega,fun _ => ⟨[],rfl⟩⟩
  | succ k ih =>
    have hfirst := readDescriptor_isOk hn (show 64 + i * 32 + 32 ≤ n by omega) hb
    constructor
    · rintro ⟨ds,h⟩
      rw [readDescriptors] at h
      obtain ⟨⟨d,b⟩,hd,h⟩ := Outcome.bind_eq_ok.mp h
      obtain ⟨rest,hrest,-⟩ := Outcome.bind_eq_ok.mp h
      have hbase := readDescriptor_base hn (by omega) hb hd
      have htail := (ih (by omega) hbase).mp ⟨rest,hrest⟩
      intro j hj hlt
      rcases Nat.eq_or_lt_of_le hj with rfl | hj
      · exact hfirst.mp ⟨d,b,hd⟩
      · exact htail j hj (by omega)
    · intro hall
      obtain ⟨d,b,hd⟩ := hfirst.mpr (hall i le_rfl (by omega))
      have hbase := readDescriptor_base hn (by omega) hb hd
      obtain ⟨rest,hrest⟩ := (ih (by omega) hbase).mpr fun j hj hlt => hall j (by omega) (by omega)
      refine ⟨d :: rest,?_⟩
      rw [readDescriptors,hd,Outcome.ok_bind]
      dsimp only
      rw [hrest]
      rfl

end descriptors

section accepts
variable [Crc32c] {log : Bytes} {guid : Guid} {pos : Nat} {budget : ChecksumBudget}

omit [Crc32c] in
private theorem circSlice_first {n o w : Nat} (hp : pos + 4096 ≤ log.length) (hlong : 4096 ≤ n) (hw : o + w ≤ 4096) (h0 : 0 < w) :
    slice (circSlice log pos n) o w = slice log (pos + o) w :=
  slice_circSlice (by omega) (by omega) (by omega) h0

/-- The slot the span starts in declares it. -/
theorem EntryFormat.declares {n : Nat} (hp : pos + 4096 ≤ log.length) (hn : n ≤ log.length)
    (h : EntryFormat (circSlice log pos n) guid) :
    Declares log guid pos n := by
  have hlen : (circSlice log pos n).length = n := length_circSlice (by omega) hn
  have hpos := h.nonempty
  have hmod := h.sectors
  rw [hlen] at hpos hmod
  have hlong : 4096 ≤ n := by omega
  have hs := h.signature
  have hd := h.declared
  have hg := h.ours
  rw [circSlice_first hp hlong (by decide) (by decide)] at hs hd hg
  exact ⟨hp,hs,(hd.trans hlen).symm,hlong,hmod,hn,hg⟩

theorem readEntry_isOk {n : { n : Nat // logSectorSize ≤ n }} (hd : Declares log guid pos n.1) :
    (∃ e, readEntry log pos n guid = .ok e) ↔ EntryFormat (circSlice log pos n) guid := by
  have hp : pos + 4096 ≤ log.length := hd.within
  have hlong : 4096 ≤ n.1 := hd.long
  have hlen : (circSlice log pos n).length = n := length_circSlice (by omega) hd.fits
  have hcount := ofLE_slice_lt (circSlice log pos n) 24 4
  have hround : roundUpSector (logEntryHeaderSize + ofLE (slice (circSlice log pos n) 24 4) * logDescriptorSize) =
      dataStart (circSlice log pos n) := by
    rw [roundUpSector_eq (by simp only [logEntryHeaderSize,logDescriptorSize]; omega)]
    rfl
  rw [readEntry_of_le hp hd.fits,readFields_of_length hlen,hround]
  have hdescriptors : 64 + entryCount (circSlice log pos n) * 32 ≤ n.1 →
      ((∃ ds, readDescriptors (circSlice log pos n) n (entrySequence (circSlice log pos n)) 0
        (entryCount (circSlice log pos n))
        (dataStart (circSlice log pos n)) = .ok ds) ↔ ∀ j, 0 ≤ j → j < 0 + entryCount (circSlice log pos n) →
          DescriptorFormat (circSlice log pos n) j) :=
    fun hroom => readDescriptors_isOk hlen (by rwa [Nat.zero_add]) (by rw [dataBefore_zero,Nat.zero_mul,Nat.add_zero])
  constructor
  · rintro ⟨e,h⟩
    split_ifs at h with hcrc htable
    obtain ⟨ds,hds,-⟩ := Outcome.bind_eq_ok.mp h
    have htable' : 64 + entryCount (circSlice log pos n) * 32 ≤ n.1 := Nat.le_of_not_lt htable
    have hall := (hdescriptors htable').mp ⟨ds,hds⟩
    refine ⟨?_,?_,by omega,by rw [hlen]; exact hd.whole,?_,hcrc,by rwa [hlen],fun i hi =>
      hall i (Nat.zero_le _) (by omega)⟩
    · rw [circSlice_first hp hlong (by decide) (by decide)]
      exact hd.signature
    · rw [circSlice_first hp hlong (by decide) (by decide),hlen]
      exact hd.length.symm
    · rw [circSlice_first hp hlong (by decide) (by decide)]
      exact hd.ours
  · intro h
    have htable := h.table
    rw [hlen] at htable
    obtain ⟨ds,hds⟩ := (hdescriptors htable).mpr fun i _ hi => h.descriptors i (by omega)
    have hno : ¬ logEntryHeaderSize + ofLE (slice (circSlice log pos n) 24 4) * logDescriptorSize > n.1 :=
      Nat.not_lt.mpr htable
    rw [if_pos h.checked,if_neg hno]
    change ∃ e, (readDescriptors (circSlice log pos n) n.1 (entrySequence (circSlice log pos n)) 0
      (entryCount (circSlice log pos n)) _).bind _ = _
    rw [hds]
    exact ⟨_,rfl⟩

/-- With budget enough for the length declared, the parser accepts a slot exactly where the bytes from there on, read
round the end of the region, are an entry. -/
theorem parseLogEntry_isOk (hp : pos + 4096 ≤ log.length) (hb : ofLE (slice log (pos+8) 4) ≤ budget.left) :
    (∃ e, (parseLogEntry log pos guid budget).1 = .ok e) ↔ ∃ n, n ≤ log.length ∧
    EntryFormat (circSlice log pos n) guid := by
  have hread : (∃ e, (parseLogEntry log pos guid budget).1 = .ok e) ↔
      ∃ n g, declaredLength log pos guid = .ok (n,g) ∧ ∃ e, readEntry log pos n g = .ok e := by
    unfold parseLogEntry
    cases hd : declaredLength log pos guid with
    | err why => simp
    | panic => simp
    | ok r =>
      obtain ⟨n,g⟩ := r
      have hlen := (declares_of_ok hd).1.length
      dsimp only
      rw [if_neg (by omega)]
      refine ⟨fun hr => ⟨n,g,rfl,hr⟩,fun ⟨n',g',he,hr⟩ => ?_⟩
      obtain ⟨rfl,rfl⟩ := Prod.mk.inj (Outcome.ok.inj he)
      exact hr
  rw [hread]
  constructor
  · rintro ⟨n,g,hd,hr⟩
    obtain ⟨hdecl,rfl⟩ := declares_of_ok hd
    exact ⟨n,hdecl.fits,(readEntry_isOk hdecl).mp hr⟩
  · rintro ⟨n,hn,hf⟩
    have hdecl := hf.declares hp hn
    exact ⟨⟨n,hdecl.long⟩,guid,hdecl.ok,(readEntry_isOk (n := ⟨n,hdecl.long⟩) hdecl).mpr hf⟩

end accepts
end ImgVhdx
