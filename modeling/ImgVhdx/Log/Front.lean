import ImgVhdx.Log.Replay
import ImgVhdx.Log.RoundTrip
import ImgVhdx.Log.Scan

/-! An entry written over the front of a region, its tail on itself, and whatever else the region
holds under the same GUID: when the chain is that entry alone. -/
namespace ImgVhdx
open Lib

section single
variable [Crc32c] {log : Bytes} {guid : Guid} {found : List LogEntry}

/-- The chain is one entry when the head's tail is on it and nothing continues it. -/
theorem selectChain_eq_single (hd : Discovered log guid 0 found) {e : LogEntry} :
    selectChain log.length found = .ok [e] ↔
    ∃ head, IsHead found head ∧ e ∈ found ∧ e.logOffsetInRegion = head.header.tail ∧ ∀ f ∈ found,
    ¬ Follows log.length e f := by
  constructor
  · intro h
    have hr := selectChain_eq_ok hd h
    obtain ⟨head,hh,ho⟩ := hr.starts e rfl
    exact ⟨head,hh,hr.mem e List.mem_cons_self,ho,hr.maximal e rfl⟩
  · rintro ⟨head,hh,hmem,ho,hno⟩
    refine selectChain_of_isRun hd hh ⟨fun f hf => ?_,fun f hf => ?_,List.IsChain.singleton e,fun l hl => ?_⟩ (by simp)
    · rw [List.mem_singleton.mp hf]
      exact hmem
    · obtain rfl : e = f := by simpa using hf
      exact ho
    · obtain rfl : e = l := by simpa using hl
      exact hno

omit [Crc32c] in
/-- The head is the first entry, unless a later one outranks it. -/
private theorem isHead_cons {a h : LogEntry} {rest : List LogEntry}
    (hlow : ∀ e ∈ rest, a.logOffsetInRegion < e.logOffsetInRegion) :
    IsHead (a :: rest) h ↔ h = a ∧ (∀ e ∈ rest, e.header.sequenceNumber ≤ a.header.sequenceNumber) ∨
      IsHead rest h ∧ a.header.sequenceNumber < h.header.sequenceNumber := by
  constructor
  · intro hh
    rcases List.mem_cons.mp hh.mem with rfl | hm
    · exact .inl ⟨rfl,fun e he => hh.newest e (List.mem_cons_of_mem _ he)⟩
    · refine .inr ⟨⟨hm,fun e he => hh.newest e (List.mem_cons_of_mem _ he),fun e he =>
        hh.lowest e (List.mem_cons_of_mem _ he)⟩,?_⟩
      refine Nat.lt_of_le_of_ne (hh.newest a List.mem_cons_self) fun heq => ?_
      have := hh.lowest a List.mem_cons_self heq
      have := hlow h hm
      omega
  · rintro (⟨rfl,hle⟩ | ⟨hh,hlt⟩)
    · refine ⟨List.mem_cons_self,fun e he => ?_,fun e he _ => ?_⟩
      · rcases List.mem_cons.mp he with rfl | he
        · exact le_rfl
        · exact hle e he
      · rcases List.mem_cons.mp he with rfl | he
        · exact le_rfl
        · exact (hlow e he).le
    · refine ⟨List.mem_cons_of_mem _ hh.mem,fun e he => ?_,fun e he hs => ?_⟩
      · rcases List.mem_cons.mp he with rfl | he
        · exact hlt.le
        · exact hh.newest e he
      · rcases List.mem_cons.mp he with rfl | he
        · omega
        · exact hh.lowest e he hs

end single

section front
variable [Crc32c] (log : Bytes) (guid : Guid)

/-- What discovery still finds past the two sectors of an entry at the front. -/
def leftovers : Outcome Error (List LogEntry × ChecksumBudget) :=
  discoverFrom log guid 8192 { left := saturatingMul log.length discoveryChecksumPasses - 8192, exhausted := false }

omit [Crc32c]

/-- The entries found past the front leave the one at the front to be the chain: none that outranks it has its tail
elsewhere, and none right behind it continues it. -/
def OutOfTheWay (seq : Nat) (rest : List LogEntry) : Prop :=
  (∀ h, IsHead rest h → seq < h.header.sequenceNumber → h.header.tail = 0) ∧
  ∀ f ∈ rest, f.logOffsetInRegion = 8192 → f.header.sequenceNumber ≠ seq + 1

/-- One of them outranks the entry at the front, and its tail is on one of them that records the very same write and
that nothing continues. -/
def Doubled (len : Nat) (front : LogEntry) (rest : List LogEntry) : Prop :=
  ∃ h, IsHead rest h ∧ front.header.sequenceNumber < h.header.sequenceNumber ∧ ∃ e ∈ rest,
    e.logOffsetInRegion = h.header.tail ∧
    e.descriptors.map Descriptor.write = front.descriptors.map Descriptor.write ∧ ∀ f ∈ front :: rest, ¬ Follows len e f

end front

section whole
variable [Crc32c] {log : Bytes} {guid : Guid} {q f l : UInt64} {p : PendingWrite} {rest : List LogEntry}
  {b : ChecksumBudget}

/-- Discovery reports the entry at the front, and then what it finds past it. -/
theorem discover_front (hlen : 8192 < log.length) (h64 : log.length < 2^32) (hw : encodedLength [p] = 8192)
    (henc : IsEncoded q 0 guid f l [p] (slice log 0 8192)) (hrest : leftovers log guid = .ok (rest,b)) :
    ∃ checked, discover log guid = .ok (encodedEntry 0 q 0 guid f l [p] :: rest,checked,b.exhausted) := by
  have hcirc : circSlice log 0 (encodedLength [p]) = slice log 0 8192 := by rw [hw,circSlice_of_le (by omega)]
  have hsector : logSectorSize = 4096 := rfl
  have hcirc' : IsEncoded q 0 guid f l [p] (circSlice log 0 (encodedLength [p])) := hcirc ▸ henc
  have hlt : encodedLength [p] < 2^32 := by rw [hw]; decide
  have hd := declaredLength_encoded (by omega) (by omega) hlt hcirc'
  have hr := readEntry_encoded (by omega) (by omega) hlt hcirc'
  have hbudget : 8192 ≤ saturatingMul log.length discoveryChecksumPasses := by
    unfold saturatingMul discoveryChecksumPasses
    omega
  have hscan : discoverFrom log guid 0 { left := saturatingMul log.length discoveryChecksumPasses, exhausted := false } =
      .ok (encodedEntry 0 q 0 guid f l [p] :: rest,b) := by
    rw [discoverFrom,if_pos (by omega),parseLogEntry,hd]
    dsimp only
    rw [if_neg (by omega),hr]
    dsimp only
    rw [show (encodedEntry 0 q 0 guid f l [p]).header.entryLength = 8192 from hw,hw]
    change (leftovers log guid >>= _) = _
    rw [hrest]
    rfl
  refine ⟨saturatingMul log.length discoveryChecksumPasses - b.left,?_⟩
  rw [discover]
  dsimp only
  rw [hscan]
  rfl

/-- The chain is one entry that records the write at the front just when the budget lasted and the rest is out of the
way, or one of the rest doubles it. -/
theorem collect_front_iff (hlen : 8192 < log.length) (h64 : log.length < 2^32) (hg : isZeroGuid guid = false)
    (hw : encodedLength [p] = 8192) (henc : IsEncoded q 0 guid f l [p] (slice log 0 8192))
    (hrest : leftovers log guid = .ok (rest,b)) :
    (∃ e, collectReplayChain log guid = .ok [e] ∧ e.descriptors.map Descriptor.write =
      [(p.fileOffset.toNat,p.sector.1)]) ↔
      b.exhausted = false ∧ (OutOfTheWay q.toNat rest ∨ Doubled log.length (encodedEntry 0 q 0 guid f l [p]) rest) := by
  obtain ⟨checked,hdisc⟩ := discover_front hlen h64 hw henc hrest
  obtain ⟨found,_,_,hdisc',hd⟩ := discover_ok log guid
  obtain ⟨rfl,-⟩ := Prod.mk.inj (Outcome.ok.inj (hdisc.symm.trans hdisc'))
  have hpast : ∀ e ∈ rest, 8192 ≤ e.logOffsetInRegion := by
    intro e he
    have := (List.pairwise_cons.mp hd.apart).1 e he
    rwa [show (encodedEntry 0 q 0 guid f l [p]).header.entryLength = 8192 from hw,
      show (encodedEntry 0 q 0 guid f l [p]).logOffsetInRegion = 0 from rfl,Nat.zero_add] at this
  have hlow : ∀ e ∈ rest, (encodedEntry 0 q 0 guid f l [p]).logOffsetInRegion < e.logOffsetInRegion := fun e he =>
    Nat.lt_of_lt_of_le (show 0 < 8192 by decide) (hpast e he)
  have hfollows : ∀ e, Follows log.length (encodedEntry 0 q 0 guid f l [p]) e ↔
      e.logOffsetInRegion = 8192 ∧ e.header.sequenceNumber = q.toNat + 1 := by
    intro e
    unfold Follows
    rw [show (encodedEntry 0 q 0 guid f l [p]).header.entryLength = 8192 from hw,
      show (encodedEntry 0 q 0 guid f l [p]).logOffsetInRegion = 0 from rfl,Nat.zero_add,Nat.mod_eq_of_lt hlen]
    rfl
  rw [collectReplayChain_eq hg hdisc]
  cases b.exhausted with
  | true => simp
  | false =>
    simp only [Bool.false_eq_true,if_false,true_and,selectChain_eq_single hd]
    constructor
    · rintro ⟨e,⟨head,hh,hmem,ho,hno⟩,hwrite⟩
      rcases List.mem_cons.mp hmem with rfl | hmem
      · refine .inl ⟨fun h hh' hlt => ?_,fun x hx hoff hseq => hno x (List.mem_cons_of_mem _ hx)
          ((hfollows x).mpr ⟨hoff,hseq⟩)⟩
        obtain rfl := hd.head_unique hh ((isHead_cons hlow).mpr (.inr ⟨hh',hlt⟩))
        exact ho.symm
      · refine .inr ?_
        rcases (isHead_cons hlow).mp hh with ⟨rfl,-⟩ | ⟨hh,hlt⟩
        · have := hpast e hmem
          rw [ho] at this
          exact absurd this (show ¬ 8192 ≤ 0 by decide)
        · exact ⟨head,hh,hlt,e,hmem,ho,hwrite,hno⟩
    · rintro (⟨hhead,hnext⟩ | ⟨h,hh,hlt,e,he,ho,hwrite,hno⟩)
      · obtain ⟨head,hh,-⟩ := hd.selectChain_eq (by simp)
        refine ⟨_,⟨head,hh,List.mem_cons_self,?_,fun x hx hf => ?_⟩,rfl⟩
        · rcases (isHead_cons hlow).mp hh with ⟨rfl,-⟩ | ⟨hh,hlt⟩
          · rfl
          · exact (hhead head hh hlt).symm
        · obtain ⟨hoff,hseq⟩ := (hfollows x).mp hf
          rcases List.mem_cons.mp hx with rfl | hx
          · exact absurd hoff (show (0 : Nat) ≠ 8192 by decide)
          · exact hnext x hx hoff hseq
      · exact ⟨e,⟨h,(isHead_cons hlow).mpr (.inr ⟨hh,hlt⟩),List.mem_cons_of_mem _ he,ho,hno⟩,hwrite⟩

end whole
end ImgVhdx
