import Mathlib.Data.List.Chain
import ImgVhdx.Log.Entry

/-! The active chain of a log region: discovery of every entry in it, and the
walk from where the newest one says its sequence began. -/
namespace ImgVhdx
open Lib

def discoveryChecksumPasses : Nat := 4

def isZeroGuid (g : Guid) : Bool := g.1.all (· == 0)

def entryStartingAt (found : List LogEntry) (offset : Nat) : Option LogEntry :=
  found.find? fun e => e.logOffsetInRegion = offset

/-- Pass 2: the greatest sequence number, and the first entry that carries it. -/
def headOf (first : LogEntry) (rest : List LogEntry) : LogEntry :=
  rest.foldl (fun head entry =>
    if entry.header.sequenceNumber > head.header.sequenceNumber then entry else head) first

/-- Pass 4: entries end to end, each carrying the next sequence number. -/
def walk (len : Nat) (found : List LogEntry) (pos : Nat) (expected : Option Nat) : List LogEntry :=
  match entryStartingAt found pos with
  | none => []
  | some entry =>
    if expected.any fun wanted => entry.header.sequenceNumber != wanted then []
    else
      let pos := wrap len (pos + entry.header.entryLength)
      match _h : checkedAdd entry.header.sequenceNumber 1 with
      | none => [entry]
      | some n => entry :: walk len found pos (some n)
termination_by expected.elim (2^64) fun wanted => 2^64 - wanted
decreasing_by
  rename_i hseq
  obtain ⟨hlt,rfl⟩ := checkedAdd_eq_some.mp _h
  cases expected with
  | none => simp only [Option.elim]; omega
  | some w =>
    have hw : entry.header.sequenceNumber = w := by simpa using hseq
    simp only [Option.elim]
    omega

def selectChain (len : Nat) : List LogEntry → Outcome Error (List LogEntry)
  | [] => .ok []
  | first :: rest =>
    match entryStartingAt (first :: rest) (headOf first rest).header.tail with
    | none => .err (.logUnassembled ("the head entry's tail names no entry in the log region, so where " ++
        "its sequence began is unknowable"))
    | some start => .ok (walk len (first :: rest) start.logOffsetInRegion none)

section discover
variable [Crc32c] (log : Bytes) (guid : Guid)

def discoverFrom (pos : Nat) (budget : ChecksumBudget) : Outcome Error (List LogEntry × ChecksumBudget) :=
  if pos + logSectorSize ≤ log.length then
    match parseLogEntry log pos guid budget with
    | (.ok entry,budget) => do
      let (found,budget) ← discoverFrom (pos + entry.header.entryLength) budget
      return (entry :: found,budget)
    | (.err _,budget) => discoverFrom (pos + logSectorSize) budget
    | (.panic,_) => .panic
  else .ok ([],budget)
termination_by log.length - pos
decreasing_by
  · have h := entry.long
    have : logSectorSize = 4096 := rfl
    omega
  · have : logSectorSize = 4096 := rfl
    omega

/-- What is there, how many bytes were checksummed finding it, and whether the budget ran out. -/
def discover : Outcome Error (List LogEntry × Nat × Bool) := do
  let allowance := saturatingMul log.length discoveryChecksumPasses
  let (found,budget) ← discoverFrom log guid 0 { left := allowance, exhausted := false }
  return (found,allowance - budget.left,budget.exhausted)

/-- A region whose slots were not all examined. -/
def budgetExhausted : Error :=
  .corrupt ("the log region declares more entry bytes than discovery will checksum, so " ++
    "entries in it may not have been examined")

def collectReplayChain : Outcome Error (List LogEntry) := do
  if isZeroGuid guid then return []
  let (found,_,exhausted) ← discover log guid
  Outcome.rejectIf exhausted budgetExhausted
  selectChain log.length found

end discover

def Follows (len : Nat) (a b : LogEntry) : Prop :=
  b.logOffsetInRegion = (a.logOffsetInRegion + a.header.entryLength) % len ∧
  b.header.sequenceNumber = a.header.sequenceNumber + 1

instance (len : Nat) (a b : LogEntry) : Decidable (Follows len a b) := inferInstanceAs (Decidable (_ ∧ _))

/-- The found entry with the greatest sequence number, at the lowest offset on a tie. -/
structure IsHead (found : List LogEntry) (head : LogEntry) : Prop where
  mem : head ∈ found
  newest : ∀ e ∈ found, e.header.sequenceNumber ≤ head.header.sequenceNumber
  lowest : ∀ e ∈ found, e.header.sequenceNumber = head.header.sequenceNumber →
    head.logOffsetInRegion ≤ e.logOffsetInRegion

/-- Discovery reports sound entries in ascending order, none starting inside another. -/
structure Discovered [Crc32c] (log : Bytes) (guid : Guid) (pos : Nat) (found : List LogEntry) : Prop where
  sound : ∀ e ∈ found, e.Sound log guid
  from_pos : ∀ e ∈ found, pos ≤ e.logOffsetInRegion
  apart : found.Pairwise fun a b => a.logOffsetInRegion + a.header.entryLength ≤ b.logOffsetInRegion

section discovered
variable [Crc32c] {log : Bytes} {guid : Guid}

/-- One probe: it never panics, and what it accepts is sound and stands at the slot. -/
private theorem parseLogEntry_cases (pos : Nat) (budget : ChecksumBudget) :
    (∃ why b, parseLogEntry log pos guid budget = (.err why,b)) ∨
    (∃ e b, parseLogEntry log pos guid budget = (.ok e,b) ∧ e.logOffsetInRegion = pos ∧ e.Sound log guid) := by
  unfold parseLogEntry
  cases hd : declaredLength log pos guid with
  | err why => exact .inl ⟨why,budget,rfl⟩
  | panic => exact absurd hd declaredLength_ne_panic
  | ok r =>
    obtain ⟨n,g⟩ := r
    obtain ⟨hp,hw,hn,rfl⟩ := declaredLength_eq_ok hd
    dsimp only
    split_ifs with hb
    · exact .inl ⟨_,_,rfl⟩
    · cases hr : readEntry log pos n g with
      | err why => exact .inl ⟨_,_,rfl⟩
      | panic => exact absurd hr (readEntry_ne_panic hp hn)
      | ok e =>
        obtain ⟨ho,hl,hs⟩ := readEntry_eq_ok hp hn hw hr
        exact .inr ⟨e,_,rfl,ho,hs⟩

theorem discoverFrom_ok (pos : Nat) (budget : ChecksumBudget) :
    ∃ found b, discoverFrom log guid pos budget = .ok (found,b) ∧ Discovered log guid pos found := by
  induction hm : log.length - pos using Nat.strong_induction_on generalizing pos budget with
  | _ m ih =>
    have hsize : logSectorSize = 4096 := rfl
    rw [discoverFrom]
    by_cases hp : pos + logSectorSize ≤ log.length
    · rw [if_pos hp]
      rcases parseLogEntry_cases pos budget with ⟨why,b,h⟩ | ⟨e,b,h,ho,hs⟩
      · rw [h]
        obtain ⟨found,b',hf,hd⟩ := ih (log.length - (pos + logSectorSize)) (by omega) (pos + logSectorSize) b rfl
        exact ⟨found,b',hf,hd.sound,fun e he => (Nat.le_add_right _ _).trans (hd.from_pos e he),hd.apart⟩
      · rw [h]
        have hlong := e.long
        obtain ⟨found,b',hf,hd⟩ := ih (log.length - (pos + e.header.entryLength)) (by omega)
          (pos + e.header.entryLength) b rfl
        dsimp only
        rw [hf]
        refine ⟨e :: found,b',rfl,?_,?_,?_⟩
        · intro a ha
          rcases List.mem_cons.mp ha with rfl | ha
          · exact hs
          · exact hd.sound a ha
        · intro a ha
          rcases List.mem_cons.mp ha with rfl | ha
          · exact ho.ge
          · exact (Nat.le_add_right _ _).trans (hd.from_pos a ha)
        · exact List.pairwise_cons.mpr ⟨fun a ha => ho ▸ hd.from_pos a ha,hd.apart⟩
    · rw [if_neg hp]
      exact ⟨[],budget,rfl,by simp,by simp,List.Pairwise.nil⟩

variable (log guid) in
/-- Discovery always finishes, whatever the region holds. -/
theorem discover_ok : ∃ found checked exhausted,
    discover log guid = .ok (found,checked,exhausted) ∧ Discovered log guid 0 found := by
  obtain ⟨found,b,h,hd⟩ := discoverFrom_ok 0
    { left := saturatingMul log.length discoveryChecksumPasses, exhausted := false }
  refine ⟨found,saturatingMul log.length discoveryChecksumPasses - b.left,b.exhausted,?_,hd⟩
  rw [discover]
  dsimp only
  rw [h]
  rfl

/-- No two found entries start at one offset. -/
theorem Discovered.eq_of_offset {pos : Nat} {found : List LogEntry} (hd : Discovered log guid pos found)
    {a b : LogEntry} (ha : a ∈ found) (hb : b ∈ found) (h : a.logOffsetInRegion = b.logOffsetInRegion) : a = b := by
  by_contra hne
  have hsize : logSectorSize = 4096 := rfl
  have hla := a.long
  have hlb := b.long
  have hsym : found.Pairwise fun x y => x.logOffsetInRegion ≠ y.logOffsetInRegion :=
    hd.apart.imp fun {x y} hxy hx => by have := x.long; omega
  have : Std.Symm fun x y : LogEntry => x.logOffsetInRegion ≠ y.logOffsetInRegion := ⟨fun _ _ hxy => hxy.symm⟩
  exact hsym.forall ha hb hne h

theorem Discovered.startingAt {pos : Nat} {found : List LogEntry} (hd : Discovered log guid pos found)
    {a : LogEntry} (ha : a ∈ found) : entryStartingAt found a.logOffsetInRegion = some a := by
  cases h : entryStartingAt found a.logOffsetInRegion with
  | none =>
    have := List.find?_eq_none.mp h a ha
    simp at this
  | some b =>
    have hb := List.find?_some h
    rw [hd.eq_of_offset (List.mem_of_find?_eq_some h) ha (by simpa using hb)]

end discovered

theorem entryStartingAt_eq_some {found : List LogEntry} {offset : Nat} {e : LogEntry}
    (h : entryStartingAt found offset = some e) : e ∈ found ∧ e.logOffsetInRegion = offset :=
  ⟨List.mem_of_find?_eq_some h,by simpa using List.find?_some h⟩

theorem entryStartingAt_eq_none {found : List LogEntry} {offset : Nat} :
    entryStartingAt found offset = none ↔ ∀ e ∈ found, e.logOffsetInRegion ≠ offset := by
  simp [entryStartingAt]

end ImgVhdx
