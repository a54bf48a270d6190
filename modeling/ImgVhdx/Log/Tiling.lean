import ImgVhdx.Log.Scan

/-! A run of entries laid end to end round the region, with nothing signed beside
them: the chain is that run, wherever in the circle it starts. -/
namespace ImgVhdx
open Lib

def Tiles (len : Nat) : Nat → List LogEntry → Prop
  | _, [] => True
  | pos, e :: rest => e.logOffsetInRegion = pos ∧ Tiles len (wrap len (pos + e.header.entryLength)) rest

def totalLength (es : List LogEntry) : Nat := (es.map fun e => e.header.entryLength).sum

@[simp] theorem totalLength_nil : totalLength [] = 0 := rfl
@[simp] theorem totalLength_cons (e : LogEntry) (es : List LogEntry) :
    totalLength (e :: es) = e.header.entryLength + totalLength es := rfl

section tiles
variable {len start : Nat}

/-- Counted round from the start, the entries of a tiling do not overlap. -/
theorem Tiles.coordinates (hs : start < len) {pos : Nat} {es : List LogEntry} (ht : Tiles len pos es) (hp : pos < len)
    (hl : around len start pos + totalLength es ≤ len) :
    (∀ e ∈ es, e.logOffsetInRegion < len ∧ around len start pos ≤ around len start e.logOffsetInRegion ∧
      around len start e.logOffsetInRegion + e.header.entryLength ≤ len) ∧
    es.Pairwise fun a b =>
      around len start a.logOffsetInRegion + a.header.entryLength ≤ around len start b.logOffsetInRegion := by
  induction es generalizing pos with
  | nil => exact ⟨by simp,List.Pairwise.nil⟩
  | cons e rest ih =>
    obtain ⟨rfl,ht⟩ := ht
    rw [totalLength_cons] at hl
    cases rest with
    | nil =>
      refine ⟨?_,List.pairwise_singleton _ _⟩
      intro a ha
      obtain rfl := List.mem_singleton.mp ha
      rw [totalLength_nil] at hl
      exact ⟨hp,le_rfl,by omega⟩
    | cons b rest =>
      have hlong := b.long
      have hsize : logSectorSize = 4096 := rfl
      rw [totalLength_cons] at hl
      have hnext := around_wrap (k := e.header.entryLength) hs hp (by omega)
      obtain ⟨hmem,hpair⟩ := ih ht (wrap_lt (by omega)) (by rw [hnext,totalLength_cons]; omega)
      rw [hnext] at hmem
      refine ⟨?_,List.pairwise_cons.mpr ⟨fun a ha => (hmem a ha).2.1,hpair⟩⟩
      intro a ha
      rcases List.mem_cons.mp ha with rfl | ha
      · exact ⟨hp,le_rfl,by omega⟩
      · obtain ⟨h1,h2,h3⟩ := hmem a ha
        exact ⟨h1,by omega,h3⟩

/-- An offset lies inside an entry of the tiling or past the last. -/
theorem Tiles.cover (hs : start < len) {pos : Nat} {es : List LogEntry} (ht : Tiles len pos es) (hp : pos < len)
    (hl : around len start pos + totalLength es ≤ len) {x : Nat} (hx : around len start pos ≤ x) :
    (∃ e ∈ es, around len start e.logOffsetInRegion ≤ x ∧ x < around len start e.logOffsetInRegion +
      e.header.entryLength) ∨
    around len start pos + totalLength es ≤ x := by
  induction es generalizing pos with
  | nil => exact .inr (by simpa using hx)
  | cons e rest ih =>
    obtain ⟨rfl,ht⟩ := ht
    rw [totalLength_cons] at hl ⊢
    rcases Nat.lt_or_ge x (around len start e.logOffsetInRegion + e.header.entryLength) with hin | hout
    · exact .inl ⟨e,List.mem_cons_self,hx,hin⟩
    · cases rest with
      | nil => exact .inr (by rw [totalLength_nil]; omega)
      | cons b rest =>
        have hlong := b.long
        have hsize : logSectorSize = 4096 := rfl
        rw [totalLength_cons] at hl
        have hnext := around_wrap (k := e.header.entryLength) hs hp (by omega)
        rcases ih ht (wrap_lt (by omega)) (by rw [hnext,totalLength_cons]; omega) (by omega) with ⟨a,ha,hin⟩ | hpast
        · exact .inl ⟨a,List.mem_cons_of_mem _ ha,hin⟩
        · exact .inr (by rw [hnext] at hpast; omega)

/-- Entries that do not overlap round the circle do not overlap in the region either. -/
theorem Tiles.apart (hs : start < len) {es : List LogEntry} (ht : Tiles len start es) (hl : totalLength es ≤ len) :
    ∀ a ∈ es, ∀ b ∈ es, a.logOffsetInRegion < b.logOffsetInRegion →
      a.logOffsetInRegion + a.header.entryLength ≤ b.logOffsetInRegion := by
  obtain ⟨hmem,hpair⟩ := ht.coordinates hs hs (by rw [around_self]; omega)
  let Apart := fun a b : LogEntry =>
    around len start a.logOffsetInRegion + a.header.entryLength ≤ around len start b.logOffsetInRegion ∨
    around len start b.logOffsetInRegion + b.header.entryLength ≤ around len start a.logOffsetInRegion
  have : Std.Symm Apart := ⟨fun _ _ h => h.symm⟩
  have hall : es.Pairwise Apart := hpair.imp fun h => .inl h
  intro a ha b hb hlt
  have hne : a ≠ b := by rintro rfl; omega
  have hab : Apart a b := hall.forall ha hb hne
  obtain ⟨ha1,-,ha3⟩ := hmem a ha
  obtain ⟨hb1,-,hb3⟩ := hmem b hb
  have hla := a.long
  have hlb := b.long
  have hsize : logSectorSize = 4096 := rfl
  rcases hab with h | h <;> (unfold around at *; split_ifs at * <;> omega)

theorem Tiles.aligned (hlen : len % logSectorSize = 0) {pos : Nat} {es : List LogEntry} (ht : Tiles len pos es)
    (hp : pos % logSectorSize = 0) (he : ∀ e ∈ es, e.header.entryLength % logSectorSize = 0) :
    ∀ e ∈ es, e.logOffsetInRegion % logSectorSize = 0 := by
  induction es generalizing pos with
  | nil => simp
  | cons b rest ih =>
    obtain ⟨rfl,ht⟩ := ht
    have hb := he b (by simp)
    intro e hmem
    rcases List.mem_cons.mp hmem with rfl | hmem
    · exact hp
    · refine ih ht ?_ (fun a ha => he a (List.mem_cons_of_mem _ ha)) e hmem
      simp only [show logSectorSize = 4096 from rfl] at *
      unfold wrap
      split_ifs <;> omega

end tiles

section scan
variable [Crc32c] {log : Bytes} {guid : Guid} {es : List LogEntry}

/-- Each entry parses where it lies, none starts inside another, and every other slot is unsigned. -/
structure Slots (log : Bytes) (guid : Guid) (es : List LogEntry) : Prop where
  aligned : ∀ e ∈ es, e.logOffsetInRegion % logSectorSize = 0
  parses : ∀ e ∈ es, declaredLength log e.logOffsetInRegion guid = .ok (⟨e.header.entryLength,e.long⟩,guid) ∧
    readEntry log e.logOffsetInRegion ⟨e.header.entryLength,e.long⟩ guid = .ok e
  apart : ∀ a ∈ es, ∀ b ∈ es, a.logOffsetInRegion < b.logOffsetInRegion →
    a.logOffsetInRegion + a.header.entryLength ≤ b.logOffsetInRegion
  unsigned : ∀ pos < log.length, pos % logSectorSize = 0 → (∀ e ∈ es, e.logOffsetInRegion ≠ pos) →
    slice log pos 4 ≠ logEntrySignature

/-- The scan from any slot finds exactly the entries from there on. -/
theorem Slots.scan (h : Slots log guid es) (pos : Nat) (hm : pos % logSectorSize = 0) :
    ∃ found, Scan log guid pos found ∧ ∀ e, e ∈ found ↔ e ∈ es ∧ pos ≤ e.logOffsetInRegion := by
  induction hk : log.length - pos using Nat.strong_induction_on generalizing pos with
  | _ k ih =>
    have hsize : logSectorSize = 4096 := rfl
    rcases Nat.lt_or_ge log.length (pos + logSectorSize) with hp | hp
    · refine ⟨[],Scan.done hp,fun e => ⟨by simp,fun he => ?_⟩⟩
      have := (declaredLength_eq_ok (h.parses e he.1).1).1
      omega
    · by_cases hstart : ∃ e ∈ es, e.logOffsetInRegion = pos
      · obtain ⟨e,he,rfl⟩ := hstart
        obtain ⟨hd,hr⟩ := h.parses e he
        have hw := (declaredLength_eq_ok hd).2.1
        have hlong := e.long
        dsimp only at hw
        obtain ⟨found,hf,hmem⟩ := ih (log.length - (e.logOffsetInRegion + e.header.entryLength)) (by omega)
          (e.logOffsetInRegion + e.header.entryLength) (by simp only [hsize] at hm hw ⊢; omega) rfl
        refine ⟨e :: found,Scan.hit hd hr hf,fun a => ?_⟩
        rw [List.mem_cons,hmem]
        constructor
        · rintro (rfl | ⟨ha,ho⟩)
          · exact ⟨he,le_rfl⟩
          · exact ⟨ha,by omega⟩
        · rintro ⟨ha,ho⟩
          rcases Nat.lt_or_eq_of_le ho with hlt | heq
          · exact .inr ⟨ha,h.apart e he a ha hlt⟩
          · obtain ⟨hd',hr'⟩ := h.parses a ha
            rw [← heq] at hd' hr'
            have hn := Prod.mk.inj (Outcome.ok.inj (hd.symm.trans hd'))
            rw [← hn.1,hr] at hr'
            exact .inl (Outcome.ok.inj hr').symm
      · have hno : ∀ e ∈ es, e.logOffsetInRegion ≠ pos := fun e he ho => hstart ⟨e,he,ho⟩
        obtain ⟨found,hf,hmem⟩ := ih (log.length - (pos + logSectorSize)) (by omega) (pos + logSectorSize)
          (by simp only [hsize] at hm ⊢; omega) rfl
        refine ⟨found,Scan.miss (declaredLength_of_unsigned (h.unsigned pos (by omega) hm hno)) hf,fun a => ?_⟩
        rw [hmem]
        constructor
        · rintro ⟨ha,ho⟩
          exact ⟨ha,by omega⟩
        · rintro ⟨ha,ho⟩
          have hal := h.aligned a ha
          have hne := hno a ha
          exact ⟨ha,by simp only [hsize] at hm hal ⊢; omega⟩

theorem Slots.sound (h : Slots log guid es) {e : LogEntry} (he : e ∈ es) : e.Sound log guid := by
  obtain ⟨hd,hr⟩ := h.parses e he
  obtain ⟨hp,hw,hn,-⟩ := declaredLength_eq_ok hd
  exact (readEntry_eq_ok hp hn hw hr).2.2

/-- Discovery reports the entries of the slots, and no others. -/
theorem Slots.mem_discover (h : Slots log guid es) (hl : log.length < 2^63) {found : List LogEntry} {checked : Nat}
    {exhausted : Bool} (hd : discover log guid = .ok (found,checked,exhausted)) {e : LogEntry} :
    e ∈ found ↔ e ∈ es := by
  obtain ⟨found',hscan,hmem⟩ := h.scan 0 rfl
  obtain ⟨rfl,-⟩ := Prod.mk.inj (Outcome.ok.inj ((hscan.discover hl).symm.trans hd))
  exact (hmem e).trans ⟨And.left,fun he => ⟨he,Nat.zero_le _⟩⟩

/-- Entries that each follow the one before, the newest naming the first's offset as
its tail, are the chain of a region with nothing else signed in it. -/
theorem Slots.collect (h : Slots log guid es) (hl : log.length < 2^63) (hg : isZeroGuid guid = false)
    (hlinked : es.IsChain (Follows log.length)) {first last : LogEntry} (hfirst : first ∈ es.head?)
    (hlast : last ∈ es.getLast?) (htail : last.header.tail = first.logOffsetInRegion) :
    collectReplayChain log guid = .ok es := by
  obtain ⟨found,hscan,hmem⟩ := h.scan 0 rfl
  have hmem : ∀ e, e ∈ found ↔ e ∈ es := fun e => (hmem e).trans ⟨And.left,fun he => ⟨he,Nat.zero_le _⟩⟩
  have hd := hscan.discovered hl
  have hne : es ≠ [] := by rintro rfl; simp at hfirst
  have hlmem : last ∈ es := List.mem_of_mem_getLast? hlast
  -- sequence numbers rise along the run, so its last entry is the newest there is
  have hnewest : ∀ e ∈ es, e = last ∨ e.header.sequenceNumber < last.header.sequenceNumber := by
    have hrise : es.Pairwise fun a b => a.header.sequenceNumber < b.header.sequenceNumber := by
      have : IsTrans LogEntry fun a b => a.header.sequenceNumber < b.header.sequenceNumber := ⟨fun _ _ _ => lt_trans⟩
      exact List.isChain_iff_pairwise.mp (hlinked.imp fun a b hab => by have := hab.2; omega)
    obtain ⟨init,rfl⟩ : ∃ init, es = init ++ [last] := by
      refine ⟨es.dropLast,?_⟩
      rw [← List.dropLast_append_getLast? last hlast]
      simp
    intro e he
    rcases List.mem_append.mp he with he | he
    · exact .inr ((List.pairwise_append.mp hrise).2.2 e he last (by simp))
    · exact .inl (List.mem_singleton.mp he)
  have hhead : IsHead found last := by
    refine ⟨(hmem _).mpr hlmem,fun e he => ?_,fun e he hs => ?_⟩
    · rcases hnewest e ((hmem e).mp he) with rfl | hlt
      · exact le_rfl
      · exact hlt.le
    · rcases hnewest e ((hmem e).mp he) with rfl | hlt
      · exact le_rfl
      · omega
  have hrun : IsRun log.length found last.header.tail es := by
    refine ⟨fun e he => (hmem e).mpr he,fun f hf => ?_,hlinked,fun l hll e he hfol => ?_⟩
    · rw [htail]
      exact congrArg _ (Option.some.inj (hf.symm.trans hfirst))
    · obtain rfl : l = last := Option.some.inj (hll.symm.trans hlast)
      rcases hnewest e ((hmem e).mp he) with rfl | hlt
      · have := hfol.2
        omega
      · have := hfol.2
        omega
  rw [hscan.collect hl hg]
  exact selectChain_of_isRun hd hhead hrun hne

/-- The same from a tiling: the links follow from where the entries lie. -/
theorem Tiles.linked (hs : ∀ e ∈ es, e.Sound log guid) {pos : Nat} (ht : Tiles log.length pos es)
    (hseq : es.IsChain fun a b => b.header.sequenceNumber = a.header.sequenceNumber + 1) :
    es.IsChain (Follows log.length) := by
  induction es generalizing pos with
  | nil => exact List.IsChain.nil
  | cons e rest ih =>
    obtain ⟨rfl,ht⟩ := ht
    obtain ⟨hfirst,hrest⟩ := List.isChain_cons.mp hseq
    refine List.isChain_cons.mpr ⟨fun b hb => ⟨?_,hfirst b hb⟩,
      ih (fun a ha => hs a (List.mem_cons_of_mem _ ha)) ht hrest⟩
    cases rest with
    | nil => simp at hb
    | cons c rest =>
      obtain rfl : c = b := by simpa using hb
      rw [← wrap_eq_mod (hs e (by simp)).end_lt]
      exact ht.1

end scan
end ImgVhdx
