import ImgVhdx.Log.Chain

/-! What chain selection returns: the linked run of found entries from the
head's tail on, and nothing past its first break. -/
namespace ImgVhdx
open Lib

/-- A run of found entries, end to end, that no found entry continues. -/
structure IsRun (len : Nat) (found : List LogEntry) (pos : Nat) (run : List LogEntry) : Prop where
  sub : ∀ e ∈ run, e ∈ found
  starts : ∀ first ∈ run.head?, first.logOffsetInRegion = pos
  linked : run.IsChain (Follows len)
  maximal : ∀ last ∈ run.getLast?, ∀ e ∈ found, ¬ Follows len last e

theorem IsRun.cons {len pos : Nat} {found run : List LogEntry} {a : LogEntry} (ha : a ∈ found)
    (ho : a.logOffsetInRegion = pos) (hr : IsRun len found ((a.logOffsetInRegion + a.header.entryLength) % len) run)
    (hseq : ∀ b ∈ run.head?, b.header.sequenceNumber = a.header.sequenceNumber + 1)
    (hne : run = [] → ∀ e ∈ found, ¬ Follows len a e) : IsRun len found pos (a :: run) where
  sub := by
    intro e he
    rcases List.mem_cons.mp he with rfl | he
    · exact ha
    · exact hr.sub e he
  starts := by simp [ho]
  linked := List.isChain_cons.mpr ⟨fun b hb => ⟨hr.starts b hb,hseq b hb⟩,hr.linked⟩
  maximal := by
    cases run with
    | nil => simpa using hne rfl
    | cons b rest => simpa using hr.maximal

/-- Sequence numbers rise along a run, so it visits no entry twice. -/
private theorem nodup_of_linked {len : Nat} {run : List LogEntry} (h : run.IsChain (Follows len)) : run.Nodup := by
  have hlt : run.IsChain fun a b => a.header.sequenceNumber < b.header.sequenceNumber :=
    h.imp fun a b hab => by have := hab.2; omega
  have : Std.Irrefl fun a b : LogEntry => a.header.sequenceNumber < b.header.sequenceNumber := ⟨fun a => lt_irrefl _⟩
  have : IsTrans LogEntry fun a b => a.header.sequenceNumber < b.header.sequenceNumber := ⟨fun _ _ _ => lt_trans⟩
  exact (List.isChain_iff_pairwise.mp hlt).imp fun hab => by rintro rfl; exact lt_irrefl _ hab

section walk
variable [Crc32c] {log : Bytes} {guid : Guid} {found : List LogEntry}

theorem LogEntry.Sound.end_lt {e : LogEntry} (h : e.Sound log guid) :
    e.logOffsetInRegion + e.header.entryLength < 2 * log.length := by
  have hw := h.within
  have hf := h.fits
  have : logSectorSize = 4096 := rfl
  omega

/-- The walk is the maximal run from `pos`; it is empty only where nothing fits. -/
theorem walk_isRun (hd : Discovered log guid 0 found) (pos : Nat) (expected : Option Nat) :
    IsRun log.length found pos (walk log.length found pos expected) ∧
    (∀ first ∈ (walk log.length found pos expected).head?, ∀ w ∈ expected, first.header.sequenceNumber = w) ∧
    (walk log.length found pos expected = [] → ∀ e ∈ found, e.logOffsetInRegion = pos →
      ∃ w ∈ expected, e.header.sequenceNumber ≠ w) := by
  fun_induction walk log.length found pos expected with
  | case1 pos expected hnone =>
    refine ⟨⟨by simp,by simp,List.IsChain.nil,by simp⟩,by simp,fun _ e he ho => ?_⟩
    exact absurd ho (entryStartingAt_eq_none.mp hnone e he)
  | case2 pos expected entry hsome hseq =>
    refine ⟨⟨by simp,by simp,List.IsChain.nil,by simp⟩,by simp,fun _ e he ho => ?_⟩
    obtain ⟨hmem,hoff⟩ := entryStartingAt_eq_some hsome
    obtain rfl := hd.eq_of_offset he hmem (ho.trans hoff.symm)
    obtain ⟨w,rfl⟩ : ∃ w, expected = some w := by cases expected <;> simp_all
    exact ⟨w,rfl,by simpa using hseq⟩
  | case3 pos expected entry hsome hseq hlast =>
    obtain ⟨hmem,hoff⟩ := entryStartingAt_eq_some hsome
    refine ⟨?_,?_,by simp⟩
    · refine IsRun.cons hmem hoff ⟨by simp,by simp,List.IsChain.nil,by simp⟩ (by simp) fun _ e he hf => ?_
      -- no found entry has a sequence number past the last 64-bit one
      have hw := (hd.sound e he).word
      have hn : ¬ entry.header.sequenceNumber + 1 < 2^64 := by
        intro h
        rw [checkedAdd_of_lt h] at hlast
        cases hlast
      have := hf.2
      omega
    · intro first hfirst w hw
      obtain rfl : entry = first := by simpa using hfirst
      obtain rfl : expected = some w := hw
      simpa using hseq
  | case4 pos expected entry hsome hseq next n hnext ih =>
    obtain ⟨hrun,hfirst,hempty⟩ := ih
    obtain ⟨hmem,hoff⟩ := entryStartingAt_eq_some hsome
    obtain ⟨-,rfl⟩ := checkedAdd_eq_some.mp hnext
    have hend := (hd.sound entry hmem).end_lt
    have hpos : next = (entry.logOffsetInRegion + entry.header.entryLength) % log.length := by
      rw [← wrap_eq_mod hend,hoff]
    refine ⟨?_,?_,by simp⟩
    · refine IsRun.cons hmem hoff (hpos ▸ hrun) (fun b hb => hfirst b hb _ rfl) fun hnil e he hf => ?_
      obtain ⟨w,hw,hne⟩ := hempty hnil e he (hf.1.trans hpos.symm)
      cases hw
      exact hne hf.2
    · intro first hf w hw
      obtain rfl : entry = first := by simpa using hf
      obtain rfl : expected = some w := hw
      simpa using hseq

/-- Only one run starts at an offset: each entry determines the next. -/
theorem IsRun.eq_of_head (hd : Discovered log guid 0 found) {p : Nat} {r s : List LogEntry}
    (hr : IsRun log.length found p r) (hs : IsRun log.length found p s) (hrn : r ≠ []) (hsn : s ≠ []) : r = s := by
  induction r generalizing p s with
  | nil => exact absurd rfl hrn
  | cons a r ih =>
    obtain ⟨b,s,rfl⟩ := List.exists_cons_of_ne_nil hsn
    obtain rfl : a = b := hd.eq_of_offset (hr.sub a (by simp)) (hs.sub b (by simp))
      ((hr.starts a (by simp)).trans (hs.starts b (by simp)).symm)
    obtain ⟨hra,hrt⟩ := List.isChain_cons.mp hr.linked
    obtain ⟨hsa,hst⟩ := List.isChain_cons.mp hs.linked
    congr 1
    cases r with
    | nil =>
      cases s with
      | nil => rfl
      | cons d s => exact absurd (hsa d (by simp)) (hr.maximal a (by simp) d (hs.sub d (by simp)))
    | cons c r =>
      cases s with
      | nil => exact absurd (hra c (by simp)) (hs.maximal a (by simp) c (hr.sub c (by simp)))
      | cons d s =>
        refine ih (p := (a.logOffsetInRegion + a.header.entryLength) % log.length) ?_ ?_ (by simp) (by simp)
        · exact ⟨fun e he => hr.sub e (List.mem_cons_of_mem _ he),fun e he => (hra e he).1,hrt,
            fun l hl => hr.maximal l (by simpa using hl)⟩
        · exact ⟨fun e he => hs.sub e (List.mem_cons_of_mem _ he),fun e he => (hsa e he).1,hst,
            fun l hl => hs.maximal l (by simpa using hl)⟩

omit [Crc32c] in
private theorem headOf_spec (first : LogEntry) (rest : List LogEntry)
    (ho : (first :: rest).Pairwise fun a b => a.logOffsetInRegion ≤ b.logOffsetInRegion) :
    IsHead (first :: rest) (headOf first rest) := by
  induction rest generalizing first with
  | nil => exact ⟨by simp [headOf],by simp [headOf],by simp [headOf]⟩
  | cons b rest ih =>
    obtain ⟨hfirst,hrest⟩ := List.pairwise_cons.mp ho
    obtain ⟨hb,hrest'⟩ := List.pairwise_cons.mp hrest
    rw [headOf,List.foldl_cons]
    split_ifs with hlt
    · obtain ⟨hm,hn,hl⟩ := ih b hrest
      refine ⟨List.mem_cons_of_mem _ hm,?_,?_⟩
      · rintro e he
        rcases List.mem_cons.mp he with rfl | he
        · exact hlt.le.trans (hn b (by simp))
        · exact hn e he
      · rintro e he hs
        rcases List.mem_cons.mp he with rfl | he
        · have := hn b (by simp)
          unfold headOf at this
          omega
        · exact hl e he hs
    · obtain ⟨hm,hn,hl⟩ := ih first (List.pairwise_cons.mpr ⟨fun e he => hfirst e (List.mem_cons_of_mem _ he),hrest'⟩)
      have hn' := hn first (by simp)
      refine ⟨?_,?_,?_⟩
      · rcases List.mem_cons.mp hm with h | h
        · exact List.mem_cons.mpr (.inl h)
        · exact List.mem_cons_of_mem _ (List.mem_cons_of_mem _ h)
      · intro e he
        rcases List.mem_cons.mp he with rfl | he
        · exact hn'
        · rcases List.mem_cons.mp he with rfl | he
          · exact (not_lt.mp hlt).trans hn'
          · exact hn e (List.mem_cons_of_mem _ he)
      · intro e he hs
        rcases List.mem_cons.mp he with rfl | he
        · exact hl e (by simp) hs
        · rcases List.mem_cons.mp he with rfl | he
          · exact (hl first (by simp) (le_antisymm hn' (by unfold headOf at *; omega))).trans (hfirst e (by simp))
          · exact hl e (List.mem_cons_of_mem _ he) hs

/-- What was found has one head, and selection reads its tail. -/
theorem Discovered.selectChain_eq (hd : Discovered log guid 0 found) (hne : found ≠ []) :
    ∃ head, IsHead found head ∧ selectChain log.length found =
      match entryStartingAt found head.header.tail with
      | none => .err (.logUnassembled ("the head entry's tail names no entry in the log region, so where " ++
          "its sequence began is unknowable"))
      | some start => .ok (walk log.length found start.logOffsetInRegion none) := by
  cases found with
  | nil => exact absurd rfl hne
  | cons first rest =>
    refine ⟨headOf first rest,headOf_spec first rest (hd.apart.imp fun {a b} h => ?_),rfl⟩
    exact (Nat.le_add_right _ _).trans h

theorem Discovered.head_unique (hd : Discovered log guid 0 found) {a b : LogEntry} (ha : IsHead found a)
    (hb : IsHead found b) : a = b := by
  have hs := le_antisymm (hb.newest a ha.mem) (ha.newest b hb.mem)
  exact hd.eq_of_offset ha.mem hb.mem (le_antisymm (ha.lowest b hb.mem hs.symm) (hb.lowest a ha.mem hs))

/-- A region that was examined whole yields what selection makes of it. -/
theorem collectReplayChain_eq (hg : isZeroGuid guid = false) {checked : Nat} {exhausted : Bool}
    (h : discover log guid = .ok (found,checked,exhausted)) : collectReplayChain log guid =
      if exhausted then .err budgetExhausted else selectChain log.length found := by
  rw [collectReplayChain,if_neg (by simp [hg]),h]
  cases exhausted <;> rfl

/-- The chain a region yields, told by what discovery found in it. -/
structure IsReplayChain (log : Bytes) (guid : Guid) (found chain : List LogEntry) : Prop where
  empty : found = [] → chain = []
  nonempty : found ≠ [] → chain ≠ []
  starts : ∀ first ∈ chain.head?, ∃ head, IsHead found head ∧ first.logOffsetInRegion = head.header.tail
  linked : chain.IsChain (Follows log.length)
  mem : ∀ e ∈ chain, e ∈ found
  sound : ∀ e ∈ chain, e.Sound log guid
  nodup : chain.Nodup
  maximal : ∀ last ∈ chain.getLast?, ∀ e ∈ found, ¬ Follows log.length last e

theorem selectChain_eq_ok (hd : Discovered log guid 0 found) {chain : List LogEntry}
    (h : selectChain log.length found = .ok chain) : IsReplayChain log guid found chain := by
  rcases eq_or_ne found [] with rfl | hne
  · cases h
    exact ⟨fun _ => rfl,fun hn => absurd rfl hn,by simp,List.IsChain.nil,by simp,by simp,List.nodup_nil,by simp⟩
  · obtain ⟨head,hhead,hsel⟩ := hd.selectChain_eq hne
    rw [hsel] at h
    cases hstart : entryStartingAt found head.header.tail with
    | none => rw [hstart] at h; cases h
    | some start =>
      rw [hstart] at h
      obtain rfl := Outcome.ok.inj h
      obtain ⟨hmem,hoff⟩ := entryStartingAt_eq_some hstart
      obtain ⟨hrun,-,hempty⟩ := walk_isRun hd start.logOffsetInRegion none
      refine ⟨fun hn => absurd hn hne,fun _ hn => ?_,fun first hf => ?_,hrun.linked,hrun.sub,
        fun e he => hd.sound e (hrun.sub e he),nodup_of_linked hrun.linked,hrun.maximal⟩
      · obtain ⟨w,hw,-⟩ := hempty hn start hmem rfl
        cases hw
      · exact ⟨head,hhead,(hrun.starts first hf).trans hoff⟩

theorem selectChain_unassembled (hd : Discovered log guid 0 found) :
    (∃ what, selectChain log.length found = .err (.logUnassembled what)) ↔
      found ≠ [] ∧ ∃ head, IsHead found head ∧ ∀ e ∈ found, e.logOffsetInRegion ≠ head.header.tail := by
  rcases eq_or_ne found [] with rfl | hne
  · simp [selectChain]
  · obtain ⟨head,hhead,hsel⟩ := hd.selectChain_eq hne
    rw [hsel]
    constructor
    · rintro ⟨what,h⟩
      cases hstart : entryStartingAt found head.header.tail with
      | none => exact ⟨hne,head,hhead,entryStartingAt_eq_none.mp hstart⟩
      | some start => rw [hstart] at h; cases h
    · rintro ⟨-,head',hhead',hnone⟩
      obtain rfl := hd.head_unique hhead hhead'
      rw [entryStartingAt_eq_none.mpr hnone]
      exact ⟨_,rfl⟩

end walk
end ImgVhdx
