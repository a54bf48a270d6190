import ImgVhdx.Log.Batches

/-! When the chain is the newest run in the region: the walk starts where the newest
entry's tail says, but nothing makes it reach that entry. -/
namespace ImgVhdx
open Lib

/-- The chain's last entry names an entry of the chain as its sequence's first. -/
def NamesOwnTail (chain : List LogEntry) : Prop :=
  ∀ last ∈ chain.getLast?, ∃ e ∈ chain, e.logOffsetInRegion = last.header.tail

/-- Found entries link up without a break from the head's tail to the head itself. -/
def ReachesHead (len : Nat) (found : List LogEntry) (head : LogEntry) : Prop :=
  ∃ run : List LogEntry, (∀ e ∈ run, e ∈ found) ∧ (∀ first ∈ run.head?, first.logOffsetInRegion = head.header.tail) ∧
    run.IsChain (Follows len) ∧ run.getLast? = some head

/-- They break off before the head, after an entry whose tail lies among those linked so far. -/
def BreaksOffWhole (len : Nat) (found : List LogEntry) (head : LogEntry) : Prop :=
  ∃ run last, IsRun len found head.header.tail run ∧ run.getLast? = some last ∧ last ≠ head ∧
    ∃ e ∈ run, e.logOffsetInRegion = last.header.tail

section older
variable [Crc32c] {log : Bytes} {guid : Guid} {found : List LogEntry}

omit [Crc32c] in
/-- Nothing continues a run that has reached the head. -/
private theorem isRun_of_reachesHead {head : LogEntry} (hh : IsHead found head) {run : List LogEntry}
    (hsub : ∀ e ∈ run, e ∈ found) (hstart : ∀ first ∈ run.head?, first.logOffsetInRegion = head.header.tail)
    (hlink : run.IsChain (Follows log.length)) (hlast : run.getLast? = some head) :
    IsRun log.length found head.header.tail run := by
  refine ⟨hsub,hstart,hlink,fun last hl e he hf => ?_⟩
  obtain rfl : last = head := Option.some.inj (hl.symm.trans hlast)
  have := hh.newest e he
  have := hf.2
  omega

/-- What selection returns when the head's tail names a found entry. -/
private theorem selectChain_of_start (hd : Discovered log guid 0 found) {head start : LogEntry} (hh : IsHead found head)
    (hs : start ∈ found) (ho : start.logOffsetInRegion = head.header.tail) :
    ∃ run, IsRun log.length found head.header.tail run ∧ run ≠ [] ∧ selectChain log.length found = .ok run := by
  obtain ⟨hrun,-,hempty⟩ := walk_isRun hd head.header.tail none
  have hne : walk log.length found head.header.tail none ≠ [] := by
    intro hn
    obtain ⟨w,hw,-⟩ := hempty hn start hs ho
    cases hw
  exact ⟨_,hrun,hne,selectChain_of_isRun hd hh hrun hne⟩

private theorem selectChain_run (hd : Discovered log guid 0 found) {head : LogEntry} (hh : IsHead found head)
    {chain : List LogEntry} (hc : selectChain log.length found = .ok chain) :
    IsRun log.length found head.header.tail chain := by
  have hr := selectChain_eq_ok hd hc
  refine ⟨hr.mem,fun first hf => ?_,hr.linked,hr.maximal⟩
  obtain ⟨head',hh',ho⟩ := hr.starts first hf
  rw [hd.head_unique hh hh']
  exact ho

omit [Crc32c] in
private theorem run_last {pos : Nat} {run : List LogEntry} (hne : run ≠ []) (hr : IsRun log.length found pos run) :
    ∃ last, run.getLast? = some last ∧ last ∈ found :=
  ⟨run.getLast hne,List.getLast?_eq_some_getLast hne,hr.sub _ (List.getLast_mem hne)⟩

/-- Exactly when the chain's last entry names an entry of the chain. -/
private theorem namesOwnTail_iff (hd : Discovered log guid 0 found) {head : LogEntry} (hh : IsHead found head)
    {run : List LogEntry} (hr : IsRun log.length found head.header.tail run) (hne : run ≠ []) :
    NamesOwnTail run ↔ ReachesHead log.length found head ∨ BreaksOffWhole log.length found head := by
  obtain ⟨last,hlast,-⟩ := run_last hne hr
  obtain ⟨first,rest,rfl⟩ := List.exists_cons_of_ne_nil hne
  constructor
  · intro h
    obtain ⟨e,he,ho⟩ := h last hlast
    by_cases hl : last = head
    · exact .inl ⟨_,hr.sub,hr.starts,hr.linked,hl ▸ hlast⟩
    · exact .inr ⟨_,last,hr,hlast,hl,e,he,ho⟩
  · rintro (⟨run',hsub,hstart,hlink,hl⟩ | ⟨run',last',hr',hl',-,e,he,ho⟩) l hll
    · have hr' := isRun_of_reachesHead hh hsub hstart hlink hl
      obtain rfl := hr.eq_of_head hd hr' hne (by rintro rfl; cases hl)
      obtain rfl : l = head := Option.some.inj (hll.symm.trans hl)
      exact ⟨first,by simp,hr.starts first (by simp)⟩
    · obtain rfl := hr.eq_of_head hd hr' hne (by rintro rfl; cases hl')
      obtain rfl : l = last' := Option.some.inj (hll.symm.trans hl')
      exact ⟨e,he,ho⟩

/-- A run from the head's tail that contains the head ends in it. -/
private theorem head_mem_iff (hd : Discovered log guid 0 found) {head : LogEntry} (hh : IsHead found head)
    {run : List LogEntry} (hr : IsRun log.length found head.header.tail run) (hne : run ≠ []) :
    head ∈ run ↔ ReachesHead log.length found head := by
  constructor
  · intro hm
    obtain ⟨front,back,rfl⟩ := List.append_of_mem hm
    refine ⟨front ++ [head],fun e he => hr.sub e ?_,fun f hf => hr.starts f ?_,?_,by simp⟩
    · rcases List.mem_append.mp he with he | he
      · exact List.mem_append_left _ he
      · exact List.mem_append_right _ (by rw [List.mem_singleton.mp he]; exact List.mem_cons_self)
    · cases front with
      | nil => simpa using hf
      | cons a front => simpa using hf
    · have := hr.linked
      rw [show front ++ head :: back = (front ++ [head]) ++ back by simp] at this
      exact this.left_of_append
  · rintro ⟨run',hsub,hstart,hlink,hl⟩
    obtain rfl := hr.eq_of_head hd (isRun_of_reachesHead hh hsub hstart hlink hl) hne (by rintro rfl; cases hl)
    exact List.mem_of_mem_getLast? hl

end older

/-- Exactly when no chain is an older run's: the second equivalence is about chains that
hold the newest entry as well, so that nothing newer is erased with the region. -/
theorem collectReplayChain_complete_iff [Crc32c] (log : Bytes) (guid : Guid) (hg : isZeroGuid guid = false) :
    ∃ found checked exhausted, discover log guid = .ok (found,checked,exhausted) ∧
      ((∀ chain, collectReplayChain log guid = .ok chain → chain ≠ [] → NamesOwnTail chain) ↔
        exhausted = true ∨ ∀ head, IsHead found head → (∀ e ∈ found, e.logOffsetInRegion ≠ head.header.tail) ∨
          ReachesHead log.length found head ∨ BreaksOffWhole log.length found head) ∧
      ((∀ chain, collectReplayChain log guid = .ok chain → chain ≠ [] →
          NamesOwnTail chain ∧ ∀ head, IsHead found head → head ∈ chain) ↔
        exhausted = true ∨ ∀ head, IsHead found head → (∀ e ∈ found, e.logOffsetInRegion ≠ head.header.tail) ∨
          ReachesHead log.length found head) := by
  obtain ⟨found,checked,exhausted,h,hd⟩ := discover_ok log guid
  refine ⟨found,checked,exhausted,h,?_⟩
  rw [collectReplayChain_eq hg h]
  cases exhausted with
  | true => simp
  | false =>
    simp only [Bool.false_eq_true,if_false,false_or]
    -- both directions follow the one run that starts at the head's tail
    refine ⟨⟨fun hall head hh => ?_,fun hcond chain hc hne => ?_⟩,⟨fun hall head hh => ?_,fun hcond chain hc hne => ?_⟩⟩
    · by_cases hstart : ∀ e ∈ found, e.logOffsetInRegion ≠ head.header.tail
      · exact .inl hstart
      · push Not at hstart
        obtain ⟨start,hs,ho⟩ := hstart
        obtain ⟨run,hr,hne,hc⟩ := selectChain_of_start hd hh hs ho
        exact .inr ((namesOwnTail_iff hd hh hr hne).mp (hall run hc hne))
    · have hfound : found ≠ [] := by rintro rfl; cases hc; exact hne rfl
      obtain ⟨head,hh,-⟩ := hd.selectChain_eq hfound
      have hr := selectChain_run hd hh hc
      refine (namesOwnTail_iff hd hh hr hne).mpr ((hcond head hh).resolve_left fun hno => ?_)
      obtain ⟨first,rest,rfl⟩ := List.exists_cons_of_ne_nil hne
      exact hno first (hr.sub first (by simp)) (hr.starts first (by simp))
    · by_cases hstart : ∀ e ∈ found, e.logOffsetInRegion ≠ head.header.tail
      · exact .inl hstart
      · push Not at hstart
        obtain ⟨start,hs,ho⟩ := hstart
        obtain ⟨run,hr,hne,hc⟩ := selectChain_of_start hd hh hs ho
        exact .inr ((head_mem_iff hd hh hr hne).mp ((hall run hc hne).2 head hh))
    · have hfound : found ≠ [] := by rintro rfl; cases hc; exact hne rfl
      obtain ⟨head,hh,-⟩ := hd.selectChain_eq hfound
      have hr := selectChain_run hd hh hc
      have hreach := (hcond head hh).resolve_left fun hno => by
        obtain ⟨first,rest,rfl⟩ := List.exists_cons_of_ne_nil hne
        exact hno first (hr.sub first (by simp)) (hr.starts first (by simp))
      refine ⟨(namesOwnTail_iff hd hh hr hne).mpr (.inl hreach),fun head' hh' => ?_⟩
      rw [hd.head_unique hh' hh]
      exact (head_mem_iff hd hh hr hne).mpr hreach

/-- A log of one megabyte: an older entry, a sector of zeros, the newest entry with its
tail on the older one, and zeros to the end. -/
def olderRunRegion [Crc32c] (guid : Guid) : Bytes :=
  encodeEntry 3 4096 guid 0 0 [] ++ zeros 4096 ++ encodeEntry 10 0 guid 0 0 [] ++ zeros 1036288

section region
variable [Crc32c] {guid : Guid}

private theorem encoded (seq : UInt64) (tail : UInt32) :
    IsEncoded seq tail guid 0 0 [] (encodeEntry seq tail guid 0 0 []) := encodeEntry_isEncoded (by decide)

private theorem length_encoded (seq : UInt64) (tail : UInt32) : (encodeEntry seq tail guid 0 0 []).length = 4096 :=
  (encoded seq tail).length.trans (by decide)

private theorem length_olderRunRegion {g : Guid} : (olderRunRegion g).length = 1048576 := by
  simp [olderRunRegion,length_encoded]

private theorem slots_olderRunRegion {g : Guid} : Slots (olderRunRegion g) g
    [encodedEntry 0 3 4096 g 0 0 [],encodedEntry 8192 10 0 g 0 0 []] := by
  have hlen := length_olderRunRegion (g := g)
  have h0 : circSlice (olderRunRegion g) 0 4096 = encodeEntry 3 4096 g 0 0 [] := by
    rw [circSlice_of_le (by omega),olderRunRegion,List.append_assoc,List.append_assoc,
      slice_append_left (by rw [length_encoded]),slice_eq_self (length_encoded _ _)]
  have h2 : circSlice (olderRunRegion g) 8192 4096 = encodeEntry 10 0 g 0 0 [] := by
    rw [circSlice_of_le (by omega),olderRunRegion]
    exact slice_middle (by simp [length_encoded]) (length_encoded _ _).symm
  have hone : ∀ (off : Nat) (seq : UInt64) (tail : UInt32), off + 4096 ≤ 1048576 →
      circSlice (olderRunRegion g) off 4096 = encodeEntry seq tail g 0 0 [] →
      declaredLength (olderRunRegion g) off g = .ok (⟨encodedLength [],logSectorSize_le_encodedLength []⟩,g) ∧
      readEntry (olderRunRegion g) off ⟨encodedLength [],logSectorSize_le_encodedLength []⟩ g =
        .ok (encodedEntry off seq tail g 0 0 []) := by
    intro off seq tail ho hc
    have hp : off + logSectorSize ≤ (olderRunRegion g).length := by rw [hlen]; exact ho
    have hfit : encodedLength [] ≤ (olderRunRegion g).length := by rw [hlen]; decide
    have henc : IsEncoded seq tail g 0 0 [] (circSlice (olderRunRegion g) off (encodedLength [])) := by
      rw [show encodedLength [] = 4096 by decide,hc]
      exact encoded seq tail
    exact ⟨declaredLength_encoded hp hfit (by decide) henc,readEntry_encoded hp hfit (by decide) henc⟩
  refine ⟨?_,?_,?_,fun pos hp hm hno => ?_⟩
  · intro e he
    rcases List.mem_cons.mp he with rfl | he
    · exact show 0 % 4096 = 0 by decide
    · rw [List.mem_singleton.mp he]
      exact show 8192 % 4096 = 0 by decide
  · intro e he
    rcases List.mem_cons.mp he with rfl | he
    · exact hone 0 3 4096 (by decide) h0
    · rw [List.mem_singleton.mp he]
      exact hone 8192 10 0 (by decide) h2
  · intro a ha b hb hlt
    rcases List.mem_cons.mp ha with rfl | ha
    · rcases List.mem_cons.mp hb with rfl | hb
      · exact absurd hlt (lt_irrefl _)
      · rw [List.mem_singleton.mp hb]
        exact show 0 + encodedLength [] ≤ 8192 by decide
    · rw [List.mem_singleton.mp ha] at hlt
      rcases List.mem_cons.mp hb with rfl | hb
      · exact absurd hlt (show ¬ 8192 < 0 by decide)
      · rw [List.mem_singleton.mp hb] at hlt
        exact absurd hlt (lt_irrefl _)
  · have h4 : pos = 4096 ∨ 12288 ≤ pos := by
      have hm' : pos % 4096 = 0 := hm
      have hno0 : (0 : Nat) ≠ pos := hno (encodedEntry 0 3 4096 g 0 0 []) (by simp)
      have hno2 : (8192 : Nat) ≠ pos := hno (encodedEntry 8192 10 0 g 0 0 []) (by simp)
      omega
    have hz : slice (olderRunRegion g) pos 4 = zeros 4 := by
      have hm' : pos % 4096 = 0 := hm
      rw [hlen] at hp
      rcases h4 with rfl | h4
      · have hz : slice (olderRunRegion g) 4096 4096 = zeros 4096 := by
          rw [olderRunRegion,List.append_assoc _ _ (zeros 1036288)]
          exact slice_middle (length_encoded _ _).symm (by simp)
        rw [← Nat.add_zero 4096,← slice_slice (n := 4096) (by decide),hz,slice_zeros (by decide)]
      · rw [olderRunRegion,slice_append_right (by simp [length_encoded]; omega)]
        exact slice_zeros (by simp [length_encoded]; omega)
    rw [hz]
    simp [zeros,logEntrySignature]

/-- The region yields the older entry alone. -/
private theorem collect_olderRunRegion {g : Guid} (hg : isZeroGuid g = false) : ∃ found,
    discover (olderRunRegion g) g = .ok (found,(found.map fun e => e.header.entryLength).sum,false) ∧
    IsHead found (encodedEntry 8192 10 0 g 0 0 []) ∧
    collectReplayChain (olderRunRegion g) g = .ok [encodedEntry 0 3 4096 g 0 0 []] := by
  have hlen := length_olderRunRegion (g := g)
  obtain ⟨found,hscan,hmem⟩ := (slots_olderRunRegion (g := g)).scan 0 rfl
  have hl : (olderRunRegion g).length < 2^63 := by rw [hlen]; decide
  have hd := hscan.discovered hl
  have hmem : ∀ e, e ∈ found ↔ e = encodedEntry 0 3 4096 g 0 0 [] ∨ e = encodedEntry 8192 10 0 g 0 0 [] := fun e => by
    rw [hmem]
    simp
  have hhead : IsHead found (encodedEntry 8192 10 0 g 0 0 []) := by
    refine ⟨(hmem _).mpr (.inr rfl),fun e he => ?_,fun e he hs => ?_⟩
    · rcases (hmem e).mp he with rfl | rfl
      · exact show 3 ≤ 10 by decide
      · exact le_rfl
    · rcases (hmem e).mp he with rfl | rfl
      · exact absurd hs (show ¬ 3 = 10 by decide)
      · exact le_rfl
  have hrun : IsRun (olderRunRegion g).length found 0 [encodedEntry 0 3 4096 g 0 0 []] := by
    refine ⟨fun e he => (hmem e).mpr (.inl (List.mem_singleton.mp he)),fun f hf => ?_,List.IsChain.singleton _,
      fun l hl e he hf => ?_⟩
    · obtain rfl : encodedEntry 0 3 4096 g 0 0 [] = f := by simpa using hf
      rfl
    · obtain rfl : encodedEntry 0 3 4096 g 0 0 [] = l := by simpa using hl
      rcases (hmem e).mp he with rfl | rfl
      · exact absurd hf.2 (show ¬ 3 = 3 + 1 by decide)
      · exact absurd hf.2 (show ¬ 10 = 3 + 1 by decide)
  exact ⟨found,hscan.discover hl,hhead,(hscan.collect hl hg).trans (selectChain_of_isRun hd hhead hrun (by simp))⟩

end region

/-- The chain is the older entry, whose own tail lies outside it; the newest is left behind. -/
theorem collectReplayChain_older_run :
    letI := castagnoli
    let guid : Guid := ⟨1 :: zeros 15,by simp⟩
    ¬ ∀ chain, collectReplayChain (olderRunRegion guid) guid = .ok chain → chain ≠ [] → NamesOwnTail chain := by
  let := castagnoli
  intro guid h
  obtain ⟨found,-,-,hc⟩ := collect_olderRunRegion (g := guid) (by simp [guid,isZeroGuid])
  obtain ⟨e,he,ho⟩ := h _ hc (by simp) _ rfl
  rw [List.mem_singleton.mp he] at ho
  exact absurd ho (show ¬ 0 = 4096 by decide)

/-- There both conditions fail, as the chain is the older entry's; a region laid with three batches meets both. -/
theorem collectReplayChain_complete_iff_older_run :
    letI := castagnoli
    let guid : Guid := ⟨1 :: zeros 15,by simp⟩
    (∃ found checked exhausted, discover (olderRunRegion guid) guid = .ok (found,checked,exhausted) ∧
      ¬ (exhausted = true ∨ ∀ head, IsHead found head → (∀ e ∈ found, e.logOffsetInRegion ≠ head.header.tail) ∨
          ReachesHead (olderRunRegion guid).length found head ∨
            BreaksOffWhole (olderRunRegion guid).length found head) ∧
      ¬ (exhausted = true ∨ ∀ head, IsHead found head → (∀ e ∈ found, e.logOffsetInRegion ≠ head.header.tail) ∨
          ReachesHead (olderRunRegion guid).length found head)) ∧
    ∃ found checked exhausted, discover (threeBatchRegion guid) guid = .ok (found,checked,exhausted) ∧
      (exhausted = true ∨ ∀ head, IsHead found head → (∀ e ∈ found, e.logOffsetInRegion ≠ head.header.tail) ∨
          ReachesHead (threeBatchRegion guid).length found head ∨
            BreaksOffWhole (threeBatchRegion guid).length found head) ∧
      (exhausted = true ∨ ∀ head, IsHead found head → (∀ e ∈ found, e.logOffsetInRegion ≠ head.header.tail) ∨
          ReachesHead (threeBatchRegion guid).length found head) := by
  let := castagnoli
  intro guid
  have hg : isZeroGuid guid = false := by simp [guid,isZeroGuid]
  constructor
  · obtain ⟨found,checked,exhausted,hfound,hiff,hiff'⟩ := collectReplayChain_complete_iff (olderRunRegion guid) guid hg
    obtain ⟨-,-,-,hc⟩ := collect_olderRunRegion hg
    have hno : ¬ NamesOwnTail [encodedEntry 0 3 4096 guid 0 0 []] := fun h => by
      obtain ⟨e,he,ho⟩ := h _ rfl
      rw [List.mem_singleton.mp he] at ho
      exact absurd ho (show ¬ 0 = 4096 by decide)
    exact ⟨found,checked,exhausted,hfound,fun hcond => hno (hiff.mpr hcond _ hc (List.cons_ne_nil _ _)),
      fun hcond => hno (hiff'.mpr hcond _ hc (List.cons_ne_nil _ _)).1⟩
  · obtain ⟨found,checked,exhausted,hfound,hiff,hiff'⟩ :=
      collectReplayChain_complete_iff (threeBatchRegion guid) guid hg
    have hown : NamesOwnTail (threeEntries guid) := fun last hl =>
      ⟨_,List.mem_cons_self,(tail_batchEntries last (List.mem_of_getLast? hl)).symm⟩
    have hall : ∀ e, e ∈ found ↔ e ∈ threeEntries guid := fun e =>
      slots_threeBatchRegion.mem_discover (by rw [length_threeBatchRegion]; decide) hfound
    refine ⟨found,checked,exhausted,hfound,hiff.mp fun chain hc _ => ?_,hiff'.mp fun chain hc _ => ?_⟩
    · obtain rfl := Outcome.ok.inj ((collect_threeBatchRegion hg).symm.trans hc)
      exact hown
    · obtain rfl := Outcome.ok.inj ((collect_threeBatchRegion hg).symm.trans hc)
      exact ⟨hown,fun head hh => (hall head).mp hh.mem⟩

end ImgVhdx
