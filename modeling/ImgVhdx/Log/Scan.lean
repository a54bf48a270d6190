import ImgVhdx.Log.Walk

/-! Discovery run forwards: a region whose slots are known yields exactly the
entries in them, and the budget covers it. -/
namespace ImgVhdx
open Lib

variable [Crc32c] {log : Bytes} {guid : Guid}

/-- A scan over slots that are each either ruled out by their first sector or hold an entry. -/
inductive Scan (log : Bytes) (guid : Guid) : Nat → List LogEntry → Prop
  | done {pos : Nat} (h : log.length < pos + logSectorSize) : Scan log guid pos []
  | miss {pos : Nat} {es : List LogEntry} {why : EntryReject} (h : declaredLength log pos guid = .err why)
      (rest : Scan log guid (pos + logSectorSize) es) : Scan log guid pos es
  | hit {pos : Nat} {es : List LogEntry} {e : LogEntry} {n : { n : Nat // logSectorSize ≤ n }} {g : Guid}
      (hd : declaredLength log pos guid = .ok (n,g)) (hr : readEntry log pos n g = .ok e)
      (rest : Scan log guid (pos + n) es) : Scan log guid pos (e :: es)

namespace Scan

theorem past {pos : Nat} {es : List LogEntry} (h : Scan log guid pos es) (hp : log.length < pos + logSectorSize) :
    es = [] := by
  induction h with
  | done => rfl
  | miss _ _ ih => exact ih (by omega)
  | hit hd => exact absurd (declaredLength_eq_ok hd).1 (by omega)

/-- The entries of a scan tile the region: only the last can run past its end. -/
private theorem sum_le {pos : Nat} {es : List LogEntry} (h : Scan log guid pos es) (hp : pos ≤ log.length) :
    pos + (es.map fun e => e.header.entryLength).sum ≤ 2 * log.length := by
  induction h with
  | done => simp; omega
  | @miss pos es why _ rest ih =>
    rcases Nat.lt_or_ge log.length (pos + logSectorSize) with hl | hl
    · obtain rfl := rest.past (by omega)
      simp; omega
    · have := ih hl
      omega
  | @hit pos es e n g hd hr rest ih =>
    obtain ⟨hs,hw,hn,-⟩ := declaredLength_eq_ok hd
    obtain ⟨-,hlen,-⟩ := readEntry_eq_ok hs hn hw hr
    rw [List.map_cons,List.sum_cons,hlen]
    rcases Nat.lt_or_ge log.length (pos + n) with hl | hl
    · obtain rfl := rest.past (by omega)
      simp; omega
    · have := ih hl
      omega

theorem discoverFrom {pos : Nat} {es : List LogEntry} (h : Scan log guid pos es) {budget : ChecksumBudget}
    (hb : (es.map fun e => e.header.entryLength).sum ≤ budget.left) : discoverFrom log guid pos budget =
      .ok (es,{ budget with left := budget.left - (es.map fun e => e.header.entryLength).sum }) := by
  induction h generalizing budget with
  | done h =>
    rw [ImgVhdx.discoverFrom,if_neg (by omega)]
    rfl
  | @miss pos es why hmiss rest ih =>
    rw [ImgVhdx.discoverFrom]
    split_ifs with hp
    · rw [parseLogEntry,hmiss]
      exact ih hb
    · obtain rfl := rest.past (by omega)
      rfl
  | @hit pos es e n g hd hr rest ih =>
    obtain ⟨hs,hw,hn,-⟩ := declaredLength_eq_ok hd
    obtain ⟨-,hlen,-⟩ := readEntry_eq_ok hs hn hw hr
    rw [List.map_cons,List.sum_cons,hlen] at hb ⊢
    rw [ImgVhdx.discoverFrom,if_pos hs,parseLogEntry,hd]
    dsimp only
    rw [if_neg (by omega),hr]
    dsimp only
    rw [hlen,ih (by dsimp only; omega)]
    simp [Nat.sub_sub]

/-- Four passes are more than a scan of known slots can need. -/
theorem discover {es : List LogEntry} (h : Scan log guid 0 es) (hl : log.length < 2^63) :
    discover log guid = .ok (es,(es.map fun e => e.header.entryLength).sum,false) := by
  have hsum := h.sum_le (Nat.zero_le _)
  have hb : (es.map fun e => e.header.entryLength).sum ≤ saturatingMul log.length discoveryChecksumPasses := by
    unfold saturatingMul discoveryChecksumPasses
    omega
  rw [ImgVhdx.discover]
  dsimp only
  rw [h.discoverFrom hb]
  simp only [Outcome.ok_bind,Outcome.pure_eq]
  rw [Nat.sub_sub_self hb]

theorem discovered {es : List LogEntry} (h : Scan log guid 0 es) (hl : log.length < 2^63) :
    Discovered log guid 0 es := by
  obtain ⟨found,checked,exhausted,hf,hd⟩ := discover_ok log guid
  rw [h.discover hl] at hf
  obtain ⟨rfl,-⟩ := Prod.mk.inj (Outcome.ok.inj hf)
  exact hd

theorem collect {es : List LogEntry} (h : Scan log guid 0 es) (hl : log.length < 2^63)
    (hg : isZeroGuid guid = false) : collectReplayChain log guid = selectChain log.length es := by
  rw [collectReplayChain_eq hg (h.discover hl)]
  rfl

end Scan

/-- A run from the head's tail is the chain. -/
theorem selectChain_of_isRun {found run : List LogEntry} (hd : Discovered log guid 0 found) {head : LogEntry}
    (hh : IsHead found head) (hr : IsRun log.length found head.header.tail run) (hne : run ≠ []) :
    selectChain log.length found = .ok run := by
  have hfound : found ≠ [] := List.ne_nil_of_mem hh.mem
  obtain ⟨head',hh',hsel⟩ := hd.selectChain_eq hfound
  obtain rfl := hd.head_unique hh hh'
  obtain ⟨first,rest,rfl⟩ := List.exists_cons_of_ne_nil hne
  have hoff := hr.starts first (by simp)
  have hmem := hr.sub first (by simp)
  rw [hsel,← hoff,hd.startingAt hmem]
  obtain ⟨hw,-,hempty⟩ := walk_isRun hd first.logOffsetInRegion none
  have hwne : walk log.length found first.logOffsetInRegion none ≠ [] := by
    intro hn
    obtain ⟨w,hw,-⟩ := hempty hn first hmem rfl
    cases hw
  exact congrArg Outcome.ok (hw.eq_of_head hd (hoff ▸ hr) hwne (by simp))

end ImgVhdx
