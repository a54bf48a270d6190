import Mathlib.Data.List.Perm.Subperm
import Mathlib.Algebra.Order.BigOperators.Group.List
import Mathlib.Algebra.BigOperators.Ring.List
import ImgVhdx.Log.Apply
import ImgVhdx.Log.Walk

/-! How far a chain can make the file grow: its entries lie apart in the log, so they hold no more descriptors
than the log has room for. -/
namespace ImgVhdx
open Lib

private theorem length_readDescriptors {entry : Bytes} {n q i k base : Nat} {ds : List Descriptor}
    (h : readDescriptors entry n q i k base = .ok ds) :
    ds.length = k := by
  induction k generalizing i base ds with
  | zero =>
    cases h
    rfl
  | succ k ih =>
    rw [readDescriptors] at h
    obtain ⟨⟨d,b⟩,-,h⟩ := Outcome.bind_eq_ok.mp h
    obtain ⟨rest,hrest,h⟩ := Outcome.bind_eq_ok.mp h
    cases h
    rw [List.length_cons,ih hrest]

def LogEntry.Counted (e : LogEntry) :
    Prop := logEntryHeaderSize + e.descriptors.length * logDescriptorSize ≤ e.header.entryLength

section
variable [Crc32c] {log : Bytes} {guid : Guid} {pos : Nat}

private theorem readEntry_counted {n : { n : Nat // logSectorSize ≤ n }} (hp : pos + logSectorSize ≤ log.length)
    (hn : n.1 ≤ log.length) {e : LogEntry} (h : readEntry log pos n guid = .ok e) : e.Counted := by
  have hsector : pos + 4096 ≤ log.length := hp
  rw [readEntry_of_le hp hn] at h
  split_ifs at h
  rw [readFields_of_length (length_circSlice (by omega) hn)] at h
  split_ifs at h with hcount
  obtain ⟨ds,hds,he⟩ := Outcome.bind_eq_ok.mp h
  cases he
  unfold LogEntry.Counted
  rw [length_readDescriptors hds]
  exact Nat.not_lt.mp hcount

private theorem parseLogEntry_counted {budget b : ChecksumBudget} {e : LogEntry}
    (h : parseLogEntry log pos guid budget = (.ok e,b)) : e.Counted := by
  unfold parseLogEntry at h
  cases hd : declaredLength log pos guid with
  | err why =>
    rw [hd] at h
    cases (Prod.mk.inj h).1
  | panic => exact absurd hd declaredLength_ne_panic
  | ok x =>
    obtain ⟨n,g⟩ := x
    obtain ⟨hp,-,hn,rfl⟩ := declaredLength_eq_ok hd
    rw [hd] at h
    dsimp only at h
    split_ifs at h
    · cases (Prod.mk.inj h).1
    · exact readEntry_counted hp hn (Prod.mk.inj h).1

private theorem discoverFrom_counted {budget b : ChecksumBudget} {found : List LogEntry}
    (h : discoverFrom log guid pos budget = .ok (found,b)) :
    ∀ e ∈ found, e.Counted := by
  induction hm : log.length - pos using Nat.strong_induction_on generalizing pos budget found b with
  | _ m ih =>
    have hsize : logSectorSize = 4096 := rfl
    rw [discoverFrom] at h
    split_ifs at h with hp
    swap
    · obtain ⟨rfl,-⟩ := Prod.mk.inj (Outcome.ok.inj h)
      exact List.forall_mem_nil _
    rcases hparse : parseLogEntry log pos guid budget with ⟨e | why | _,left⟩ <;> rw [hparse] at h <;> dsimp only at h
    · obtain ⟨⟨rest,b'⟩,hrest,h⟩ := Outcome.bind_eq_ok.mp h
      obtain ⟨rfl,-⟩ := Prod.mk.inj (Outcome.ok.inj h)
      have hlong := e.long
      intro x hx
      rcases List.mem_cons.mp hx with rfl | hx
      · exact parseLogEntry_counted hparse
      · exact ih _ (by omega) hrest rfl x hx
    · exact ih _ (by omega) h rfl
    · cases h

/-- Entries that lie apart are no longer together than twice the log: the last may reach round its end. -/
private theorem Discovered.lengths_le {found : List LogEntry} (hd : Discovered log guid pos found)
    (hp : pos ≤ 2 * log.length) :
    pos + (found.map fun e => e.header.entryLength).sum ≤ 2 * log.length := by
  induction found generalizing pos with
  | nil => simpa using hp
  | cons e rest ih =>
    obtain ⟨hhead,hapart⟩ := List.pairwise_cons.mp hd.apart
    have hwithin := (hd.sound e List.mem_cons_self).within
    have hfits := (hd.sound e List.mem_cons_self).fits
    have hfrom := hd.from_pos e List.mem_cons_self
    have hrest : Discovered log guid (e.logOffsetInRegion + e.header.entryLength) rest :=
      ⟨fun x hx => hd.sound x (List.mem_cons_of_mem _ hx),hhead,hapart⟩
    have := ih hrest (by omega)
    rw [List.map_cons,List.sum_cons]
    omega

/-- The descriptors that replay applies take up no more than twice the log. -/
theorem collectReplayChain_counted {chain : List LogEntry} (h : collectReplayChain log guid = .ok chain) :
    (chain.map fun e => e.descriptors.length).sum * logDescriptorSize ≤ 2 * log.length := by
  by_cases hg : isZeroGuid guid = true
  · rw [collectReplayChain,if_pos hg] at h
    cases h
    exact Nat.zero_le _
  obtain ⟨found,checked,exhausted,hdisc,hd⟩ := discover_ok log guid
  rw [collectReplayChain_eq (by simpa using hg) hdisc] at h
  split_ifs at h
  have hchain := selectChain_eq_ok hd h
  obtain ⟨⟨found',b⟩,hfrom,hout⟩ := Outcome.bind_eq_ok.mp hdisc
  obtain ⟨rfl,-⟩ := Prod.mk.inj (Outcome.ok.inj hout)
  have hcounted := discoverFrom_counted hfrom
  have hsub : (chain.map fun e => e.header.entryLength).sum ≤ (found'.map fun e => e.header.entryLength).sum := by
    obtain ⟨sub,hperm,hsub⟩ := List.subperm_of_subset hchain.nodup hchain.mem
    rw [← (hperm.map fun e => e.header.entryLength).sum_eq]
    exact (hsub.map fun e => e.header.entryLength).sum_le_sum fun _ _ => Nat.zero_le _
  have hsum : (chain.map fun e => e.descriptors.length).sum * logDescriptorSize ≤
      (chain.map fun e => e.header.entryLength).sum := by
    rw [← List.sum_map_mul_right]
    refine List.sum_le_sum fun e he => ?_
    exact (Nat.le_add_left _ _).trans (hcounted e (hchain.mem e he))
  have := hd.lengths_le (Nat.zero_le _)
  omega

end

/-- A file grows by at most a block for every descriptor. -/
theorem allowedExtent_le (n : Nat) (chain : List LogEntry) :
    allowedExtent n chain ≤ n + (chain.map fun e => e.descriptors.length).sum * descriptorGrowth := by
  simp only [allowedExtent,saturatingAdd,saturatingMul]
  omega

end ImgVhdx
