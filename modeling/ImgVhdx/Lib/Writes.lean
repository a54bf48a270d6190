import Mathlib.Tactic.Common

/-! Runs of values laid over a map one after the other: what stands where none of them reaches, and that where
one does, what was there before does not matter. -/
namespace ImgVhdx.Lib
variable {α : Type}

def lay (w : Nat × List α) (m : Nat → α) : Nat → α := fun i => if w.1 ≤ i then (w.2[i - w.1]?).getD (m i) else m i

def layAll (ws : List (Nat × List α)) (m : Nat → α) : Nat → α := ws.foldl (fun m w => lay w m) m

def Covered (ws : List (Nat × List α)) (i : Nat) : Prop := ∃ w ∈ ws, w.1 ≤ i ∧ i < w.1 + w.2.length

variable {w : Nat × List α} {ws : List (Nat × List α)} {m m' : Nat → α} {i : Nat}

@[simp] theorem layAll_nil : layAll [] m = m := rfl
@[simp] theorem layAll_cons : layAll (w :: ws) m = layAll ws (lay w m) := rfl

theorem lay_of_outside (h : i < w.1 ∨ w.1 + w.2.length ≤ i) : lay w m i = m i := by
  unfold lay
  split_ifs with hle
  · rw [List.getElem?_eq_none (by omega)]
    rfl
  · rfl

private theorem lay_inside (h : w.1 ≤ i) (hi : i < w.1 + w.2.length) : lay w m i = lay w m' i := by
  unfold lay
  rw [if_pos h,if_pos h,List.getElem?_eq_getElem (by omega)]
  rfl

private theorem covered_cons : Covered (w :: ws) i ↔ (w.1 ≤ i ∧ i < w.1 + w.2.length) ∨ Covered ws i := by
  simp [Covered]

theorem layAll_of_not_covered (h : ¬ Covered ws i) : layAll ws m i = m i := by
  induction ws generalizing m with
  | nil => rfl
  | cons w ws ih =>
    rw [covered_cons,not_or] at h
    exact (ih h.2).trans (lay_of_outside (by omega))

/-- Only the map at the position itself counts, and not even that where a run reaches. -/
private theorem layAll_congr (h : ¬ Covered ws i → m i = m' i) : layAll ws m i = layAll ws m' i := by
  induction ws generalizing m m' with
  | nil => exact h (by simp [Covered])
  | cons w ws ih =>
    refine ih fun hws => ?_
    by_cases hw : w.1 ≤ i ∧ i < w.1 + w.2.length
    · exact lay_inside hw.1 hw.2
    · have hout : i < w.1 ∨ w.1 + w.2.length ≤ i := by omega
      refine (lay_of_outside hout).trans ((h ?_).trans (lay_of_outside hout).symm)
      rw [covered_cons]
      exact not_or.mpr ⟨hw,hws⟩

/-- Laid again, over themselves or over any part of themselves, the runs leave the same map. -/
theorem layAll_again (h : ∀ i, ¬ Covered ws i → m' i = m i) : layAll ws m' = layAll ws m :=
  funext fun _ => layAll_congr (h _)

end ImgVhdx.Lib
