import Mathlib.Algebra.Ring.Nat
import Mathlib.Data.List.Forall2
import Mathlib.Tactic.Common

/-! Machines that are asked one thing after the other, and when the answers of one are those of another. -/
namespace ImgVhdx.Lib
variable {Q σ τ α β : Type}

def answers (serve : Q → σ → α × σ) : List Q → σ → List α
  | [], _ => []
  | q :: qs, s => (serve q s).1 :: answers serve qs (serve q s).2

@[simp] theorem answers_nil {serve : Q → σ → α × σ} {s : σ} : answers serve [] s = [] := rfl

@[simp] theorem answers_cons {serve : Q → σ → α × σ} {q : Q} {qs : List Q} {s : σ} :
    answers serve (q :: qs) s = (serve q s).1 :: answers serve qs (serve q s).2 := rfl

/-- Where each question keeps two machines together at its cost, they answer alike whatever can be paid for. -/
theorem answers_agree {f : Q → σ → α × σ} {g : Q → τ → β × τ} {Agrees : α → β → Prop} {cost : Q → Nat}
    {Together : Nat → σ → τ → Prop}
    (hstep : ∀ q n s t, Together (cost q + n) s t → Agrees (f q s).1 (g q t).1 ∧ Together n (f q s).2 (g q t).2)
    {qs : List Q} {s : σ} {t : τ} (h : Together (qs.map cost).sum s t) :
    List.Forall₂ Agrees (answers f qs s) (answers g qs t) := by
  induction qs generalizing s t with
  | nil => exact .nil
  | cons q qs ih =>
    rw [List.map_cons,List.sum_cons] at h
    obtain ⟨hanswer,hnext⟩ := hstep q _ s t h
    exact .cons hanswer (ih hnext)

end ImgVhdx.Lib
