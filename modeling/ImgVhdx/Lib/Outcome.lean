import Mathlib.Algebra.Group.Nat.Defs
import Mathlib.Tactic.Common

/-! What a call that may fail or panic comes to. A returned error and a panic
are kept apart: the first is an answer, the second stops the program. -/
namespace ImgVhdx.Lib

inductive Outcome (ε α : Type) where
  | ok (a : α)
  | err (e : ε)
  | panic
  deriving DecidableEq, Repr

namespace Outcome
variable {ε ε' α β γ : Type}

protected def bind : Outcome ε α → (α → Outcome ε β) → Outcome ε β
  | .ok a, f => f a
  | .err e, _ => .err e
  | .panic, _ => .panic

instance : Monad (Outcome ε) where
  pure := .ok
  bind := Outcome.bind

def rejectIf (c : Prop) [Decidable c] (e : ε) : Outcome ε Unit := if c then .err e else .ok ()

def u64 (n : Nat) : Outcome ε Nat := if n < 2^64 then .ok n else .panic

def sub (a b : Nat) : Outcome ε Nat := if b ≤ a then .ok (a - b) else .panic

def div (a b : Nat) : Outcome ε Nat := if b = 0 then .panic else .ok (a / b)

def rem (a b : Nat) : Outcome ε Nat := if b = 0 then .panic else .ok (a % b)

/-- `Result::ok`: the value if there is one. A panic is not caught. -/
def toOption : Outcome ε α → Outcome ε' (Option α)
  | .ok a => .ok (some a)
  | .err _ => .ok none
  | .panic => .panic

def value : Outcome ε α → Option α
  | .ok a => some a
  | _ => none

def okOr (e : ε) : Option α → Outcome ε α
  | some a => .ok a
  | none => .err e

def collectFrom (f : Nat → Outcome ε α) : Nat → Nat → Outcome ε (List α)
  | _, 0 => .ok []
  | i, n+1 => (f i).bind fun a => (collectFrom f (i+1) n).bind fun rest => .ok (a :: rest)

@[simp] theorem pure_eq (a : α) : (pure a : Outcome ε α) = .ok a := rfl
@[simp] theorem ok_bind (a : α) (f : α → Outcome ε β) : (Outcome.ok a >>= f) = f a := rfl
@[simp] theorem err_bind (e : ε) (f : α → Outcome ε β) : (Outcome.err e >>= f) = .err e := rfl
@[simp] theorem panic_bind (f : α → Outcome ε β) : ((Outcome.panic : Outcome ε α) >>= f) = .panic := rfl
@[simp] theorem okOr_some (e : ε) (a : α) : okOr e (some a) = .ok a := rfl
@[simp] theorem okOr_none (e : ε) : okOr e (none : Option α) = .err e := rfl
@[simp] theorem toOption_ok (a : α) : ((.ok a : Outcome ε α).toOption : Outcome ε' _) = .ok (some a) := rfl
@[simp] theorem toOption_err (e : ε) : ((.err e : Outcome ε α).toOption : Outcome ε' _) = .ok none := rfl
@[simp] theorem toOption_panic : ((.panic : Outcome ε α).toOption : Outcome ε' _) = .panic := rfl

/-- A computation that returned a value had every step return one. -/
theorem bind_eq_ok {o : Outcome ε α} {f : α → Outcome ε β} {b : β} :
    (o >>= f) = .ok b ↔ ∃ a, o = .ok a ∧ f a = .ok b := by
  cases o <;> simp

theorem bind_ne_panic {o : Outcome ε α} {f : α → Outcome ε β} (h : o ≠ .panic)
    (hf : ∀ a, o = .ok a → f a ≠ .panic) : (o >>= f) ≠ .panic := by
  cases o with
  | ok a => exact hf a rfl
  | err e => simp
  | panic => exact absurd rfl h

theorem rejectIf_ne_panic {c : Prop} [Decidable c] {e : ε} : rejectIf c e ≠ .panic := by
  unfold rejectIf; split <;> simp

theorem okOr_ne_panic {e : ε} {o : Option α} : okOr e o ≠ .panic := by cases o <;> simp

@[simp] theorem rejectIf_eq_ok {c : Prop} [Decidable c] {e : ε} {u : Unit} :
    rejectIf c e = .ok u ↔ ¬ c := by
  by_cases h : c <;> simp [rejectIf,h]

theorem rejectIf_of_not {c : Prop} [Decidable c] (e : ε) (h : ¬ c) : rejectIf c e = .ok () := if_neg h
theorem rejectIf_of {c : Prop} [Decidable c] (e : ε) (h : c) : rejectIf c e = .err e := if_pos h

theorem u64_of_lt {n : Nat} (h : n < 2^64) : (u64 n : Outcome ε Nat) = .ok n := if_pos h
theorem sub_of_le {a b : Nat} (h : b ≤ a) : (sub a b : Outcome ε Nat) = .ok (a - b) := if_pos h

theorem div_of_pos {a b : Nat} (h : 0 < b) : (div a b : Outcome ε Nat) = .ok (a / b) := if_neg (Nat.ne_of_gt h)
theorem rem_of_pos {a b : Nat} (h : 0 < b) : (rem a b : Outcome ε Nat) = .ok (a % b) := if_neg (Nat.ne_of_gt h)

theorem u64_eq_ok {n m : Nat} : (u64 n : Outcome ε Nat) = .ok m ↔ n < 2^64 ∧ m = n := by
  unfold u64
  split_ifs with h
  · rw [ok.injEq,eq_comm]
    exact ⟨fun hm => ⟨h,hm⟩,And.right⟩
  · exact ⟨nofun,fun hm => absurd hm.1 h⟩

theorem collectFrom_eq {f : Nat → Outcome ε α} {g : Nat → α} {i n : Nat}
    (h : ∀ j, i ≤ j → j < i+n → f j = .ok (g j)) :
    collectFrom f i n = .ok ((List.range' i n).map g) := by
  induction n generalizing i with
  | zero => rfl
  | succ n ih =>
    rw [collectFrom,h i (Nat.le_refl i) (by omega),ih fun j hj hn => h j (by omega) (by omega)]
    rfl

theorem value_eq_some {o : Outcome ε α} {a : α} : o.value = some a ↔ o = .ok a := by
  cases o <;> simp [value]

theorem toOption_of_ne_panic {o : Outcome ε α} (h : o ≠ .panic) : (o.toOption : Outcome ε' _) = .ok o.value := by
  cases o with
  | ok a => rfl
  | err e => rfl
  | panic => exact absurd rfl h

theorem okOr_eq_ok {e : ε} {o : Option α} {a : α} : okOr e o = .ok a ↔ o = some a := by
  cases o <;> simp [okOr]

end Outcome
end ImgVhdx.Lib
