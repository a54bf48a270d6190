import ImgVhdx.Lib.Outcome

/-! Programs that call on a device: what one does run to the end, what it has done
when it is cut off after some of its calls, and rules for both. -/
namespace ImgVhdx.Lib

/-- A program that makes the calls `Op` and goes on with each call's reply. -/
inductive Prog (Op : Type) (Reply : Op → Type) (ε α : Type) where
  | done (r : Outcome ε α)
  | call (op : Op) (k : Reply op → Prog Op Reply ε α)

namespace Prog
variable {Op : Type} {Reply : Op → Type} {ε α β γ σ : Type}

protected def bind : Prog Op Reply ε α → (α → Prog Op Reply ε β) → Prog Op Reply ε β
  | .done (.ok a), f => f a
  | .done (.err e), _ => .done (.err e)
  | .done .panic, _ => .done .panic
  | .call op k, f => .call op fun r => (k r).bind f

instance : Monad (Prog Op Reply ε) where
  pure a := .done (.ok a)
  bind := Prog.bind

def lift (o : Outcome ε α) : Prog Op Reply ε α := .done o

def throw (e : ε) : Prog Op Reply ε α := .done (.err e)

def perform (op : Op) : Prog Op Reply ε (Reply op) := .call op fun r => .done (.ok r)

/-- `p`, and `release` after it should `p` return an error: what a guard dropped on an
early return does. A panic runs nothing. -/
def releasing (p : Prog Op Reply ε α) (release : Prog Op Reply ε Unit) : Prog Op Reply ε α :=
  match p with
  | .done (.err e) => release.bind fun _ => .done (.err e)
  | .done r => .done r
  | .call op k => .call op fun r => (k r).releasing release

def forEach (f : α → Prog Op Reply ε Unit) : List α → Prog Op Reply ε Unit
  | [] => .done (.ok ())
  | a :: rest => (f a).bind fun _ => forEach f rest

@[simp] theorem pure_eq (a : α) : (pure a : Prog Op Reply ε α) = .done (.ok a) := rfl
@[simp] theorem ok_bind (a : α) (f : α → Prog Op Reply ε β) : (Prog.done (.ok a) >>= f) = f a := rfl
@[simp] theorem err_bind (e : ε) (f : α → Prog Op Reply ε β) : (Prog.done (.err e) >>= f) = .done (.err e) := rfl
@[simp] theorem panic_bind (f : α → Prog Op Reply ε β) :
    ((Prog.done .panic : Prog Op Reply ε α) >>= f) = .done .panic := rfl
@[simp] theorem call_bind (op : Op) (k : Reply op → Prog Op Reply ε α) (f : α → Prog Op Reply ε β) :
    (Prog.call op k >>= f) = .call op fun r => k r >>= f := rfl

theorem bind_assoc (p : Prog Op Reply ε α) (f : α → Prog Op Reply ε β) (g : β → Prog Op Reply ε γ) :
    (p >>= f) >>= g = p >>= fun a => f a >>= g := by
  induction p with
  | done r => cases r <;> rfl
  | call op k ih =>
    simp only [call_bind]
    exact congrArg (Prog.call op) (funext ih)

theorem bind_done (p : Prog Op Reply ε α) : (p >>= fun a => .done (.ok a)) = p := by
  induction p with
  | done r => cases r <;> rfl
  | call op k ih => exact congrArg (Prog.call op) (funext ih)

theorem forEach_cons (f : α → Prog Op Reply ε Unit) (a : α) (rest : List α) :
    forEach f (a :: rest) = f a >>= fun _ => forEach f rest := rfl

theorem forEach_append (f : α → Prog Op Reply ε Unit) (front rest : List α) :
    forEach f (front ++ rest) = forEach f front >>= fun _ => forEach f rest := by
  induction front with
  | nil => rfl
  | cons a front ih => rw [List.cons_append,forEach_cons,forEach_cons,ih,bind_assoc]

section run
variable (h : (op : Op) → σ → Reply op × σ)

def run : Prog Op Reply ε α → σ → Outcome ε α × σ
  | .done r, s => (r,s)
  | .call op k, s => (k (h op s).1).run (h op s).2

/-- The state after the first `n` calls of the program, or after all it makes. -/
def cut : Nat → Prog Op Reply ε α → σ → σ
  | 0, _, s => s
  | _+1, .done _, s => s
  | n+1, .call op k, s => (k (h op s).1).cut n (h op s).2

variable {h}

@[simp] theorem run_done (r : Outcome ε α) (s : σ) : (Prog.done r).run h s = (r,s) := rfl

theorem run_bind (p : Prog Op Reply ε α) (f : α → Prog Op Reply ε β) (s : σ) : (p >>= f).run h s =
    match p.run h s with
    | (.ok a,s') => (f a).run h s'
    | (.err e,s') => (.err e,s')
    | (.panic,s') => (.panic,s') := by
  induction p generalizing s with
  | done r => cases r <;> rfl
  | call op k ih => exact ih _ _

/-- A program that returned a value had its first part return one. -/
theorem run_bind_eq_ok {p : Prog Op Reply ε α} {f : α → Prog Op Reply ε β} {s s' : σ} {b : β} :
    (p >>= f).run h s = (.ok b,s') ↔ ∃ a s1, p.run h s = (.ok a,s1) ∧ (f a).run h s1 = (.ok b,s') := by
  rw [run_bind]
  rcases p.run h s with ⟨_ | _ | _,s1⟩ <;> simp

theorem run_bind_of_ok {p : Prog Op Reply ε α} {f : α → Prog Op Reply ε β} {s s1 : σ} {a : α}
    (hp : p.run h s = (.ok a,s1)) : (p >>= f).run h s = (f a).run h s1 := by
  rw [run_bind,hp]

theorem run_lift_eq_ok {o : Outcome ε α} {s s' : σ} {a : α} :
    (lift o : Prog Op Reply ε α).run h s = (.ok a,s') ↔ o = .ok a ∧ s' = s := by
  rw [lift,run_done,Prod.mk.injEq,eq_comm (a := s)]

theorem run_lift_of_ok {o : Outcome ε α} {s : σ} {a : α} (ho : o = .ok a) :
    (lift o : Prog Op Reply ε α).run h s = (.ok a,s) := by
  rw [ho,lift,run_done]

/-- A guarded part returned a value just where the part itself did. -/
theorem run_releasing_eq_ok {p : Prog Op Reply ε α} {release : Prog Op Reply ε Unit} {s s' : σ} {a : α} :
    (p.releasing release).run h s = (.ok a,s') ↔ p.run h s = (.ok a,s') := by
  induction p generalizing s with
  | done r =>
    cases r with
    | ok b => rfl
    | err e =>
      refine ⟨fun hr => ?_,nofun⟩
      change (release >>= fun _ => (.done (.err e) : Prog Op Reply ε α)).run h s = _ at hr
      obtain ⟨_,_,-,hr⟩ := run_bind_eq_ok.mp hr
      cases hr
    | panic => rfl
  | call op k ih => exact ih _

@[simp] theorem cut_zero (p : Prog Op Reply ε α) (s : σ) : p.cut h 0 s = s := by cases p <;> rfl

@[simp] theorem cut_done (n : Nat) (r : Outcome ε α) (s : σ) : (Prog.done r).cut h n s = s := by
  cases n <;> rfl

/-- Cut off in its first part, or past it. -/
theorem cut_bind {P : σ → Prop} {p : Prog Op Reply ε α} {f : α → Prog Op Reply ε β} {s : σ}
    (hp : ∀ n, P (p.cut h n s)) (hf : ∀ a s1, p.run h s = (.ok a,s1) → ∀ n, P ((f a).cut h n s1)) (n : Nat) :
    P ((p >>= f).cut h n s) := by
  induction p generalizing s n with
  | done r =>
    cases r with
    | ok a => exact hf a s rfl n
    | err e =>
      rw [err_bind,cut_done]
      exact hp 0
    | panic =>
      rw [panic_bind,cut_done]
      exact hp 0
  | call op k ih =>
    cases n with
    | zero => exact hp 0
    | succ n => exact ih _ (fun m => hp (m+1)) (fun a s1 hr => hf a s1 hr) n

end run
end Prog
end ImgVhdx.Lib
