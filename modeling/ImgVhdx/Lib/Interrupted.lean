import ImgVhdx.Lib.Calls

/-! Programs that are interrupted: what a run may leave where it stops between two calls, or in the middle of one. -/
namespace ImgVhdx.Lib.Prog
variable {Op : Type} {Reply : Op → Type} {ε α β σ : Type}

section
variable (h : (op : Op) → σ → Reply op × σ) (mid : Op → σ → σ → Prop)

/-- What an interruption may leave: the state ahead of a call, that after the last, or what a call leaves that is cut short. -/
def Leaves : Prog Op Reply ε α → σ → σ → Prop
  | .done _, s, m => m = s
  | .call op k, s, m => m = s ∨ mid op s m ∨ (k (h op s).1).Leaves (h op s).2 m

def Throughout (P : σ → Prop) (p : Prog Op Reply ε α) (s : σ) : Prop := ∀ m, p.Leaves h mid s m → P m

end

section rules
variable {h : (op : Op) → σ → Reply op × σ} {mid : Op → σ → σ → Prop} {P : σ → Prop} {p : Prog Op Reply ε α} {s : σ}

/-- Where it ends is among what it may leave. -/
private theorem leaves_run (p : Prog Op Reply ε α) (s : σ) : p.Leaves h mid s (p.run h s).2 := by
  induction p generalizing s with
  | done r => rfl
  | call op k ih => exact .inr (.inr (ih _ _))

/-- And so is every state between two calls. -/
theorem leaves_cut (p : Prog Op Reply ε α) (n : Nat) (s : σ) : p.Leaves h mid s (p.cut h n s) := by
  induction p generalizing n s with
  | done r =>
    rw [cut_done]
    rfl
  | call op k ih =>
    cases n with
    | zero => exact .inl rfl
    | succ n => exact .inr (.inr (ih _ _ _))

theorem Throughout.start (hp : p.Throughout h mid P s) : P s := by
  refine hp s ?_
  cases p with
  | done r => rfl
  | call op k => exact .inl rfl

theorem Throughout.finish {o : Outcome ε α} {s1 : σ} (hp : p.Throughout h mid P s) (hrun : p.run h s = (o,s1)) : P s1 := by
  have hlast : p.Leaves h mid s (p.run h s).2 := leaves_run p s
  rw [hrun] at hlast
  exact hp s1 hlast

theorem Throughout.done {r : Outcome ε α} (hs : P s) : (Prog.done r : Prog Op Reply ε α).Throughout h mid P s := by
  rintro m rfl
  exact hs

theorem Throughout.call {op : Op} {k : Reply op → Prog Op Reply ε α} (hs : P s) (hmid : ∀ m, mid op s m → P m)
    (hk : (k (h op s).1).Throughout h mid P (h op s).2) : (Prog.call op k).Throughout h mid P s := by
  rintro m (rfl | hm | hm)
  · exact hs
  · exact hmid m hm
  · exact hk m hm

/-- Calls of a kind each of which keeps it, whole or cut short. -/
theorem Only.throughout {Kind : Op → Prop} (hp : p.Only Kind) (hstep : ∀ op s, Kind op → P s → P (h op s).2)
    (hcut : ∀ op s m, Kind op → P s → mid op s m → P m) (hs : P s) : p.Throughout h mid P s := by
  induction p generalizing s with
  | done r => exact .done hs
  | call op k ih => exact .call hs (fun m => hcut op s m hp.1 hs) (ih _ (hp.2 _) (hstep op s hp.1 hs))

/-- Interrupted in its first part, or past it. -/
theorem Throughout.bind {f : α → Prog Op Reply ε β} (hp : p.Throughout h mid P s)
    (hf : ∀ a s1, p.run h s = (.ok a,s1) → (f a).Throughout h mid P s1) : (p >>= f).Throughout h mid P s := by
  induction p generalizing s with
  | done r =>
    cases r with
    | ok a => exact hf a s rfl
    | err e => exact .done hp.start
    | panic => exact .done hp.start
  | call op k ih =>
    exact .call hp.start (fun m hm => hp m (.inr (.inl hm))) (ih _ (fun m hm => hp m (.inr (.inr hm))) hf)

/-- A part that calls on nothing. -/
theorem Throughout.lift_bind {o : Outcome ε α} {f : α → Prog Op Reply ε β} (hs : P s)
    (hf : ∀ a, o = .ok a → (f a).Throughout h mid P s) :
    (lift o >>= f).Throughout h mid P s := by
  cases o with
  | ok a => exact hf a rfl
  | err e => exact .done hs
  | panic => exact .done hs

theorem Throughout.releasing {release : Prog Op Reply ε Unit} (hp : p.Throughout h mid P s)
    (hrel : ∀ e s1, p.run h s = (.err e,s1) → release.Throughout h mid P s1) :
    (p.releasing release).Throughout h mid P s := by
  induction p generalizing s with
  | done r =>
    cases r with
    | ok a => exact .done hp.start
    | err e =>
      exact (hrel e s rfl).bind (f := fun _ => .done (.err e)) fun a s1 hrun => .done ((hrel e s rfl).finish hrun)
    | panic => exact .done hp.start
  | call op k ih =>
    exact .call hp.start (fun m hm => hp m (.inr (.inl hm))) (ih _ (fun m hm => hp m (.inr (.inr hm))) hrel)

/-- A loop, by what holds with the rest still to be gone through. -/
theorem Throughout.forEach {f : α → Prog Op Reply ε Unit} {todo : List α → σ → Prop} (hend : ∀ s, todo [] s → P s)
    (hf : ∀ a rest s, todo (a :: rest) s → (f a).Throughout h mid P s ∧
      ∀ s1, (f a).run h s = (.ok (),s1) → todo rest s1)
    {xs : List α} (hs : todo xs s) : (Prog.forEach f xs).Throughout h mid P s := by
  induction xs generalizing s with
  | nil => exact .done (hend s hs)
  | cons a rest ih => exact (hf a rest s hs).1.bind fun _ s1 hrun => ih ((hf a rest s hs).2 s1 hrun)

end rules
end ImgVhdx.Lib.Prog
