import Mathlib.Logic.Function.Basic
import Mathlib.Logic.Relation
import ImgVhdx.Lib.Calls

/-! Programs followed move by move. A program follows a table of moves from a phase when
each of its calls is a move of the table, whatever the reply; what every move keeps, a
run keeps, be the program alone or one of several that take turns on one state. -/
namespace ImgVhdx.Lib
namespace Prog
variable {Op : Type} {Reply : Op → Type} {ε α β σ L : Type}

/-- From phase `l` on, every call is a move for every reply the state may give, and the end is as `post` says. -/
def Follows (h : (op : Op) → σ → Reply op × σ) (move : L → (op : Op) → Reply op → L → Prop)
    (post : L → Outcome ε α → Prop) : Prog Op Reply ε α → L → Prop
  | .done r, l => post l r
  | .call op k, l => ∀ s, ∃ l', move l op (h op s).1 l' ∧ Follows h move post (k (h op s).1) l'

section follows
variable {h : (op : Op) → σ → Reply op × σ} {move : L → (op : Op) → Reply op → L → Prop}
  {post post' : L → Outcome ε α → Prop} {l : L}

theorem Follows.mono {p : Prog Op Reply ε α} (hp : p.Follows h move post l) (hpost : ∀ l r, post l r → post' l r) :
    p.Follows h move post' l := by
  induction p generalizing l with
  | done r => exact hpost l r hp
  | call op k ih =>
    intro s
    obtain ⟨l',hm,hk⟩ := hp s
    exact ⟨l',hm,ih _ hk⟩

/-- The first part ends somewhere; from a value the second goes on, and a failure ends both. -/
theorem Follows.bind {p : Prog Op Reply ε α} {f : α → Prog Op Reply ε β} {m : L → Outcome ε α → Prop}
    {post : L → Outcome ε β → Prop} (hp : p.Follows h move m l) (hf : ∀ l a, m l (.ok a) → (f a).Follows h move post l)
    (herr : ∀ l e, m l (.err e) → post l (.err e)) (hpanic : ∀ l, m l .panic → post l .panic) :
    (p >>= f).Follows h move post l := by
  induction p generalizing l with
  | done r =>
    cases r with
    | ok a => exact hf l a hp
    | err e => exact herr l e hp
    | panic => exact hpanic l hp
  | call op k ih =>
    intro s
    obtain ⟨l',hm,hk⟩ := hp s
    exact ⟨l',hm,ih _ hk⟩

def orFail (ok : L → α → Prop) (err : L → ε → Prop) (panic : L → Prop) : L → Outcome ε α → Prop
  | l, .ok a => ok l a
  | l, .err e => err l e
  | l, .panic => panic l

/-- A part that gives back what it holds before an error leaves it. -/
theorem Follows.releasing {p : Prog Op Reply ε α} {release : Prog Op Reply ε Unit} {ok : L → α → Prop}
    {m err : L → ε → Prop} {panic : L → Prop} (hp : p.Follows h move (orFail ok m panic) l)
    (hrel : ∀ l e, m l e → release.Follows h move (orFail (fun l _ => err l e) (fun _ _ => False) fun _ => False) l) :
    (p.releasing release).Follows h move (orFail ok err panic) l := by
  induction p generalizing l with
  | done r =>
    cases r with
    | ok a => exact hp
    | err e => exact (hrel l e hp).bind (fun _ _ he => he) (fun _ _ he => he.elim) fun _ he => he.elim
    | panic => exact hp
  | call op k ih =>
    intro s
    obtain ⟨l',hm,hk⟩ := hp s
    exact ⟨l',hm,ih _ hk⟩

/-- A loop, by what holds with `rest` still to be gone through. -/
theorem Follows.forEach {f : α → Prog Op Reply ε Unit} {c : List α → L → Prop} {err : L → ε → Prop} {panic : L → Prop}
    (hf : ∀ a rest l, c (a :: rest) l → (f a).Follows h move (orFail (fun l _ => c rest l) err panic) l)
    (xs : List α) (hl : c xs l) : (Prog.forEach f xs).Follows h move (orFail (fun l _ => c [] l) err panic) l := by
  induction xs generalizing l with
  | nil => exact hl
  | cons a rest ih => exact (hf a rest l hl).bind (fun _ _ hl' => ih hl') (fun _ _ he => he) fun _ hp => hp

/-- A part whose calls are all moves that stay in the phase. -/
theorem Only.follows {p : Prog Op Reply ε α} {Kind : Op → Prop} (hp : p.Only Kind)
    (hm : ∀ op reply, Kind op → move l op reply l) (hpost : ∀ r, post l r) : p.Follows h move post l := by
  induction p with
  | done r => exact hpost r
  | call op k ih => exact fun s => ⟨l,hm op _ hp.1,ih _ (hp.2 _)⟩

end follows

inductive Runs (h : (op : Op) → σ → Reply op × σ) (free : σ → Op → Prop) :
    Prog Op Reply ε α → σ → Outcome ε α → σ → Prop
  | done {o : Outcome ε α} {s : σ} : Runs h free (.done o) s o s
  | call {op : Op} {k : Reply op → Prog Op Reply ε α} {s s' : σ} {o : Outcome ε α} (hfree : free s op)
      (hk : Runs h free (k (h op s).1) (h op s).2 o s') : Runs h free (.call op k) s o s'

section runs
variable {h : (op : Op) → σ → Reply op × σ} {free : σ → Op → Prop} {s s1 s' : σ} {a : α} {o : Outcome ε α}
  {p : Prog Op Reply ε α} {f : α → Prog Op Reply ε β} {release : Prog Op Reply ε Unit}

theorem Runs.bind {o : Outcome ε β} (hp : p.Runs h free s (.ok a) s1) (hf : (f a).Runs h free s1 o s') :
    (p >>= f).Runs h free s o s' := by
  induction p generalizing s with
  | done r =>
    cases hp
    exact hf
  | call op k ih =>
    cases hp with
    | call hfree hk => exact .call hfree (ih _ hk)

theorem Runs.bind_err {e : ε} (hp : p.Runs h free s (.err e) s') : (p >>= f).Runs h free s (.err e) s' := by
  induction p generalizing s with
  | done r =>
    cases hp
    exact .done
  | call op k ih =>
    cases hp with
    | call hfree hk => exact .call hfree (ih _ hk)

theorem Runs.run_eq (hp : p.Runs h free s o s') : p.run h s = (o,s') := by
  induction hp with
  | done => rfl
  | call _ _ ih => exact ih

theorem Runs.lift {o' : Outcome ε α} (ho : o' = o) : (Prog.lift o' : Prog Op Reply ε α).Runs h free s o s := by
  rw [ho]
  exact .done

/-- A part that returns gives nothing back early. -/
theorem Runs.releasing (hp : p.Runs h free s (.ok a) s') : (p.releasing release).Runs h free s (.ok a) s' := by
  induction p generalizing s with
  | done r =>
    cases hp
    exact .done
  | call op k ih =>
    cases hp with
    | call hfree hk => exact .call hfree (ih _ hk)

/-- One that fails gives back what it holds. -/
theorem Runs.releasing_err {e : ε} (hp : p.Runs h free s (.err e) s1) (hr : release.Runs h free s1 (.ok ()) s') :
    (p.releasing release).Runs h free s (.err e) s' := by
  induction p generalizing s with
  | done r =>
    cases hp
    exact hr.bind .done
  | call op k ih =>
    cases hp with
    | call hfree hk => exact .call hfree (ih _ hk)

/-- Each call that the run makes is one that the program can make. -/
theorem Runs.only {Kind : Op → Prop} (hp : p.Runs h free s o s') (hk : p.Only Kind) :
    p.Runs h (fun s op => free s op ∧ Kind op) s o s' := by
  induction hp with
  | done => exact .done
  | call hfree _ ih => exact .call ⟨hfree,hk.1⟩ (ih (hk.2 _))

end runs
end Prog

/-- Programs on one state that take turns, each with what was noted of its calls so far. -/
structure Pool (ι Op : Type) (Reply : Op → Type) (ε α σ M : Type) where
  state : σ
  prog : ι → Prog Op Reply ε α
  seen : ι → M

namespace Pool
variable {ι Op : Type} {Reply : Op → Type} {ε α σ L M : Type} [DecidableEq ι]

def after (h : (op : Op) → σ → Reply op × σ) (note : M → (op : Op) → Reply op → M) (c : Pool ι Op Reply ε α σ M) (i : ι)
    (op : Op) (k : Reply op → Prog Op Reply ε α) : Pool ι Op Reply ε α σ M where
  state := (h op c.state).2
  prog := Function.update c.prog i (k (h op c.state).1)
  seen := Function.update c.seen i (note (c.seen i) op (h op c.state).1)

inductive Step (h : (op : Op) → σ → Reply op × σ) (note : M → (op : Op) → Reply op → M) (free : σ → Op → Prop)
    (cond : σ → (ι → M) → ι → Op → Prop) : Pool ι Op Reply ε α σ M → Pool ι Op Reply ε α σ M → Prop
  | call {c : Pool ι Op Reply ε α σ M} {i : ι} {op : Op} {k : Reply op → Prog Op Reply ε α} (hp : c.prog i = .call op k)
      (hfree : free c.state op) (hcond : cond c.state c.seen i op) : Step h note free cond c (c.after h note i op k)

/-- Any number of steps, by whichever program each time. -/
def Steps (h : (op : Op) → σ → Reply op × σ) (note : M → (op : Op) → Reply op → M) (free : σ → Op → Prop)
    (cond : σ → (ι → M) → ι → Op → Prop) : Pool ι Op Reply ε α σ M → Pool ι Op Reply ε α σ M → Prop :=
  Relation.ReflTransGen (Step h note free cond)

variable {h : (op : Op) → σ → Reply op × σ} {note : M → (op : Op) → Reply op → M} {free : σ → Op → Prop}
  {cond : σ → (ι → M) → ι → Op → Prop}

def Tracked (h : (op : Op) → σ → Reply op × σ) (move : ι → L → (op : Op) → Reply op → L → Prop)
    (post : ι → L → Outcome ε α → Prop) (I : σ → (ι → L) → (ι → M) → Prop) (c : Pool ι Op Reply ε α σ M) : Prop :=
  ∃ l : ι → L, I c.state l c.seen ∧ ∀ i, (c.prog i).Follows h (move i) (post i) (l i)

/-- What every move of every program keeps holds after any interleaving. -/
theorem Steps.tracked {move : ι → L → (op : Op) → Reply op → L → Prop} {post : ι → L → Outcome ε α → Prop}
    {I : σ → (ι → L) → (ι → M) → Prop}
    (hk : ∀ s l m i op l', I s l m → free s op → cond s m i op → move i (l i) op (h op s).1 l' →
      I (h op s).2 (Function.update l i l') (Function.update m i (note (m i) op (h op s).1)))
    {c c' : Pool ι Op Reply ε α σ M} (hs : Steps h note free cond c c') (hc : c.Tracked h move post I) :
    c'.Tracked h move post I := by
  induction hs with
  | refl => exact hc
  | @tail b _ _ hstep ih =>
    obtain ⟨l,hi,hf⟩ := ih
    cases hstep with
    | @call i op k hp hfree hcond =>
      have hfi := hf i
      rw [hp] at hfi
      obtain ⟨l',hm,hk'⟩ := hfi b.state
      refine ⟨Function.update l i l',hk _ _ _ _ _ _ hi hfree hcond hm,fun j => ?_⟩
      by_cases hj : j = i
      · subst hj
        simpa only [after,Function.update_self] using hk'
      · simpa only [after,Function.update_of_ne hj] using hf j

section turns
variable {calls : σ → Op → Prop} {c : Pool ι Op Reply ε α σ M} {s0 s' : σ}

/-- One program goes through a part of itself while the others stand still. -/
theorem Steps.turn (note : M → (op : Op) → Reply op → M) (free : σ → Op → Prop) (cond : σ → (ι → M) → ι → Op → Prop)
    (i : ι) {β : Type} {p : Prog Op Reply ε β} {f : β → Prog Op Reply ε α} {o : Outcome ε β}
    (hcalls : ∀ s m op, (∀ j, j ≠ i → m j = c.seen j) → calls s op → free s op ∧ cond s m i op) (hs0 : c.state = s0)
    (hp : p.Runs h calls s0 o s') (hc : c.prog i = p >>= f) :
    ∃ c', Steps h note free cond c c' ∧ c'.state = s' ∧ c'.prog i = (.done o >>= f) ∧
      ∀ j, j ≠ i → c'.prog j = c.prog j ∧ c'.seen j = c.seen j := by
  subst hs0
  induction p generalizing c with
  | done r =>
    cases hp
    exact ⟨c,.refl,rfl,hc,fun _ _ => ⟨rfl,rfl⟩⟩
  | call op k ih =>
    cases hp with
    | call hfree hk =>
      obtain ⟨hfree,hcond⟩ := hcalls _ _ _ (fun _ _ => rfl) hfree
      have hseen : ∀ j, j ≠ i → (c.after h note i op fun reply => k reply >>= f).seen j = c.seen j := fun j hj =>
        Function.update_of_ne hj ..
      obtain ⟨c',hs,hstate,hprog,hothers⟩ := ih _ (c := c.after h note i op fun reply => k reply >>= f)
        (fun s m op hm => hcalls s m op fun j hj => (hm j hj).trans (hseen j hj)) (Function.update_self ..) hk
      refine ⟨c',.head (.call hc hfree hcond) hs,hstate,hprog,fun j hj => ?_⟩
      exact ⟨(hothers j hj).1.trans (Function.update_of_ne hj ..),(hothers j hj).2.trans (hseen j hj)⟩

/-- One program runs to its end while the others stand still. -/
theorem Steps.finish (note : M → (op : Op) → Reply op → M) (free : σ → Op → Prop) (cond : σ → (ι → M) → ι → Op → Prop)
    (i : ι) {p : Prog Op Reply ε α} {o : Outcome ε α}
    (hcalls : ∀ s m op, (∀ j, j ≠ i → m j = c.seen j) → calls s op → free s op ∧ cond s m i op) (hs0 : c.state = s0)
    (hp : p.Runs h calls s0 o s') (hc : c.prog i = p) :
    ∃ c', Steps h note free cond c c' ∧ c'.state = s' ∧ c'.prog i = .done o ∧
      ∀ j, j ≠ i → c'.prog j = c.prog j ∧ c'.seen j = c.seen j := by
  obtain ⟨c',hs,hstate,hprog,hothers⟩ := Steps.turn note free cond i (f := fun a => .done (.ok a)) hcalls hs0 hp
    (hc.trans (Prog.bind_done _).symm)
  exact ⟨c',hs,hstate,hprog.trans (Prog.bind_done _),hothers⟩

end turns
end Pool
end ImgVhdx.Lib
