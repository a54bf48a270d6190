import ImgVhdx.Lib.Prog

/-! The calls a program makes: which they are in a run, programs that make calls of one kind only,
and programs that stop with an error once a call has failed. -/
namespace ImgVhdx.Lib.Prog
variable {Op : Type} {Reply : Op → Type} {ε α β σ τ : Type}

def events (h : (op : Op) → σ → Reply op × σ) : Prog Op Reply ε α → σ → List ((op : Op) × Reply op)
  | .done _, _ => []
  | .call op k, s => ⟨op,(h op s).1⟩ :: (k (h op s).1).events h (h op s).2

def Only (Kind : Op → Prop) : Prog Op Reply ε α → Prop
  | .done _ => True
  | .call op k => Kind op ∧ ∀ r, (k r).Only Kind

def Fails : Prog Op Reply ε α → Prop
  | .done r => ∃ e, r = .err e
  | .call _ k => ∀ r, (k r).Fails

/-- It goes on after good replies, fails after bad ones, and never panics. -/
def Strict (Good Bad : (op : Op) → Reply op → Prop) : Prog Op Reply ε α → Prop
  | .done r => r ≠ .panic
  | .call op k => (∀ r, Good op r → (k r).Strict Good Bad) ∧ ∀ r, Bad op r → (k r).Fails

def Ends (ok : α → Prop) (err : ε → Prop) (panics : Prop) : Outcome ε α → Prop
  | .ok a => ok a
  | .err e => err e
  | .panic => panics

def Yields (Good : (op : Op) → Reply op → Prop) (Q : Outcome ε α → Prop) : Prog Op Reply ε α → Prop
  | .done r => Q r
  | .call op k => ∀ r, Good op r → (k r).Yields Good Q

def after (h : (op : Op) → σ → Reply op × σ) (ops : List Op) (s : σ) : σ := ops.foldl (fun s op => (h op s).2) s

/-- What one call keeps between two states, any calls keep. -/
theorem after_related {Kind : Op → Prop} {h : (op : Op) → σ → Reply op × σ} {g : (op : Op) → τ → Reply op × τ}
    {R : σ → τ → Prop} (hstep : ∀ op s t, Kind op → R s t → R (h op s).2 (g op t).2) {ops : List Op}
    (hops : ∀ op ∈ ops, Kind op) {s : σ} {t : τ} (hs : R s t) : R (after h ops s) (after g ops t) := by
  induction ops generalizing s t with
  | nil => exact hs
  | cons op ops ih =>
    obtain ⟨hop,hops⟩ := List.forall_mem_cons.mp hops
    exact ih hops (hstep op s t hop hs)

section rules
variable {Kind Kind' : Op → Prop} {Good Bad : (op : Op) → Reply op → Prop} {p : Prog Op Reply ε α}
  {f : α → Prog Op Reply ε β}

theorem Only.bind (hp : p.Only Kind) (hf : ∀ a, (f a).Only Kind) : (p >>= f).Only Kind := by
  induction p with
  | done r =>
    cases r with
    | ok a => exact hf a
    | err e => trivial
    | panic => trivial
  | call op k ih => exact ⟨hp.1,fun r => ih r (hp.2 r)⟩

theorem Only.mono (hp : p.Only Kind) (hk : ∀ op, Kind op → Kind' op) : p.Only Kind' := by
  induction p with
  | done r => trivial
  | call op k ih => exact ⟨hk op hp.1,fun r => ih r (hp.2 r)⟩

/-- Every call is of the kind that rules nothing out. -/
theorem only_any (p : Prog Op Reply ε α) : p.Only fun _ => True := by
  induction p with
  | done r => trivial
  | call op k ih => exact ⟨trivial,ih⟩

theorem Only.forEach_mem {f : β → Prog Op Reply ε Unit} {bs : List β} (hf : ∀ b ∈ bs, (f b).Only Kind) :
    (Prog.forEach f bs).Only Kind := by
  induction bs with
  | nil => trivial
  | cons b bs ih => exact (hf b List.mem_cons_self).bind fun _ => ih fun c hc => hf c (List.mem_cons_of_mem _ hc)

theorem Only.releasing {release : Prog Op Reply ε Unit} (hp : p.Only Kind) (hrel : release.Only Kind) :
    (p.releasing release).Only Kind := by
  induction p with
  | done r =>
    cases r with
    | ok a => trivial
    | err e => exact hrel.bind (f := fun _ => .done (.err e)) fun _ => trivial
    | panic => trivial
  | call op k ih => exact ⟨hp.1,fun r => ih r (hp.2 r)⟩

theorem Only.forEach {f : β → Prog Op Reply ε Unit} (hf : ∀ b, (f b).Only Kind) (bs : List β) :
    (Prog.forEach f bs).Only Kind :=
  forEach_mem fun b _ => hf b

theorem Fails.bind (hp : p.Fails) : (p >>= f).Fails := by
  induction p with
  | done r =>
    obtain ⟨e,rfl⟩ := hp
    exact ⟨e,rfl⟩
  | call op k ih => exact fun r => ih r (hp r)

theorem Strict.bind (hp : p.Strict Good Bad) (hf : ∀ a, (f a).Strict Good Bad) : (p >>= f).Strict Good Bad := by
  induction p with
  | done r =>
    cases r with
    | ok a => exact hf a
    | err e => simp [Strict]
    | panic => exact absurd rfl hp
  | call op k ih => exact ⟨fun r hr => ih r (hp.1 r hr),fun r hr => (hp.2 r hr).bind⟩

theorem Strict.forEach {f : β → Prog Op Reply ε Unit} (hf : ∀ b, (f b).Strict Good Bad) (bs : List β) :
    (Prog.forEach f bs).Strict Good Bad := by
  induction bs with
  | nil => simp [Prog.forEach,Strict]
  | cons b bs ih => exact (hf b).bind fun _ => ih

theorem Yields.bind {m : α → Prop} {ok : β → Prop} {err : ε → Prop} {panics : Prop}
    (hp : p.Yields Good (Ends m err panics)) (hf : ∀ a, m a → (f a).Yields Good (Ends ok err panics)) :
    (p >>= f).Yields Good (Ends ok err panics) := by
  induction p with
  | done r =>
    cases r with
    | ok a => exact hf a hp
    | err e => exact hp
    | panic => exact hp
  | call op k ih => exact fun r hr => ih r (hp r hr)

theorem Yields.releasing {release : Prog Op Reply ε Unit} {ok : α → Prop} {err : ε → Prop} {panics : Prop}
    (hp : p.Yields Good (Ends ok err panics)) (hrel : release.Yields Good (Ends (fun _ => True) err panics)) :
    (p.releasing release).Yields Good (Ends ok err panics) := by
  induction p with
  | done r =>
    cases r with
    | ok a => exact hp
    | err e => exact hrel.bind (f := fun _ => .done (.err e)) fun _ _ => hp
    | panic => exact hp
  | call op k ih => exact fun r hr => ih r (hp r hr)

theorem Yields.forEach {f : β → Prog Op Reply ε Unit} {err : ε → Prop} {panics : Prop} {bs : List β}
    (hf : ∀ b ∈ bs, (f b).Yields Good (Ends (fun _ => True) err panics)) :
    (Prog.forEach f bs).Yields Good (Ends (fun _ => True) err panics) := by
  induction bs with
  | nil => trivial
  | cons b bs ih => exact (hf b List.mem_cons_self).bind fun _ _ => ih fun c hc => hf c (List.mem_cons_of_mem _ hc)

end rules

section runs
variable {Kind : Op → Prop} {Good Bad : (op : Op) → Reply op → Prop} {p : Prog Op Reply ε α} {f : α → Prog Op Reply ε β}
  {h : (op : Op) → σ → Reply op × σ}

theorem events_bind (s : σ) : (p >>= f).events h s = p.events h s ++
    match p.run h s with
    | (.ok a,s') => (f a).events h s'
    | _ => [] := by
  induction p generalizing s with
  | done r => cases r <;> rfl
  | call op k ih => exact congrArg (List.cons _) (ih _ _)

theorem Only.events (hp : p.Only Kind) (s : σ) : ∀ x ∈ p.events h s, Kind x.1 := by
  induction p generalizing s with
  | done r => exact nofun
  | call op k ih =>
    intro x hx
    rcases List.mem_cons.mp hx with rfl | hx
    · exact hp.1
    · exact ih _ (hp.2 _) _ x hx

theorem Fails.run (hp : p.Fails) (s : σ) : ∃ e, (p.run h s).1 = .err e := by
  induction p generalizing s with
  | done r => exact hp
  | call op k ih => exact ih _ (hp _) _

/-- Over a state whose replies are good or bad, it never panics. -/
theorem Strict.run_ne_panic (hp : p.Strict Good Bad) (ha : ∀ op s, Good op (h op s).1 ∨ Bad op (h op s).1) (s : σ) :
    (p.run h s).1 ≠ .panic := by
  induction p generalizing s with
  | done r => exact hp
  | call op k ih =>
    rcases ha op s with hg | hb
    · exact ih _ (hp.1 _ hg) _
    · obtain ⟨e,he⟩ := (hp.2 _ hb).run (h := h) (h op s).2
      change ((k (h op s).1).run h (h op s).2).1 ≠ _
      rw [he]
      exact nofun

/-- A run in which one of the calls had a bad reply is a run that failed. -/
theorem Strict.run_of_bad (hp : p.Strict Good Bad) (ha : ∀ op s, Good op (h op s).1 ∨ Bad op (h op s).1) {s : σ}
    {x : (op : Op) × Reply op} (hx : x ∈ p.events h s) (hbad : Bad x.1 x.2) : ∃ e, (p.run h s).1 = .err e := by
  induction p generalizing s with
  | done r => cases hx
  | call op k ih =>
    rcases List.mem_cons.mp hx with rfl | hx
    · exact (hp.2 _ hbad).run _
    · rcases ha op s with hg | hb
      · exact ih _ (hp.1 _ hg) hx
      · exact (hp.2 _ hb).run _

/-- A run whose calls were all of a kind that a view of the state does not show leaves it. -/
theorem view_of_events (view : σ → τ) (hv : ∀ op s, Kind op → view (h op s).2 = view s) {s : σ}
    (hp : ∀ x ∈ p.events h s, Kind x.1) :
    view (p.run h s).2 = view s := by
  induction p generalizing s with
  | done r => rfl
  | call op k ih =>
    exact (ih _ fun x hx => hp x (List.mem_cons_of_mem _ hx)).trans (hv op s (hp ⟨op,(h op s).1⟩ List.mem_cons_self))

/-- Calls of such a kind leave it, whatever they reply. -/
theorem Only.view {view : σ → τ} (hp : p.Only Kind) (hv : ∀ op s, Kind op → view (h op s).2 = view s) (s : σ) :
    view (p.run h s).2 = view s :=
  view_of_events view hv (hp.events s)

/-- What each call of the kind keeps, a run of them keeps. -/
theorem Only.keeps {I : σ → Prop} (hp : p.Only Kind) (hI : ∀ op s, Kind op → I s → I (h op s).2) {s : σ} (hs : I s) :
    I (p.run h s).2 := by
  induction p generalizing s with
  | done r => exact hs
  | call op k ih => exact ih _ (hp.2 _) (hI op s hp.1 hs)

/-- And so does a run of them that is cut short. -/
theorem Only.keeps_cut {I : σ → Prop} (hp : p.Only Kind) (hI : ∀ op s, Kind op → I s → I (h op s).2) {s : σ} (hs : I s)
    (n : Nat) :
    I (p.cut h n s) := by
  induction p generalizing s n with
  | done r =>
    rw [cut_done]
    exact hs
  | call op k ih =>
    cases n with
    | zero => exact hs
    | succ n => exact ih _ (hp.2 _) (hI op s hp.1 hs) n

/-- Over states whose replies are good, and that stay so. -/
theorem Yields.run {Q : Outcome ε α → Prop} {I : σ → Prop} (hp : p.Yields Good Q)
    (hI : ∀ op s, I s → Good op (h op s).1 ∧ I (h op s).2) {s : σ} (hs : I s) : Q (p.run h s).1 := by
  induction p generalizing s with
  | done r => exact hp
  | call op k ih => exact ih _ (hp _ (hI op s hs).1) (hI op s hs).2

/-- From related states the two runs return alike and leave related states. -/
def Alike (h : (op : Op) → σ → Reply op × σ) (h' : (op : Op) → τ → Reply op × τ) (R : σ → τ → Prop)
    (p : Prog Op Reply ε α) (s : σ) (t : τ) :
    Prop := (p.run h s).1 = (p.run h' t).1 ∧ R (p.run h s).2 (p.run h' t).2

section alike
variable {h' : (op : Op) → τ → Reply op × τ} {R : σ → τ → Prop} {s : σ} {t : τ}

theorem Alike.bind (hp : p.Alike h h' R s t)
    (hf : ∀ a s1 t1, p.run h s = (.ok a,s1) → p.run h' t = (.ok a,t1) → R s1 t1 → (f a).Alike h h' R s1 t1) :
    (p >>= f).Alike h h' R s t := by
  obtain ⟨hret,hrel⟩ := hp
  unfold Alike
  rw [run_bind,run_bind]
  rcases hs : p.run h s with ⟨o,s1⟩
  rcases ht : p.run h' t with ⟨o',t1⟩
  rw [hs,ht] at hret hrel
  obtain rfl : o = o' := hret
  cases o with
  | ok a => exact hf a s1 t1 hs ht hrel
  | err e => exact ⟨rfl,hrel⟩
  | panic => exact ⟨rfl,hrel⟩

/-- Calls that related states answer alike, and that leave them related. -/
theorem Only.alike (hp : p.Only Kind)
    (hR : ∀ op s t, Kind op → R s t → (h op s).1 = (h' op t).1 ∧ R (h op s).2 (h' op t).2) (hst : R s t) :
    p.Alike h h' R s t := by
  induction p generalizing s t with
  | done r => exact ⟨rfl,hst⟩
  | call op k ih =>
    obtain ⟨hreply,hnext⟩ := hR op s t hp.1 hst
    have hrest := ih (h op s).1 (hp.2 _) hnext
    unfold Alike at hrest ⊢
    rw [run,run,← hreply]
    exact hrest

end alike

/-- A program of such calls that stops at the first bad reply fails, or returns what it does over the view itself. -/
theorem Strict.run_view {view : σ → τ} {h' : (op : Op) → τ → Reply op × τ} (hp : p.Strict Good Bad) (hk : p.Only Kind)
    (ha : ∀ op s, Good op (h op s).1 ∨ Bad op (h op s).1) (hv : ∀ op s, Kind op → view (h op s).2 = view s)
    (hg : ∀ op s, Kind op → Good op (h op s).1 → h' op (view s) = ((h op s).1,view s)) (s : σ) :
    (∃ e, (p.run h s).1 = .err e) ∨ p.run h' (view s) = ((p.run h s).1,view s) := by
  induction p generalizing s with
  | done r => exact .inr rfl
  | call op k ih =>
    rcases ha op s with hgood | hbad
    · rcases ih _ (hp.1 _ hgood) (hk.2 _) (h op s).2 with he | he
      · exact .inl he
      · refine .inr ?_
        rw [hv op s hk.1] at he
        change (k (h' op (view s)).1).run h' (h' op (view s)).2 = _
        rw [hg op s hk.1 hgood]
        exact he
    · exact .inl ((hp.2 _ hbad).run (h := h) (h op s).2)

end runs
end ImgVhdx.Lib.Prog
