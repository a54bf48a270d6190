import ImgVhdx.Reader.Claims

/-! What the allocation lock keeps: the length behind it never passes the file's, no two
allocations have a block in common, and an entry shows in memory after its block was zeroed. -/
namespace ImgVhdx
open Lib

def DevOp.refusal (e : FsError) : (op : DevOp) → Option op.Reply
  | .size => none
  | .read _ _ => some (.error e)
  | .write _ _ => some (.error e)
  | .setLen _ => some (.error e)
  | .flush => some (.error e)

/-- A reader over a device that refuses its `n`-th call where `faults n` says so. -/
structure Flaky where
  world : World
  faults : Nat → Option FsError

/-- A refused call has no effect. -/
def Flaky.handle : (op : ReaderOp) → Flaky → op.Reply × Flaky
  | .dev op, f =>
    match (f.faults 0).bind fun e => op.refusal e with
    | some reply => (reply,⟨f.world,fun n => f.faults (n+1)⟩)
    | none => ((f.world.handle (.dev op)).1,⟨(f.world.handle (.dev op)).2,fun n => f.faults (n+1)⟩)
  | op, f => ((f.world.handle op).1,⟨(f.world.handle op).2,f.faults⟩)

def Flaky.free (f : Flaky) (op : ReaderOp) : Prop := f.world.free op

private theorem Flaky.handle_setLen (f : Flaky) (n : Nat) :
    (∃ e, (f.handle (.dev (.setLen n))).1 = .error e ∧ (f.handle (.dev (.setLen n))).2.world = f.world) ∨
    ((f.handle (.dev (.setLen n))).1 = .ok () ∧
      (f.handle (.dev (.setLen n))).2.world = { f.world with dev := f.world.dev.resize n }) := by
  cases hf : f.faults 0 with
  | some e =>
    left
    simp only [Flaky.handle,hf,Option.bind_some,DevOp.refusal]
    exact ⟨e,rfl,trivial⟩
  | none =>
    simp only [Flaky.handle,hf,Option.bind_none]
    change (∃ e, (f.world.dev.setLen n).1 = .error e ∧ { f.world with dev := (f.world.dev.setLen n).2 } = f.world) ∨
      ((f.world.dev.setLen n).1 = .ok () ∧ { f.world with dev := (f.world.dev.setLen n).2 } = _)
    rcases f.world.dev.setLen_cases n with ⟨-,he⟩ | ⟨-,he⟩
    · exact .inl ⟨_,by rw [he],by rw [he]⟩
    · exact .inr ⟨by rw [he],by rw [he]⟩

abbrev Event := (op : ReaderOp) × op.Reply

abbrev History := List Event

def record (m : History) (op : ReaderOp) (reply : op.Reply) : History := m ++ [⟨op,reply⟩]

/-- The block an extension of the file made room for. -/
def Event.claim (r : VhdxReader) : Event → Option Nat
  | ⟨.dev (.setLen n),.ok ()⟩ => some (n - r.blockSize)
  | _ => none

def claims (r : VhdxReader) (m : History) : List Nat := m.filterMap (Event.claim r)

def Zeroed (r : VhdxReader) (m : History) (off : Nat) :
    Prop := (⟨.dev (.write off (zeros r.blockSize)),.ok ()⟩ : Event) ∈ m

/-- A request on a reader. -/
inductive Request where
  | read (offset len : Nat)
  | write (offset : Nat) (buf : Bytes)

def Request.prog [Crc32c] (r : VhdxReader) : Request → ReaderProg Bytes
  | .read offset len => readAt r offset len
  | .write offset buf => do
    writeAt r offset buf
    return []

def requestsFrom [Crc32c] {ι : Type} (r : VhdxReader) (f : Flaky) (requests : ι → Request) :
    Pool ι ReaderOp ReaderOp.Reply Error Bytes Flaky History where
  state := f
  prog t := (requests t).prog r
  seen _ := []

/-- What the allocations so far have claimed, zeroed and stored. -/
structure Allocations {ι : Type} (r : VhdxReader) (opened : ReaderState) (w : World) (m : ι → History) : Prop where
  le : w.devSize ≤ w.dev.size
  inside : ∀ t, ∀ off ∈ claims r (m t), opened.devSize ≤ off ∧ off + r.blockSize ≤ w.dev.size
  apart : ∀ (t u : ι) (j k a b : Nat), (claims r (m t))[j]? = some a → (claims r (m u))[k]? = some b → (t,j) ≠ (u,k) →
    (blockSpan r a).Apart (blockSpan r b)
  stored : ∀ (t : ι) (k i : Nat) (e : BatEntry), (m t)[k]? = some ⟨.storeBat i e,true⟩ → ∃ off,
    e = ⟨.fullyPresent,off⟩ ∧ off + r.blockSize ≤ w.devSize ∧
    off ∈ claims r ((m t).take k) ∧ Zeroed r ((m t).take k) off
  bat : ∀ (i : Nat) (e : BatEntry), w.bat[i]? = some e → opened.bat[i]? = some e ∨ ∃ t, ⟨.storeBat i e,true⟩ ∈ m t

section step
variable {ι : Type} [DecidableEq ι] {r : VhdxReader} {opened : ReaderState} {w w' : World} {m : ι → History} {t : ι} {x : Event}

private theorem claims_append (m : History) (x : Event) : claims r (m ++ [x]) = claims r m ++ (x.claim r).toList := by
  rw [claims,List.filterMap_append]
  cases hx : x.claim r <;> simp [claims,hx]

/-- A claim after an event was one before it, or is the one the event made. -/
private theorem claim_cases {u : ι} {j a : Nat} (h : (claims r (Function.update m t (m t ++ [x]) u))[j]? = some a) :
    (claims r (m u))[j]? = some a ∨ (u = t ∧ j = (claims r (m t)).length ∧ x.claim r = some a) := by
  by_cases hu : u = t
  · subst hu
    rw [Function.update_self,claims_append,List.getElem?_append] at h
    split_ifs at h with hj
    · exact .inl h
    · refine .inr ⟨rfl,?_⟩
      obtain ⟨hk,hx⟩ := List.getElem?_eq_some_iff.mp h
      cases hc : x.claim r with
      | none => simp [hc] at hk
      | some b =>
        simp only [hc,Option.toList_some,List.length_singleton] at hk hx
        obtain rfl : b = a := by simpa [hc] using hx
        exact ⟨by omega,rfl⟩
  · rw [Function.update_of_ne hu] at h
    exact .inl h

/-- One event of one call: the claim it makes is past the file's end, and what it stores was claimed and zeroed before. -/
theorem Allocations.step (h : Allocations r opened w m) (hdev : w.devSize ≤ w'.devSize)
    (hsize : w.dev.size ≤ w'.dev.size) (hle : w'.devSize ≤ w'.dev.size)
    (hclaim : ∀ a, x.claim r = some a → opened.devSize ≤ a ∧ w.dev.size ≤ a ∧ a + r.blockSize ≤ w'.dev.size)
    (hstored : ∀ i e, x = ⟨.storeBat i e,true⟩ → ∃ off, e = ⟨.fullyPresent,off⟩ ∧ off + r.blockSize ≤ w'.devSize ∧
      off ∈ claims r (m t) ∧ Zeroed r (m t) off)
    (hbat : ∀ (i : Nat) (e : BatEntry), w'.bat[i]? = some e → w.bat[i]? = some e ∨ x = ⟨.storeBat i e,true⟩) :
    Allocations r opened w' (Function.update m t (m t ++ [x])) where
  le := hle
  inside u off hoff := by
    obtain ⟨j,hj⟩ := List.mem_iff_getElem?.mp hoff
    rcases claim_cases hj with hj | ⟨-,-,hx⟩
    · obtain ⟨hlo,hhi⟩ := h.inside u off (List.mem_of_getElem? hj)
      exact ⟨hlo,hhi.trans hsize⟩
    · exact ⟨(hclaim off hx).1,(hclaim off hx).2.2⟩
  apart u v j k a b ha hb hne := by
    -- what is claimed now lies past all that was claimed before
    have hpast : ∀ u a c, a ∈ claims r (m u) → x.claim r = some c → (blockSpan r a).Apart (blockSpan r c) := by
      intro u a c ha hc
      have hend := (h.inside u a ha).2
      have hnew := (hclaim c hc).2.1
      simp only [Span.Apart,Span.stop,blockSpan]
      omega
    rcases claim_cases ha with hold | ⟨rfl,rfl,hx⟩
    · rcases claim_cases hb with hold' | ⟨-,-,hy⟩
      · exact h.apart u v j k a b hold hold' hne
      · exact hpast u a b (List.mem_of_getElem? hold) hy
    · rcases claim_cases hb with hold | ⟨rfl,rfl,-⟩
      · exact (hpast v b a (List.mem_of_getElem? hold) hx).symm
      · exact absurd rfl hne
  stored u k i e hk := by
    by_cases hu : u = t
    · subst hu
      rw [Function.update_self] at hk ⊢
      by_cases hlt : k < (m u).length
      · rw [List.getElem?_append_left hlt] at hk
        obtain ⟨off,he,hin,hc,hz⟩ := h.stored u k i e hk
        rw [List.take_append_of_le_length hlt.le]
        exact ⟨off,he,hin.trans hdev,hc,hz⟩
      · obtain ⟨hlen,hx⟩ := List.getElem?_eq_some_iff.mp hk
        rw [List.length_append,List.length_singleton] at hlen
        obtain rfl : k = (m u).length := by omega
        rw [List.getElem_append_right le_rfl] at hx
        rw [List.take_left]
        exact hstored i e (by simpa using hx)
    · rw [Function.update_of_ne hu] at hk ⊢
      obtain ⟨off,he,hin,hcz⟩ := h.stored u k i e hk
      exact ⟨off,he,hin.trans hdev,hcz⟩
  bat i e he := by
    rcases hbat i e he with he | rfl
    · rcases h.bat i e he with he | ⟨u,hu⟩
      · exact .inl he
      · refine .inr ⟨u,?_⟩
        by_cases hut : u = t
        · subst hut
          rw [Function.update_self]
          exact List.mem_append_left _ hu
        · rwa [Function.update_of_ne hut]
    · refine .inr ⟨t,?_⟩
      rw [Function.update_self]
      exact List.mem_append_right _ List.mem_cons_self

end step

structure Taken (r : VhdxReader) (m : History) (off : Nat) : Prop where
  claimed : off ∈ claims r m
  aligned : oneMib ∣ off
  small : off < 2^64

namespace Claiming

def locks : Claiming → Bool
  | .sizing _ | .extended _ | .refusing _ => true
  | _ => false

def Own (r : VhdxReader) (w : World) (m : History) : Claiming → Prop
  | .idle => True
  | .sizing n | .refusing n => w.sizeHeld = true ∧ w.devSize = n ∧ w.dev.size = n
  | .extended n => w.sizeHeld = true ∧ w.devSize = n ∧ w.dev.size = tailOffset r n + r.blockSize ∧ n ≤ tailOffset r n ∧
    Taken r m (tailOffset r n)
  | .claimed off => off + r.blockSize ≤ w.devSize ∧ Taken r m off
  | .zeroed off => off + r.blockSize ≤ w.devSize ∧ Taken r m off ∧ Zeroed r m off

end Claiming

/-- Whoever is behind the lock is there alone, and while nobody is the length behind it is the file's. -/
structure Locked {ι : Type} (r : VhdxReader) (opened : ReaderState) (w : World) (L : ι → Claiming) (m : ι → History) : Prop where
  allocations : Allocations r opened w m
  grown : opened.devSize ≤ w.devSize
  free : w.sizeHeld = false → w.dev.size = w.devSize
  own : ∀ t, (L t).Own r w (m t)
  one : ∀ t u, (L t).locks = true → (L u).locks = true → t = u

section move
variable {ι : Type} [DecidableEq ι] {r : VhdxReader} {opened : ReaderState} {w w' : World} {L : ι → Claiming}
  {m : ι → History} {t : ι}
  {p p' : Claiming} {x : Event} {op : ReaderOp}

theorem Taken.mono {n : History} {off : Nat} (h : Taken r n off) : Taken r (n ++ [x]) off where
  claimed := by
    rw [claims_append]
    exact List.mem_append_left _ h.claimed
  aligned := h.aligned
  small := h.small

/-- The others may count on what they could, where what is behind the lock stands as it did. -/
theorem Claiming.Own.congr {n : History} (h : p.Own r w n) (hdev : w.devSize ≤ w'.devSize)
    (hlock : p.locks = true → w'.sizeHeld = w.sizeHeld ∧ w'.devSize = w.devSize ∧ w'.dev.size = w.dev.size) :
    p.Own r w' n := by
  cases p with
  | idle => trivial
  | sizing k =>
    obtain ⟨h1,h2,h3⟩ := hlock rfl
    exact ⟨h1.trans h.1,h2.trans h.2.1,h3.trans h.2.2⟩
  | refusing k =>
    obtain ⟨h1,h2,h3⟩ := hlock rfl
    exact ⟨h1.trans h.1,h2.trans h.2.1,h3.trans h.2.2⟩
  | extended k =>
    obtain ⟨h1,h2,h3⟩ := hlock rfl
    exact ⟨h1.trans h.1,h2.trans h.2.1,h3.trans h.2.2.1,h.2.2.2⟩
  | claimed off => exact ⟨h.1.trans hdev,h.2⟩
  | zeroed off => exact ⟨h.1.trans hdev,h.2⟩

/-- And so may the call itself after an event that leaves it where it stands. -/
theorem Claiming.Own.mono {n : History} (h : p.Own r w n) : p.Own r w (n ++ [x]) := by
  cases p with
  | idle => trivial
  | sizing k => exact h
  | refusing k => exact h
  | extended k => exact ⟨h.1,h.2.1,h.2.2.1,h.2.2.2.1,h.2.2.2.2.mono⟩
  | claimed off => exact ⟨h.1,h.2.mono⟩
  | zeroed off => exact ⟨h.1,h.2.1.mono,List.mem_append_left _ h.2.2⟩

theorem Locked.update (h : Locked r opened w L m) (ha : Allocations r opened w' (Function.update m t (m t ++ [x])))
    (hdev : w.devSize ≤ w'.devSize) (hfree : w'.sizeHeld = false → w'.dev.size = w'.devSize)
    (ho : p'.Own r w' (m t ++ [x]))
    (hothers : ∀ u, u ≠ t → (L u).locks = true → w'.sizeHeld = w.sizeHeld ∧ w'.devSize = w.devSize ∧
      w'.dev.size = w.dev.size)
    (hone : p'.locks = true → ∀ u, u ≠ t → (L u).locks = false) :
    Locked r opened w' (Function.update L t p') (Function.update m t (m t ++ [x])) where
  allocations := ha
  grown := h.grown.trans hdev
  free := hfree
  own u := by
    by_cases hu : u = t
    · subst hu
      rw [Function.update_self,Function.update_self]
      exact ho
    · rw [Function.update_of_ne hu,Function.update_of_ne hu]
      exact (h.own u).congr hdev (hothers u hu)
  one u v hu hv := by
    by_cases hut : u = t
    · subst hut
      by_cases hvt : v = u
      · exact hvt.symm
      · rw [Function.update_self] at hu
        rw [Function.update_of_ne hvt,hone hu v hvt] at hv
        cases hv
    · rw [Function.update_of_ne hut] at hu
      by_cases hvt : v = t
      · subst hvt
        rw [Function.update_self] at hv
        rw [hone hv u hut] at hu
        cases hu
      · rw [Function.update_of_ne hvt] at hv
        exact h.one u v hu hv

/-- A step that neither moves an end nor stores an entry. -/
theorem Locked.still (h : Locked r opened w L m) (hdev : w'.devSize = w.devSize) (hsize : w'.dev.size = w.dev.size)
    (hbat : w'.bat = w.bat) (hx : x.claim r = none) (hs : ∀ i e, x ≠ ⟨.storeBat i e,true⟩)
    (hfree : w'.sizeHeld = false → w'.dev.size = w'.devSize) (ho : p'.Own r w' (m t ++ [x]))
    (hothers : ∀ u, u ≠ t → (L u).locks = true → w'.sizeHeld = w.sizeHeld)
    (hone : p'.locks = true → ∀ u, u ≠ t → (L u).locks = false) :
    Locked r opened w' (Function.update L t p') (Function.update m t (m t ++ [x])) := by
  refine h.update (h.allocations.step hdev.ge hsize.ge ?_ ?_ ?_ ?_) hdev.ge hfree ho
    (fun u hu hl => ⟨hothers u hu hl,hdev,hsize⟩) hone
  · rw [hdev,hsize]
    exact h.allocations.le
  · intro a ha
    rw [hx] at ha
    cases ha
  · exact fun i e he => absurd he (hs i e)
  · intro i e he
    rw [hbat] at he
    exact .inl he

omit [DecidableEq ι] in
theorem Locked.held (h : Locked r opened w L m) (hl : (L t).locks = true) : w.sizeHeld = true := by
  have ho := h.own t
  cases hp : L t with
  | sizing n => exact (hp ▸ ho).1
  | refusing n => exact (hp ▸ ho).1
  | extended n => exact (hp ▸ ho).1
  | _ =>
    rw [hp] at hl
    cases hl

omit [DecidableEq ι] in
/-- Whoever is behind the lock leaves the others outside. -/
private theorem Locked.others (h : Locked r opened w L m) (hl : (L t).locks = true) (u : ι) (hu : u ≠ t) :
    (L u).locks = false := by
  rw [Bool.eq_false_iff]
  exact fun hlu => hu (h.one u t hlu hl)

/-- A quiet call leaves both ends and the BAT in memory alone. -/
theorem ReaderOp.Quiet.handle (hq : op.Quiet) (w : World) :
    (w.handle op).2.devSize = w.devSize ∧ (w.handle op).2.sizeHeld = w.sizeHeld ∧
    (w.handle op).2.dev.size = w.dev.size ∧ (w.handle op).2.bat = w.bat := by
  cases op with
  | dev op =>
    refine ⟨rfl,rfl,?_,rfl⟩
    cases op with
    | write off bs =>
      change (w.dev.writeAt off bs).2.size = _
      rcases w.dev.writeAt_cases off bs with ⟨e,he⟩ | ⟨-,-,he⟩
      · rw [he]
      · rw [he,Device.size_put]
    | setLen n => cases hq
    | size => rfl
    | read off len => rfl
    | flush => rfl
  | lockSize => cases hq
  | unlockSize n => cases hq
  | storeBat i e => cases hq
  | loadSize => exact ⟨rfl,rfl,rfl,rfl⟩
  | lockHeader => exact ⟨rfl,rfl,rfl,rfl⟩
  | unlockHeader x s => exact ⟨rfl,rfl,rfl,rfl⟩
  | loadBat i => exact ⟨rfl,rfl,rfl,rfl⟩

theorem Flaky.quiet (f : Flaky) (hq : op.Quiet) : (f.handle op).2.world.devSize = f.world.devSize ∧
    (f.handle op).2.world.sizeHeld = f.world.sizeHeld ∧ (f.handle op).2.world.dev.size = f.world.dev.size ∧
    (f.handle op).2.world.bat = f.world.bat := by
  cases op with
  | dev o =>
    cases hr : (f.faults 0).bind fun e => o.refusal e with
    | none =>
      simp only [Flaky.handle,hr]
      exact hq.handle f.world
    | some reply =>
      simp only [Flaky.handle,hr]
      exact ⟨trivial,trivial,trivial,trivial⟩
  | _ => exact hq.handle f.world

theorem ReaderOp.Quiet.claim (hq : op.Quiet) (reply : op.Reply) : Event.claim r ⟨op,reply⟩ = none := by
  cases op with
  | dev op =>
    cases op with
    | setLen n => cases hq
    | _ => rfl
  | _ => rfl

private theorem ReaderOp.Quiet.ne_storeBat (hq : op.Quiet) (reply : op.Reply) (i : Nat) (e : BatEntry) :
    (⟨op,reply⟩ : Event) ≠ ⟨.storeBat i e,true⟩ := by
  intro he
  cases congrArg Sigma.fst he
  exact hq

omit [DecidableEq ι] in
private theorem Locked.owns (h : Locked r opened w L m) (hp : L t = p) : p.Own r w (m t) := hp ▸ h.own t

omit [DecidableEq ι] in
private theorem Locked.locksOthers (h : Locked r opened w L m) (hp : L t = p) (hl : p.locks = true) (u : ι) (hu : u ≠ t) :
    (L u).locks = false :=
  h.others (hp ▸ hl) u hu

/-- A call that neither takes the lock nor gives it back, by one that stands as it did or has only zeroed its claim. -/
private theorem Locked.quiet {f : Flaky} (h : Locked r opened f.world L m) (hq : op.Quiet)
    (ho : p'.Own r (f.handle op).2.world (m t ++ [⟨op,(f.handle op).1⟩])) (hl : p'.locks = true → (L t).locks = true) :
    Locked r opened (f.handle op).2.world (Function.update L t p')
    (Function.update m t (m t ++ [⟨op,(f.handle op).1⟩])) := by
  obtain ⟨hdev,hheld,hsize,hbat⟩ := f.quiet hq
  refine h.still hdev hsize hbat (hq.claim _) (hq.ne_storeBat _) (fun hf => ?_) ho (fun _ _ _ => hheld) fun hp =>
    h.others (hl hp)
  rw [hsize,hdev]
  exact h.free (hheld ▸ hf)

omit [DecidableEq ι] in
private theorem Locked.ownQuiet {f : Flaky} (h : Locked r opened f.world L m) (hp : L t = p) (hq : op.Quiet) :
    p.Own r (f.handle op).2.world (m t ++ [⟨op,(f.handle op).1⟩]) := by
  obtain ⟨hdev,hheld,hsize,-⟩ := f.quiet hq
  exact ((h.owns hp).congr hdev.ge fun _ => ⟨hheld,hdev,hsize⟩).mono

/-- The lock was free, so the length behind it is the file's. -/
private theorem Locked.lockSize (h : Locked r opened w L m) (hf : w.sizeHeld = false) :
    Locked r opened { w with sizeHeld := true } (Function.update L t (.sizing w.devSize))
      (Function.update m t (m t ++ [⟨.lockSize,w.devSize⟩])) := by
  have hnone : ∀ u, (L u).locks = true → False := by
    intro u hl
    rw [h.held hl] at hf
    cases hf
  exact h.still rfl rfl rfl rfl (fun _ _ he => by cases he) (fun hh => by cases hh) ⟨rfl,rfl,h.free hf⟩
    (fun u _ hl => (hnone u hl).elim) fun _ u _ => Bool.eq_false_iff.mpr (hnone u)

/-- A block's room past the end of the file is claimed by lengthening it. -/
private theorem Locked.extend {n : Nat} (h : Locked r opened w L m) (hp : L t = .sizing n)
    (hn : n + (r.blockSize - 1) < 2^64) (hroom : tailOffset r n + r.blockSize < 2^64) :
    Locked r opened { w with dev := w.dev.resize (tailOffset r n + r.blockSize) } (Function.update L t (.extended n))
      (Function.update m t (m t ++ [⟨.dev (.setLen (tailOffset r n + r.blockSize)),.ok ()⟩])) := by
  obtain ⟨hheld,hdev,hsize⟩ := h.owns hp
  obtain ⟨hle,hdvd,-⟩ := tailOffset_spec hn
  have hwhere : Event.claim r ⟨.dev (.setLen (tailOffset r n + r.blockSize)),.ok ()⟩ = some (tailOffset r n) :=
    congrArg some (Nat.add_sub_cancel ..)
  refine h.update (h.allocations.step le_rfl ?_ ?_ ?_ (fun _ _ he => by cases he) fun i e he => .inl he) le_rfl
    (fun hf => ?_) ?_
    (fun u hu hl => ?_) fun _ => h.locksOthers hp rfl
  · exact hsize.le.trans (hle.trans (Nat.le_add_right _ _))
  · exact hdev.le.trans (hle.trans (Nat.le_add_right _ _))
  · intro a ha
    obtain rfl : tailOffset r n = a := Option.some.inj (hwhere.symm.trans ha)
    exact ⟨h.grown.trans (hdev.le.trans hle),hsize.le.trans hle,le_rfl⟩
  · rw [show w.sizeHeld = false from hf] at hheld
    cases hheld
  · refine ⟨hheld,hdev,rfl,hle,?_,r.oneMib_dvd.trans hdvd,by omega⟩
    rw [claims_append,hwhere]
    exact List.mem_append_right _ List.mem_cons_self
  · rw [h.locksOthers hp rfl u hu] at hl
    cases hl

/-- Refused, the call still has the lock. -/
private theorem Locked.refuse {n k : Nat} {e : FsError} (h : Locked r opened w L m) (hp : L t = .sizing n) :
    Locked r opened w (Function.update L t (.refusing n))
    (Function.update m t (m t ++ [⟨.dev (.setLen k),.error e⟩])) :=
  h.still rfl rfl rfl rfl (fun _ _ he => by cases he) h.free (h.owns hp) (fun _ _ _ => rfl) fun _ =>
    h.locksOthers hp rfl

private theorem Locked.refused {n : Nat} (h : Locked r opened w L m) (hp : L t = .refusing n) :
    Locked r opened { w with devSize := n, sizeHeld := false } (Function.update L t .idle)
      (Function.update m t (m t ++ [⟨.unlockSize n,()⟩])) := by
  obtain ⟨hheld,hdev,hsize⟩ := h.owns hp
  refine h.still hdev.symm rfl rfl rfl (fun _ _ he => by cases he) (fun _ => hsize) trivial (fun u hu hl => ?_)
    fun hl => by cases hl
  rw [h.locksOthers hp rfl u hu] at hl
  cases hl

/-- The lock is given back with the length it was taken for. -/
private theorem Locked.claim {n : Nat} (h : Locked r opened w L m) (hp : L t = .extended n) :
    Locked r opened { w with devSize := tailOffset r n + r.blockSize, sizeHeld := false }
      (Function.update L t (.claimed (tailOffset r n)))
        (Function.update m t (m t ++ [⟨.unlockSize (tailOffset r n + r.blockSize),()⟩])) := by
  obtain ⟨hheld,hdev,hsize,hle,htaken⟩ := h.owns hp
  have hgrow : w.devSize ≤ tailOffset r n + r.blockSize := hdev.le.trans (hle.trans (Nat.le_add_right _ _))
  refine h.update (h.allocations.step hgrow le_rfl hsize.ge (fun _ ha => by cases ha) (fun _ _ he => by cases he)
    fun i e he => .inl he) hgrow
    (fun _ => hsize) ⟨le_rfl,htaken.mono⟩ (fun u hu hl => ?_) fun hl => by cases hl
  rw [h.locksOthers hp rfl u hu] at hl
  cases hl

/-- What is stored was claimed and zeroed. -/
private theorem Locked.storeBat {i off : Nat} (h : Locked r opened w L m) (hp : L t = .zeroed off) :
    Locked r opened { w with bat := w.bat.set i (.fromU64 (presentRaw off)) } (Function.update L t .idle)
      (Function.update m t (m t ++ [⟨.storeBat i (.fromU64 (presentRaw off)),decide (i < w.bat.length)⟩])) := by
  obtain ⟨hin,htaken,hzero⟩ := h.owns hp
  refine h.update (h.allocations.step le_rfl le_rfl h.allocations.le (fun _ ha => by cases ha) ?_ fun j e he => ?_)
    le_rfl h.free trivial
    (fun _ _ _ => ⟨rfl,rfl,rfl⟩) fun hl => by cases hl
  · intro j e he
    obtain ⟨-,rfl⟩ := ReaderOp.storeBat.inj (congrArg Sigma.fst he)
    exact ⟨off,fromU64_presentRaw htaken.aligned htaken.small,hin,htaken.claimed,hzero⟩
  · by_cases hij : i = j
    · subst hij
      obtain ⟨hlt,he⟩ := List.getElem?_eq_some_iff.mp
        (show (w.bat.set i (.fromU64 (presentRaw off)))[i]? = some e from he)
      rw [List.length_set] at hlt
      rw [List.getElem_set_self] at he
      exact .inr (by rw [he,decide_eq_true hlt])
    · exact .inl ((List.getElem?_set_ne hij).symm.trans he)

/-- Every move of every call keeps the lock's invariant. -/
theorem Locked.move {f : Flaky} (h : Locked r opened f.world L m) (hfree : f.free op)
    (hm : ClaimMove r (L t) op (f.handle op).1 p') :
    Locked r opened (f.handle op).2.world (Function.update L t p')
    (Function.update m t (record (m t) op (f.handle op).1)) := by
  unfold record
  generalize hr : (f.handle op).1 = reply at hm
  generalize hL : L t = p at hm
  cases hm with
  | quiet hq => exact hr ▸ h.quiet hq (h.ownQuiet hL hq) fun hl => hL ▸ hl
  | lockSize =>
    obtain rfl := hr
    exact h.lockSize hfree
  | extend hn hroom =>
    obtain ⟨e,he,-⟩ | ⟨-,hw⟩ := f.handle_setLen _
    · rw [hr] at he
      cases he
    rw [hw]
    exact h.extend hL hn hroom
  | refuse =>
    obtain ⟨e',-,hw⟩ | ⟨he,-⟩ := f.handle_setLen _
    · rw [hw]
      exact h.refuse hL
    · rw [hr] at he
      cases he
  | refused => exact h.refused hL
  | claim => exact h.claim hL
  | @zero off =>
    obtain ⟨hin,htaken⟩ := h.ownQuiet hL (show (ReaderOp.dev (.write off (zeros r.blockSize))).Quiet from trivial)
    rw [← hr]
    refine h.quiet trivial ⟨hin,htaken,?_⟩ fun hl => by cases hl
    rw [hr]
    exact List.mem_append_right _ List.mem_cons_self
  | storeBat =>
    obtain rfl := hr
    exact h.storeBat hL

omit [DecidableEq ι] in
/-- And moves neither end back. -/
theorem Locked.grows {f : Flaky} (h : Locked r opened f.world L m) (hm : ClaimMove r (L t) op (f.handle op).1 p') :
    f.world.devSize ≤ (f.handle op).2.world.devSize ∧ f.world.dev.size ≤ (f.handle op).2.world.dev.size := by
  have hown := h.own t
  have hquiet : op.Quiet → f.world.devSize ≤ (f.handle op).2.world.devSize ∧
    f.world.dev.size ≤ (f.handle op).2.world.dev.size :=
    fun hq => ⟨(f.quiet hq).1.ge,(f.quiet hq).2.2.1.ge⟩
  generalize hr : (f.handle op).1 = reply at hm
  generalize L t = p at hm hown
  cases hm with
  | quiet hq => exact hquiet hq
  | lockSize => exact ⟨le_rfl,le_rfl⟩
  | @extend n hn hroom =>
    rcases f.handle_setLen (tailOffset r n + r.blockSize) with ⟨-,-,hw⟩ | ⟨-,hw⟩
    · rw [hw]
      exact ⟨le_rfl,le_rfl⟩
    · rw [hw]
      exact ⟨le_rfl,hown.2.2.le.trans ((tailOffset_spec hn).1.trans (Nat.le_add_right _ _))⟩
  | @refuse n k e =>
    rcases f.handle_setLen k with ⟨-,-,hw⟩ | ⟨he,-⟩
    · rw [hw]
      exact ⟨le_rfl,le_rfl⟩
    · rw [hr] at he
      cases he
  | refused => exact ⟨hown.2.1.le,le_rfl⟩
  | claim => exact ⟨hown.2.1.le.trans (hown.2.2.2.1.trans (Nat.le_add_right _ _)),le_rfl⟩
  | zero => exact hquiet trivial
  | storeBat => exact ⟨le_rfl,le_rfl⟩

end move

section run
variable {ι : Type} [DecidableEq ι] [Crc32c] {r : VhdxReader}

omit [DecidableEq ι] in
private theorem claims_prog {σ : Type} {h : (op : ReaderOp) → σ → op.Reply × σ} (q : Request) :
    Claims r h (fun l _ => l = .idle) (q.prog r) .idle := by
  cases q with
  | read offset len => exact claims_quiet ((reads_readAt offset len).mono fun _ => ReaderOp.Reads.quiet)
  | write offset buf =>
    refine (claims_writeAt offset buf).bind ?_
    rintro _ _ rfl
    exact rfl

/-- A reader that has opened goes by the length its device then has. -/
private theorem devSize_of_opened {d d' : Device} {s : ReaderState}
    (h : (openOnDevice d).on d = (.ok (r,s),d') ∨ (openRwOnDevice d).on d = (.ok (r,s),d')) : s.devSize = d'.size := by
  have hinner : ∃ writable rc, (rc = true → d.writable = true) ∧ (openInner writable rc).on d = (.ok (r,s),d') := by
    rcases h with h | h
    · exact ⟨false,d.writable,id,h⟩
    · unfold openRwOnDevice at h
      split_ifs at h with hw
      · exact ⟨true,true,fun _ => hw,h⟩
      · cases (Prod.mk.inj h).1
  obtain ⟨writable,rc,hw,h⟩ := hinner
  obtain ⟨header,slot,chain,regions,hopened,rfl⟩ := openInner_inv hw h
  rw [(loadDisk_inv hopened.loads).2.1,Device.opened]
  split_ifs with hc
  · rw [List.isEmpty_iff.mp hc,Device.replayed_nil]
  · rfl

/-- Any number of reads and writes on one reader, in turns, each of the device's calls free to fail: at
every step the length behind the lock is within the file's and neither goes back, no two claims share a
byte, all lie past the file as it was opened, and what is stored was claimed and zeroed. -/
theorem allocation_lock_holds {d d' : Device} {s : ReaderState}
    (hopen : (openOnDevice d).on d = (.ok (r,s),d') ∨ (openRwOnDevice d).on d = (.ok (r,s),d'))
    (faults : Nat → Option FsError) (requests : ι → Request)
    {c : Pool ι ReaderOp ReaderOp.Reply Error Bytes Flaky History}
    (hrun : Pool.Steps Flaky.handle record Flaky.free (fun _ _ _ _ => True)
      (requestsFrom r ⟨s.start d',faults⟩ requests) c) :
    s.devSize = d'.size ∧ Allocations r s c.state.world c.seen ∧
      ∀ c', Pool.Steps Flaky.handle record Flaky.free (fun _ _ _ _ => True) c c' →
        c.state.world.devSize ≤ c'.state.world.devSize ∧ c.state.world.dev.size ≤ c'.state.world.dev.size := by
  have hsize := devSize_of_opened hopen
  have hstart : Locked r s (s.start d') (fun _ : ι => .idle) fun _ => [] := {
    allocations := {
      le := hsize.le
      inside := fun _ _ h => by cases h
      apart := fun _ _ _ _ _ _ h => by cases h
      stored := fun _ _ _ _ h => by cases h
      bat := fun _ _ h => .inl h }
    grown := le_rfl
    free := fun _ => hsize.symm
    own := fun _ => trivial
    one := fun _ _ h => by cases h }
  have htracked : c.Tracked Flaky.handle (fun _ => ClaimMove r)
    (fun _ => Prog.orFail (fun l _ => l = .idle) (fun _ _ => True) fun _ => True)
      fun f L m => Locked r s f.world L m :=
    hrun.tracked (fun _ _ _ _ _ _ h hfree _ hm => h.move hfree hm)
      ⟨fun _ => .idle,hstart,fun t => claims_prog (requests t)⟩
  obtain ⟨L,hlocked,hf⟩ := htracked
  refine ⟨hsize,hlocked.allocations,fun c' hrun' => ?_⟩
  -- from here on the ends only grow past where they are now
  have hafter : c'.Tracked Flaky.handle (fun _ => ClaimMove r)
    (fun _ => Prog.orFail (fun l _ => l = .idle) (fun _ _ => True) fun _ => True)
      fun f L m => Locked r s f.world L m ∧ c.state.world.devSize ≤ f.world.devSize ∧
        c.state.world.dev.size ≤ f.world.dev.size :=
    hrun'.tracked (fun _ _ _ _ _ _ h hfree _ hm =>
      ⟨h.1.move hfree hm,h.2.1.trans (h.1.grows hm).1,h.2.2.trans (h.1.grows hm).2⟩)
      ⟨L,⟨hlocked,le_rfl,le_rfl⟩,hf⟩
  obtain ⟨_,⟨-,hgrown⟩,-⟩ := hafter
  exact hgrown

end run

/-- A device that refuses nothing is the one under it. -/
private theorem runs_flaky {α : Type} {p : ReaderProg α} {w w' : World} {o : Outcome Error α}
    (h : p.Runs World.handle World.free w o w') :
    p.Runs Flaky.handle Flaky.free ⟨w,fun _ => none⟩ o ⟨w',fun _ => none⟩ := by
  induction h with
  | done => exact .done
  | @call op k w w' o hfree _ ih =>
    refine .call hfree ?_
    cases op <;> exact ih

section refused
variable {r : VhdxReader} {f : Flaky} {i : Nat} {e : FsError}

private theorem runs_devSetLen_refused {n : Nat} (he : f.faults 0 = some e) :
    (ReaderProg.devSetLen n).Runs Flaky.handle Flaky.free f (.err (fsCoreToVhdxError e))
    ⟨f.world,fun n => f.faults (n+1)⟩ := by
  have hreply : f.handle (.dev (.setLen n)) = (.error e,⟨f.world,fun n => f.faults (n+1)⟩) := by
    simp only [Flaky.handle,he,Option.bind_some,DevOp.refusal]
  refine .call trivial ?_
  rw [hreply]
  exact .done

/-- An allocation whose extension of the file is refused leaves the reader as it was. -/
private theorem runs_allocateBlockFor_refused [Crc32c] (hu : f.world.Unlocked) (he : f.faults 0 = some e)
    (hpad : f.world.devSize + (r.blockSize - 1) < 2^64) (hroom : tailOffset r f.world.devSize + r.blockSize < 2^64) :
    (allocateBlockFor r i).Runs Flaky.handle Flaky.free f (.err (fsCoreToVhdxError e))
    ⟨f.world,fun n => f.faults (n+1)⟩ := by
  obtain ⟨⟨dev,n,held,h,s,hh,bat⟩,faults⟩ := f
  obtain rfl : held = false := hu.size
  unfold allocateBlockFor
  refine .bind (.call hu.size .done)
    (.bind (.lift (Outcome.u64_of_lt hpad)) (.bind (.lift (Outcome.u64_of_lt hroom)) ?_))
  refine .bind_err (.releasing_err (runs_devSetLen_refused he) ?_)
  exact .call trivial .done

end refused

/-- What was claimed stays claimed. -/
private theorem claims_steps {ι : Type} [DecidableEq ι] {r : VhdxReader}
    {cond : Flaky → (ι → History) → ι → ReaderOp → Prop}
    {c c' : Pool ι ReaderOp ReaderOp.Reply Error Bytes Flaky History}
    (hs : Pool.Steps Flaky.handle record Flaky.free cond c c') {t : ι} {off : Nat} (h : off ∈ claims r (c.seen t)) :
    off ∈ claims r (c'.seen t) := by
  induction hs with
  | refl => exact h
  | @tail b _ _ hstep ih =>
    cases hstep with
    | @call i op k hp hfree hcond =>
      change off ∈ claims r (Function.update b.seen i (record (b.seen i) op (b.state.handle op).1) t)
      by_cases hi : t = i
      · subst hi
        rw [Function.update_self,record,claims_append]
        exact List.mem_append_left _ ih
      · rwa [Function.update_of_ne hi]

/-- An entry that was not there when the image was opened names a block that was claimed. -/
theorem Allocations.claimed {ι : Type} {r : VhdxReader} {opened : ReaderState} {w : World} {m : ι → History}
    {i off : Nat} (h : Allocations r opened w m) (hnew : opened.bat[i]? ≠ some ⟨.fullyPresent,off⟩)
    (hp : w.Present i off) :
    ∃ t, off ∈ claims r (m t) := by
  obtain ⟨t,ht⟩ := (h.bat i _ hp).resolve_left hnew
  obtain ⟨k,hk⟩ := List.getElem?_of_mem ht
  obtain ⟨x,hx,-,hclaimed,-⟩ := h.stored t k i _ hk
  obtain rfl : off = x := congrArg BatEntry.fileOffset hx
  exact ⟨t,(List.take_sublist k _).filterMap _ |>.subset hclaimed⟩

def threeWrites : Fin 3 → Request
  | 0 => .write 0 [1]
  | 1 => .write 1 [2]
  | 2 => .write 2 [3]

/-- The last two look the block up, absent, before any of them allocates it; the first is refused the room for it;
then each of the others allocates it. -/
theorem allocation_lock_holds_halfStored :
    letI := castagnoli
    ∃ c c' : Pool (Fin 3) ReaderOp ReaderOp.Reply Error Bytes Flaky History,
      Pool.Steps Flaky.handle record Flaky.free (fun _ _ _ _ => True)
        (requestsFrom halfStored.reader
          ⟨halfStoredState.start halfStored.device,fun n => if n = 0 then some (.io "disk full") else none⟩
          threeWrites) c ∧
      Pool.Steps Flaky.handle record Flaky.free (fun _ _ _ _ => True) c c' ∧
      c.prog 0 = .done (.err (.io "disk full")) ∧ c.prog 1 = .done (.ok []) ∧ c'.prog 2 = .done (.ok []) ∧
      Allocations halfStored.reader halfStoredState c.state.world c.seen ∧
      Allocations halfStored.reader halfStoredState c'.state.world c'.seen ∧
      c.state.world.devSize ≤ c'.state.world.devSize ∧
      ∃ t u, 4194304 ∈ claims halfStored.reader (c'.seen t) ∧ 5242880 ∈ claims halfStored.reader (c'.seen u) := by
  let := castagnoli
  obtain ⟨afterA,hA,allocatesA,-⟩ := exists_afterLookup (r := halfStored.reader) (o := 0) (b := [1]) rfl (by decide)
    (by decide) (by decide)
  obtain ⟨afterB,hB,allocatesB,-⟩ := exists_afterLookup (r := halfStored.reader) (o := 1) (b := [2]) rfl (by decide)
    (by decide) (by decide)
  obtain ⟨afterC,hC,allocatesC,-⟩ := exists_afterLookup (r := halfStored.reader) (o := 2) (b := [3]) rfl (by decide)
    (by decide) (by decide)
  rw [show batIdxOf halfStored.reader 0 = 0 by decide] at hA allocatesA
  rw [show batIdxOf halfStored.reader 1 = 0 by decide] at hB allocatesB
  rw [show batIdxOf halfStored.reader 2 = 0 by decide] at hC allocatesC
  have hw : halfStored.device.writable = true := by simp [Build.device,Device.zeroed]
  have hg : halfStored.device.growable = true := by simp [Build.device,Device.zeroed]
  obtain ⟨faults,hfaults⟩ : ∃ f : Nat → Option FsError, f = fun n => if n = 0 then some (.io "disk full") else none :=
    ⟨_,rfl⟩
  rw [← hfaults]
  have hlook : (ReaderProg.loadBat 0).Runs Flaky.handle Flaky.free ⟨halfStoredState.start halfStored.device,faults⟩
      (.ok (some ⟨.notPresent,0⟩)) ⟨halfStoredState.start halfStored.device,faults⟩ := .call trivial .done
  have hrefused := runs_allocateBlockFor_refused (r := halfStored.reader)
    (f := ⟨halfStoredState.start halfStored.device,faults⟩) (i := 0)
    (e := .io "disk full") ⟨rfl,rfl⟩ (by rw [hfaults]; rfl) (show 4194304 + (oneMib - 1) < 2^64 by decide)
    (show clearLow (4194304 + (oneMib - 1)) oneMib + oneMib < 2^64 by decide)
  rw [show (fun n => faults (n+1)) = fun _ => none from funext fun n =>
    by rw [hfaults]; exact if_neg (Nat.succ_ne_zero n)] at hrefused
  have hrunB : (allocateBlockFor halfStored.reader 0 >>= writePayload halfStored.reader 1 [2]).Runs World.handle World.free
      ⟨halfStored.device,4194304,false,halfStored.header,.one,false,halfStoredState.bat⟩ (.ok ()) _ :=
    runs_allocating (.inl rfl) hw hg (by decide) (by decide : tailOffset halfStored.reader 4194304 = 4194304)
      (by decide) ⟨512,rfl⟩
      (by decide) (by decide) (by decide)
  obtain ⟨dev1,hd1⟩ : ∃ d, d = (halfStored.device.allocated halfStored.reader 0 4194304).put
    (4194304 + 1 % halfStored.reader.blockSize) [2] :=
    ⟨_,rfl⟩
  rw [← hd1] at hrunB
  have hrunC : (allocateBlockFor halfStored.reader 0 >>= writePayload halfStored.reader 2 [3]).Runs World.handle World.free
      ⟨dev1,5242880,false,halfStored.header,.one,false,[⟨.fullyPresent,4194304⟩,⟨.fullyPresent,3145728⟩]⟩ (.ok ()) _ :=
    runs_allocating (.inl rfl) (hd1 ▸ hw) (hd1 ▸ hg) (by decide)
      (by decide : tailOffset halfStored.reader 5242880 = 5242880) (by decide)
      ⟨512,rfl⟩ (by decide) (by decide) (by decide)
  have hfails : (afterA (some ⟨.notPresent,0⟩) >>= fun _ => (pure [] : ReaderProg Bytes)).Runs Flaky.handle Flaky.free
      ⟨halfStoredState.start halfStored.device,faults⟩ (.err (.io "disk full"))
        ⟨halfStoredState.start halfStored.device,fun _ => none⟩ := by
    rw [allocatesA _ rfl]
    exact .bind_err (.bind_err hrefused)
  obtain ⟨c1,h1,hs1,hp1,ho1⟩ := Pool.Steps.turn record Flaky.free (fun _ _ _ _ => True) 1
    (c := requestsFrom halfStored.reader ⟨halfStoredState.start halfStored.device,faults⟩ threeWrites)
    (fun _ _ _ _ hfree => ⟨hfree,trivial⟩) rfl hlook ((congrArg (· >>= _) hB).trans (Prog.bind_assoc ..))
  obtain ⟨c2,h2,hs2,hp2,ho2⟩ := Pool.Steps.turn record Flaky.free (fun _ _ _ _ => True) 2
    (fun _ _ _ _ hfree => ⟨hfree,trivial⟩) hs1 hlook
      ((ho1 2 (by decide)).1.trans ((congrArg (· >>= _) hC).trans (Prog.bind_assoc ..)))
  obtain ⟨c3,h3,hs3,hp3,ho3⟩ := Pool.Steps.finish record Flaky.free (fun _ _ _ _ => True) 0
    (fun _ _ _ _ hfree => ⟨hfree,trivial⟩) hs2 (hlook.bind hfails)
    ((ho2 0 (by decide)).1.trans ((ho1 0 (by decide)).1.trans ((congrArg (· >>= _) hA).trans (Prog.bind_assoc ..))))
  obtain ⟨c,h4,hs4,hp4,ho4⟩ := Pool.Steps.finish record Flaky.free (fun _ _ _ _ => True) 1
    (fun _ _ _ _ hfree => ⟨hfree,trivial⟩) hs3 ((runs_flaky hrunB).bind .done)
    ((ho3 1 (by decide)).1.trans ((ho2 1 (by decide)).1.trans
      (hp1.trans (congrArg (· >>= _) (allocatesB ⟨.notPresent,0⟩ rfl)))))
  obtain ⟨c',h5,hs5,hp5,ho5⟩ := Pool.Steps.finish record Flaky.free (fun _ _ _ _ => True) 2
    (fun _ _ _ _ hfree => ⟨hfree,trivial⟩) hs4 ((runs_flaky hrunC).bind .done)
    ((ho4 2 (by decide)).1.trans ((ho3 2 (by decide)).1.trans
      (hp2.trans (congrArg (· >>= _) (allocatesC ⟨.notPresent,0⟩ rfl)))))
  have hrun := ((h1.trans h2).trans h3).trans h4
  obtain ⟨-,hheld,hgrows⟩ := allocation_lock_holds (.inr halfStored_opensAs.opens) faults threeWrites hrun
  obtain ⟨-,hheld',-⟩ := allocation_lock_holds (.inr halfStored_opensAs.opens) faults threeWrites (hrun.trans h5)
  have hfirst : c.state.world.Present 0 4194304 := by rw [hs4]; rfl
  have hsecond : c'.state.world.Present 0 5242880 := by rw [hs5]; rfl
  obtain ⟨t,ht⟩ := hheld.claimed (by decide) hfirst
  obtain ⟨u,hu⟩ := hheld'.claimed (by decide) hsecond
  exact ⟨c,c',hrun,h5,(ho4 0 (by decide)).1.trans hp3,hp4,hp5,hheld,hheld',(hgrows c' h5).1,t,u,claims_steps h5 ht,hu⟩

end ImgVhdx
