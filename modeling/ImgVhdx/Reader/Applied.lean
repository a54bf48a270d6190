import ImgVhdx.Lib.Writes
import ImgVhdx.Reader.Reopen

/-! Applying a chain on any device, one that may refuse any call of it: nothing is done before every descriptor
was found to fit and the room was made, and then all of it, exactly. -/
namespace ImgVhdx
open Lib DevProg

/-- A device each of whose calls does what it says or, refused, nothing. -/
structure Truthful {σ : Type} (handle : (op : DevOp) → σ → op.Reply × σ) (view : σ → Device) :
    Prop extends Faithful handle view where
  written : ∀ off bs s, (handle (.write off bs) s).1 = .ok () →
    off + bs.length ≤ (view s).size ∧ view (handle (.write off bs) s).2 = (view s).put off bs
  kept : ∀ off bs s e, (handle (.write off bs) s).1 = .error e → view (handle (.write off bs) s).2 = view s
  grown : ∀ n s, (handle (.setLen n) s).1 = .ok () → view (handle (.setLen n) s).2 = (view s).resize n

section truthful
variable {σ α : Type} {handle : (op : DevOp) → σ → op.Reply × σ} {view : σ → Device} {s : σ}

/-- Where no call is refused, a program does what it does over a device that takes every call. -/
private theorem Truthful.run_granted (ht : Truthful handle view) {p : DevProg α}
    (hg : ∀ x ∈ p.events handle s, x.1.Granted x.2) :
    p.on ((view s).withMode true true) = ((p.run handle s).1,(view (p.run handle s).2).withMode true true) := by
  induction p generalizing s with
  | done r => rfl
  | call op k ih =>
    have hfirst := hg _ List.mem_cons_self
    have hrest := ih (handle op s).1 (s := (handle op s).2) fun x hx => hg x (List.mem_cons_of_mem _ hx)
    suffices hstep : Device.handle op ((view s).withMode true true) =
        ((handle op s).1,(view (handle op s).2).withMode true true) by
      change (k (Device.handle op ((view s).withMode true true)).1).run Device.handle
        (Device.handle op ((view s).withMode true true)).2 = _
      rw [hstep]
      exact hrest
    cases op with
    | size =>
      rw [ht.looks .size s rfl]
      exact Prod.ext (ht.size s).symm rfl
    | read off len =>
      obtain ⟨bs,hb⟩ := hfirst
      dsimp only at hb
      rw [ht.looks (.read off len) s rfl,hb]
      exact Prod.ext (ht.read off len s bs hb) rfl
    | flush =>
      have hb : (handle .flush s).1 = .ok () := hfirst
      rw [ht.looks .flush s rfl,hb]
      rfl
    | write off bs =>
      have hb : (handle (.write off bs) s).1 = .ok () := hfirst
      obtain ⟨hin,hview⟩ := ht.written off bs s hb
      rw [hview,hb]
      exact Device.writeAt_of_le rfl hin
    | setLen n =>
      have hb : (handle (.setLen n) s).1 = .ok () := hfirst
      rw [ht.grown n s hb,hb]
      rfl

end truthful

section applied
variable {d : Device} {chain : List LogEntry}

private theorem Device.byte_put_eq_lay {off : Nat} {bs : Bytes} (h : off + bs.length ≤ d.size) :
    (d.put off bs).byte = lay (off,bs) d.byte := by
  funext i
  by_cases hi : off ≤ i ∧ i < off + bs.length
  · obtain ⟨k,rfl⟩ := Nat.exists_eq_add_of_le hi.1
    rw [Device.byte_put_inside h (show k < bs.length by omega)]
    unfold lay
    dsimp only
    rw [if_pos hi.1,Nat.add_sub_cancel_left,List.getElem?_eq_getElem (by omega)]
    rfl
  · rw [Device.byte_put_of_outside (by omega),lay_of_outside (by dsimp only; omega)]

private theorem Device.byte_putAll_eq_layAll {ws : List (Nat × Bytes)} (h : ∀ w ∈ ws, w.1 + w.2.length ≤ d.size) :
    (d.putAll ws).byte = layAll ws d.byte := by
  induction ws generalizing d with
  | nil => rfl
  | cons w ws ih =>
    refine (ih (d := d.put w.1 w.2) fun x hx => h x (List.mem_cons_of_mem _ hx)).trans ?_
    rw [layAll_cons,Device.byte_put_eq_lay (h w List.mem_cons_self)]

/-- The chain's descriptors laid over the bytes there were. -/
theorem Device.byte_replayed (h : checkDescriptors (allowedExtent d.size chain) (descriptorsOf chain) = .ok ()) :
    (d.replayed chain).byte = layAll (writesOf chain) d.byte := by
  unfold Device.replayed
  rw [Device.byte_putAll_eq_layAll fun w hw => ?_]
  · congr 1
    exact funext (Device.byte_resize_of_le (le_allowedExtent _ _))
  · obtain ⟨x,hx,rfl⟩ := List.mem_map.mp hw
    exact (checkDescriptors_eq_ok.mp h x hx).2

/-- Some descriptor runs past the end of the offsets, or past what the chain may grow the device to. -/
def Misfit (size : Nat) (chain : List LogEntry) : Prop :=
  ∃ x ∈ descriptorsOf chain, 2^64 ≤ x.span.1 + x.span.2 ∨ allowedExtent size chain < x.span.1 + x.span.2

theorem checkDescriptors_eq_ok_iff {n : Nat} :
    checkDescriptors (allowedExtent n chain) (descriptorsOf chain) = .ok () ↔ ¬ Misfit n chain := by
  rw [checkDescriptors_eq_ok,Misfit]
  push Not
  simp only [Descriptor.span_write]

private theorem not_covered {i : Nat} (h : ∀ x ∈ descriptorsOf chain, i < x.span.1 ∨ x.span.1 + x.span.2 ≤ i) :
    ¬ Covered (writesOf chain) i := by
  rintro ⟨w,hw,hlo,hhi⟩
  obtain ⟨x,hx,rfl⟩ := List.mem_map.mp hw
  have := h x hx
  rw [x.span_write] at this
  dsimp only at this
  omega

end applied

section refusals
variable {σ : Type} {handle : (op : DevOp) → σ → op.Reply × σ} {view : σ → Device} {s : σ} {chain : List LogEntry}

/-- A chain that does not fit is refused ahead of every call that could change the device. -/
private theorem Truthful.run_applyChain_of_misfit (ht : Truthful handle view) (h : Misfit (view s).size chain) :
    (∃ e, ((applyChain chain).run handle s).1 = .err e) ∧ view ((applyChain chain).run handle s).2 = view s := by
  have hsize : devSize.run handle s = (.ok (view s).size,(handle .size s).2) :=
    Prod.ext (congrArg Outcome.ok (ht.size s)) rfl
  unfold applyChain
  rw [Prog.run_bind_of_ok hsize]
  dsimp only
  cases hc : checkDescriptors (allowedExtent (view s).size chain) (descriptorsOf chain) with
  | ok u => exact absurd h (checkDescriptors_eq_ok_iff.mp hc)
  | panic => exact absurd hc (checkDescriptors_total _)
  | err e => exact ⟨⟨e,rfl⟩,ht.looks .size s rfl⟩

private theorem Faithful.guarded_applyChain (hd : Faithful handle view) :
    Guarded handle view True (applyChain chain) s := by
  unfold applyChain
  refine hd.guarded_bind strict_devSize looks_devSize fun _ s1 _ _ => ?_
  refine hd.guarded_bind (strict_lift (checkDescriptors_total _)) looks_lift fun _ s2 _ _ => ?_
  exact hd.guarded_makeRoom trivial (fun _ => Prog.Only.forEach keepsLength_applyEntry _) s2

/-- Where the one call that sets the length is refused, so is the chain. -/
private theorem Truthful.run_applyChain_of_refused (ht : Truthful handle view) {n : Nat} {e : FsError}
    (h : (⟨.setLen n,.error e⟩ : (op : DevOp) × op.Reply) ∈ (applyChain chain).events handle s) :
    (∃ e, ((applyChain chain).run handle s).1 = .err e) ∧ view ((applyChain chain).run handle s).2 = view s :=
  ⟨strict_applyChain.run_of_bad (fun op _ => DevOp.granted_or_refused op _) h ⟨e,rfl⟩,
    ht.guarded_applyChain.2 (.inr ⟨n,e,h⟩)⟩

/-- Over any device whose calls do what they say or, refused, nothing: a chain that does not fit, or whose room is
refused, is refused whole, and the device is left as it was. Any other chain, when no call is refused, is applied, the
device being then as long as open goes on to assume, no shorter than before, and holding every descriptor's bytes laid
in order over what it held, and nothing else. -/
theorem apply_chain_exact (ht : Truthful handle view) (chain : List LogEntry) (s : σ) :
    (Misfit (view s).size chain ∨ (∃ n e,
      (⟨.setLen n,.error e⟩ : (op : DevOp) × op.Reply) ∈ (applyChain chain).events handle s) →
      (∃ e, ((applyChain chain).run handle s).1 = .err e) ∧ view ((applyChain chain).run handle s).2 = view s) ∧
    (¬ Misfit (view s).size chain → (∀ x ∈ (applyChain chain).events handle s, x.1.Granted x.2) →
      let d' := view ((applyChain chain).run handle s).2
      ((applyChain chain).run handle s).1 = .ok () ∧ d'.size = replayedExtent (view s).size chain ∧
        (view s).size ≤ d'.size ∧
      d'.byte = layAll (writesOf chain) (fun i => if i < (view s).size then (view s).byte i else 0) ∧
      ∀ i, (∀ x ∈ descriptorsOf chain, i < x.span.1 ∨ x.span.1 + x.span.2 ≤ i) → d'.byte i = (view s).byte i) := by
  refine ⟨?_,fun hfit hg => ?_⟩
  · rintro (h | ⟨n,e,h⟩)
    · exact ht.run_applyChain_of_misfit h
    · exact ht.run_applyChain_of_refused h
  · have hc := checkDescriptors_eq_ok_iff.mpr hfit
    have hrun := ht.run_granted hg
    have happlied : (applyChain chain).on ((view s).withMode true true) =
      (.ok (),((view s).withMode true true).replayed chain) :=
      on_applyChain rfl hc (.inl rfl)
    rw [happlied] at hrun
    obtain ⟨hret,hdev⟩ := Prod.mk.inj hrun
    have hsize : (view ((applyChain chain).run handle s).2).size = allowedExtent (view s).size chain :=
      (congrArg Device.size hdev).symm.trans Device.size_replayed
    have hbyte : (view ((applyChain chain).run handle s).2).byte = layAll (writesOf chain) (view s).byte :=
      (congrArg Device.byte hdev).symm.trans (Device.byte_replayed hc)
    have hblank : (fun i => if i < (view s).size then (view s).byte i else 0) = (view s).byte := by
      funext i
      split_ifs with hi
      · rfl
      · exact ((view s).blank i (by omega)).symm
    refine ⟨hret.symm,?_,?_,?_,fun i hi => ?_⟩
    · rw [replayedExtent_eq hc,hsize]
    · rw [hsize]
      exact le_allowedExtent _ _
    · rw [hblank,hbyte]
    · rw [hbyte]
      exact layAll_of_not_covered (not_covered hi)

end refusals

/-- A device that takes every call it can. -/
private theorem Device.truthful : Truthful Device.handle id where
  toFaithful := Device.faithful
  written off bs d h := by
    rcases d.writeAt_cases off bs with ⟨e,he⟩ | ⟨-,hle,he⟩
    · rw [show Device.handle (.write off bs) d = d.writeAt off bs from rfl,he] at h
      cases h
    · exact ⟨hle,congrArg Prod.snd he⟩
  kept off bs d e h := by
    rcases d.writeAt_cases off bs with ⟨_,he⟩ | ⟨-,-,he⟩
    · exact congrArg Prod.snd he
    · rw [show Device.handle (.write off bs) d = d.writeAt off bs from rfl,he] at h
      cases h
  grown n d h := by
    rcases d.setLen_cases n with ⟨-,he⟩ | ⟨-,he⟩
    · rw [show Device.handle (.setLen n) d = d.setLen n from rfl,he] at h
      cases h
    · exact congrArg Prod.snd he

/-- A run that returned was refused nothing. -/
private theorem granted_of_ok {σ α : Type} {handle : (op : DevOp) → σ → op.Reply × σ} {s : σ} {p : DevProg α}
    (hs : Strict p) {a : α} (h : (p.run handle s).1 = .ok a) : ∀ x ∈ p.events handle s, x.1.Granted x.2 := by
  intro x hx
  rcases DevOp.granted_or_refused x.1 x.2 with hg | hb
  · exact hg
  · obtain ⟨e,he⟩ := hs.run_of_bad (fun op _ => DevOp.granted_or_refused op _) hx hb
    rw [h] at he
    cases he

section claiming

def claiming (last : Nat) : LogEntry where
  header := {
    entryLength := logSectorSize
    tail := 0
    sequenceNumber := 1
    descriptorCount := 1
    logGuid := ⟨List.replicate 16 0x42,rfl⟩
    flushedFileOffset := 0
    lastFileOffset := last
  }
  descriptors := [.zero 4096 0 1]
  logOffsetInRegion := 0
  long := le_rfl

private theorem blank_zero {n : Nat} : ∀ i, n ≤ i → (0 : UInt8) = 0 := fun _ _ => rfl

def blankDevice (n : Nat) : Device where
  size := n
  byte _ := 0
  writable := true
  growable := true
  blank := blank_zero

theorem claiming_fits {n last : Nat} (h : 4096 ≤ n) : ¬ Misfit n [claiming last] := by
  rintro ⟨x,hx,hmis⟩
  obtain rfl : x = .zero 4096 0 1 := by simpa [descriptorsOf,claiming] using hx
  have := le_allowedExtent n [claiming last]
  change 2^64 ≤ 0 + 4096 ∨ allowedExtent n [claiming last] < 0 + 4096 at hmis
  omega

theorem apply_chain_exact_claiming :
    (((applyChain [claiming 67112960]).on (blankDevice 67108864)).2.size = 67112960 ∧
      ∀ i, 4096 ≤ i → ((applyChain [claiming 67112960]).on (blankDevice 67108864)).2.byte i = 0) ∧
    ((∃ e, ((applyChain [claiming 0]).on (blankDevice 512)).1 = .err e) ∧
      ((applyChain [claiming 0]).on (blankDevice 512)).2 = blankDevice 512) := by
  have hfit : ¬ Misfit 67108864 [claiming 67112960] := claiming_fits (by decide)
  have hrun := on_applyChain (d := blankDevice 67108864) rfl (checkDescriptors_eq_ok_iff.mpr hfit) (.inl rfl)
  have hok := (apply_chain_exact Device.truthful [claiming 67112960] (blankDevice 67108864)).2 hfit
    (granted_of_ok strict_applyChain (congrArg Prod.fst hrun))
  refine ⟨⟨hok.2.1.trans (by decide),fun i hi => hok.2.2.2.2 i fun x hx => .inr ?_⟩,?_⟩
  · obtain rfl : x = .zero 4096 0 1 := by simpa [descriptorsOf,claiming] using hx
    exact hi
  · exact (apply_chain_exact Device.truthful [claiming 0] (blankDevice 512)).1
      (.inl ⟨.zero 4096 0 1,by decide,.inr (by decide)⟩)

end claiming
end ImgVhdx
