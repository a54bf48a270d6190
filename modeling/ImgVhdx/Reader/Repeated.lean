import ImgVhdx.Reader.Applied

/-! Applying a chain once more, to the device it was applied to or to what a crash on the way left of it: every byte
comes out the same. The length does too, unless the chain claims more room than its descriptors could have taken; then
each run allows it that much again. -/
namespace ImgVhdx
open Lib DevProg

/-- How far the chain says the file reaches. -/
def lastClaimed (chain : List LogEntry) : Nat := (chain.map fun entry => entry.header.lastFileOffset).foldl max 0

def descriptorTotal (chain : List LogEntry) : Nat := (chain.map fun entry => entry.descriptors.length).sum

/-- The chain claims no more than its descriptors may have added, or has none. -/
def ClaimHeld (n : Nat) (chain : List LogEntry) : Prop :=
  descriptorTotal chain = 0 ∨ lastClaimed chain ≤
    saturatingAdd n (saturatingMul (descriptorTotal chain) descriptorGrowth)

section extents
variable {n m : Nat} {chain : List LogEntry}

private theorem allowedExtent_eq (n : Nat) (chain : List LogEntry) : allowedExtent n chain =
    max n (min (lastClaimed chain) (saturatingAdd n (saturatingMul (descriptorTotal chain) descriptorGrowth))) := rfl

private theorem saturatingAdd_mono (h : n ≤ m) (k : Nat) : saturatingAdd n k ≤ saturatingAdd m k := by
  unfold saturatingAdd
  omega

private theorem allowedExtent_mono (h : n ≤ m) : allowedExtent n chain ≤ allowedExtent m chain := by
  rw [allowedExtent_eq,allowedExtent_eq]
  exact max_le_max h (min_le_min_left _ (saturatingAdd_mono h _))

/-- A claim that is believed once is met, and asks for nothing the second time. -/
private theorem allowedExtent_again (h : ClaimHeld n chain) :
    allowedExtent (allowedExtent n chain) chain = allowedExtent n chain := by
  rcases h with h0 | hle
  · have hadd : ∀ k, saturatingAdd k 0 ≤ k := fun k => Nat.min_le_left _ _
    have hsame : ∀ k, allowedExtent k chain = k := fun k => by
      rw [allowedExtent_eq,h0,show saturatingMul 0 descriptorGrowth = 0 from by decide]
      exact Nat.max_eq_left ((Nat.min_le_right _ _).trans (hadd k))
    rw [hsame,hsame]
  · have hclaim : lastClaimed chain ≤ allowedExtent n chain := by
      rw [allowedExtent_eq,Nat.min_eq_left hle]
      exact Nat.le_max_right _ _
    rw [allowedExtent_eq (allowedExtent n chain)]
    exact Nat.max_eq_left ((Nat.min_le_left _ _).trans hclaim)

/-- A claim that was cut down to the bound is cut down to a further one the next time. -/
private theorem allowedExtent_grows (h : ¬ ClaimHeld n chain) (hu : lastClaimed chain < 2^64) :
    allowedExtent n chain < allowedExtent (allowedExtent n chain) chain := by
  have hno := not_or.mp h
  have hpos : 0 < saturatingMul (descriptorTotal chain) descriptorGrowth := by
    have : 0 < descriptorTotal chain * descriptorGrowth := Nat.mul_pos (Nat.pos_of_ne_zero hno.1) (by decide)
    unfold saturatingMul
    omega
  have hclaim := Nat.not_le.mp hno.2
  rw [allowedExtent_eq (allowedExtent n chain),allowedExtent_eq n,Nat.min_eq_right hclaim.le]
  generalize saturatingMul (descriptorTotal chain) descriptorGrowth = k at *
  unfold saturatingAdd at *
  omega

end extents

section writes
variable {d d' : Device} {chain : List LogEntry} {n : Nat}

def CanHold (d : Device) (chain : List LogEntry) : Prop := d.writable = true ∨ ∀ x ∈ descriptorsOf chain, x.write.2 = []

private theorem applyDescriptor_of_nil {x : Descriptor} (h : x.write.2 = []) : applyDescriptor x = .done (.ok ()) := by
  cases x with
  | zero n off s =>
    have hn : n = 0 := by simpa [Descriptor.write] using congrArg List.length h
    exact if_pos hn
  | data t l off s sector =>
    have hlen : sector.1.length = 4096 := sector.2
    rw [show sector.1 = [] from h] at hlen
    cases hlen

private theorem on_forEach_of_nil {xs : List Descriptor} (h : ∀ x ∈ xs, x.write.2 = []) :
    (Prog.forEach applyDescriptor xs : DevProg Unit) = .done (.ok ()) := by
  induction xs with
  | nil => rfl
  | cons x xs ih =>
    change (applyDescriptor x >>= fun _ => Prog.forEach applyDescriptor xs) = _
    rw [applyDescriptor_of_nil (h x List.mem_cons_self)]
    exact ih fun y hy => h y (List.mem_cons_of_mem _ hy)

private theorem mem_descriptorsOf_cons {e : LogEntry} {x : Descriptor} :
    x ∈ descriptorsOf (e :: chain) ↔ x ∈ e.descriptors ∨ x ∈ descriptorsOf chain :=
  List.mem_append

private theorem on_applyEntries_of_nil (h : ∀ x ∈ descriptorsOf chain, x.write.2 = []) :
    DevProg.on (Prog.forEach applyEntry chain) d = (.ok (),d) := by
  induction chain with
  | nil => rfl
  | cons e chain ih =>
    change ((Prog.forEach applyDescriptor e.descriptors >>= fun _ => devFlush _) >>= fun _ =>
      Prog.forEach applyEntry chain).run _ d = _
    rw [on_forEach_of_nil fun x hx => h x (mem_descriptorsOf_cons.mpr (.inl hx))]
    exact ih fun x hx => h x (mem_descriptorsOf_cons.mpr (.inr hx))

private theorem Device.putAll_of_nil {ws : List (Nat × Bytes)} (h : ∀ w ∈ ws, w.2 = []) : d.putAll ws = d := by
  induction ws with
  | nil => rfl
  | cons w ws ih =>
    rw [Device.putAll_cons,h w List.mem_cons_self,Device.put_nil]
    exact ih fun x hx => h x (List.mem_cons_of_mem _ hx)

private theorem on_applyChain_of_canHold (hw : CanHold d chain)
    (hc : checkDescriptors (allowedExtent d.size chain) (descriptorsOf chain) = .ok ())
    (hg : d.growable = true ∨ allowedExtent d.size chain = d.size) :
    (applyChain chain).on d = (.ok (),d.replayed chain) := by
  rcases hw with hw | hnil
  · exact on_applyChain hw hc hg
  · simp only [applyChain,on]
    rw [Prog.run_bind_of_ok on_devSize,Prog.run_bind_of_ok (Prog.run_lift_of_ok hc),
      Prog.run_bind_of_ok (on_makeRoom (le_allowedExtent _ _) hg)]
    refine (on_applyEntries_of_nil hnil).trans ?_
    unfold Device.replayed
    rw [Device.putAll_of_nil fun w hw => ?_]
    obtain ⟨x,hx,rfl⟩ := List.mem_map.mp hw
    exact hnil x hx

/-- A device that takes no write is left as it is by everything but a change of its length. -/
private theorem on_keepsLength (hw : d.writable = false) {α : Type} {p : DevProg α} (hk : KeepsLength p) :
    (p.on d).2 = d := by
  refine hk.keeps (I := (· = d)) (fun op e hop he => ?_) rfl
  subst he
  cases op with
  | write off bs =>
    rcases e.writeAt_cases off bs with ⟨_,he⟩ | ⟨hno,-⟩
    · exact congrArg Prod.snd he
    · rw [hw] at hno
      cases hno
  | setLen n => cases hop
  | _ => rfl

/-- So a run of programs succeeds on it where each of them does. -/
private theorem on_forEach_eq_ok (hw : d.writable = false) {β : Type} {f : β → DevProg Unit}
    (hf : ∀ b, KeepsLength (f b)) {bs : List β} (h : DevProg.on (Prog.forEach f bs) d = (.ok (),d')) :
    ∀ b ∈ bs, (f b).on d = (.ok (),d) := by
  induction bs with
  | nil => exact nofun
  | cons b bs ih =>
    obtain ⟨u,d1,hb,hrest⟩ := Prog.run_bind_eq_ok.mp (show (f b >>= fun _ => Prog.forEach f bs).run _ d = _ from h)
    obtain rfl : d1 = d := (congrArg Prod.snd hb).symm.trans (on_keepsLength hw (hf b))
    intro c hc
    rcases List.mem_cons.mp hc with rfl | hc
    · exact hb
    · exact ih hrest c hc

private theorem write_nil_of_ok (hw : d.writable = false) {x : Descriptor}
    (h : (applyDescriptor x).on d = (.ok (),d')) :
    x.write.2 = [] := by
  cases x with
  | zero n off s =>
    by_cases hn : n = 0
    · rw [hn]
      exact zeros_zero
    · rw [applyDescriptor,if_neg hn] at h
      exact absurd ((on_writeZeros_eq_ok h).1 hn).1 (by rw [hw]; exact Bool.false_ne_true)
  | data t l off s sector =>
    exact absurd (on_devWrite_eq_ok.mp h).1 (by rw [hw]; exact Bool.false_ne_true)

private theorem canHold_of_ok (h : DevProg.on (Prog.forEach applyEntry chain) d = (.ok (),d')) : CanHold d chain := by
  cases hw : d.writable with
  | true => exact .inl hw
  | false =>
    refine .inr fun x hx => ?_
    obtain ⟨e,he,hx⟩ := List.mem_flatMap.mp hx
    have hentry := on_forEach_eq_ok hw keepsLength_applyEntry h e he
    obtain ⟨_,d1,hdescriptors,-⟩ := Prog.run_bind_eq_ok.mp hentry
    exact write_nil_of_ok hw (on_forEach_eq_ok hw keepsLength_applyDescriptor hdescriptors x hx)

/-- What it takes for a chain to be applied, and what it leaves. -/
private theorem on_applyChain_eq_ok_iff : (applyChain chain).on d = (.ok (),d') ↔
    (CanHold d chain ∧ ¬ Misfit d.size chain ∧ (d.growable = true ∨ allowedExtent d.size chain = d.size)) ∧
    d' = d.replayed chain := by
  constructor
  · intro h
    have hall := h
    simp only [applyChain,on,Prog.run_bind_eq_ok,Prog.run_lift_eq_ok] at h
    obtain ⟨n,d1,hn,u,d2,⟨hc,rfl⟩,_,d3,hroom,hentries⟩ := h
    obtain ⟨rfl,rfl⟩ : d.size = n ∧ d = d2 := by
      have hd := on_devSize.symm.trans hn
      exact ⟨Outcome.ok.inj (Prod.mk.inj hd).1,(Prod.mk.inj hd).2⟩
    have hg := on_makeRoom_eq_ok hroom (le_allowedExtent _ _)
    obtain rfl : d.resize (allowedExtent d.size chain) = d3 :=
      (Prod.mk.inj ((on_makeRoom (le_allowedExtent _ _) hg).symm.trans hroom)).2
    have hw : CanHold d chain := (canHold_of_ok hentries : CanHold (d.resize (allowedExtent d.size chain)) chain)
    rw [on_applyChain_of_canHold hw hc hg] at hall
    exact ⟨⟨hw,checkDescriptors_eq_ok_iff.mp hc,hg⟩,(Prod.mk.inj hall).2.symm⟩
  · rintro ⟨⟨hw,hfit,hg⟩,rfl⟩
    exact on_applyChain_of_canHold hw (checkDescriptors_eq_ok_iff.mpr hfit) hg

end writes

section crashes
variable {d d' m : Device} {chain : List LogEntry}

def Lands (n : Nat) (chain : List LogEntry) : DevOp → Prop
  | .setLen k => k = n
  | .write off bs => ∀ i, off ≤ i → i < off + bs.length → Covered (writesOf chain) i
  | _ => True

structure Partway (d : Device) (chain : List LogEntry) (m : Device) : Prop where
  writable : m.writable = d.writable
  growable : m.growable = d.growable
  size : m.size = d.size ∨ m.size = allowedExtent d.size chain
  byte : ∀ i, ¬ Covered (writesOf chain) i → m.byte i = d.byte i

theorem Partway.step (h : Partway d chain m) {op : DevOp} (hop : Lands (allowedExtent d.size chain) chain op) :
    Partway d chain (Device.handle op m).2 := by
  cases op with
  | write off bs =>
    rcases m.writeAt_cases off bs with ⟨_,he⟩ | ⟨-,-,he⟩
    · rw [show Device.handle (.write off bs) m = m.writeAt off bs from rfl,he]
      exact h
    · rw [show Device.handle (.write off bs) m = m.writeAt off bs from rfl,he]
      refine ⟨h.writable,h.growable,h.size,fun i hi => ?_⟩
      have hout : i < off ∨ off + bs.length ≤ i := by
        by_contra hin
        exact hi (hop i (by omega) (by omega))
      exact (Device.byte_put_of_outside hout).trans (h.byte i hi)
  | setLen k =>
    obtain rfl : k = allowedExtent d.size chain := hop
    rcases m.setLen_cases (allowedExtent d.size chain) with ⟨-,he⟩ | ⟨-,he⟩
    · rw [show Device.handle (.setLen _) m = m.setLen _ from rfl,he]
      exact h
    · rw [show Device.handle (.setLen _) m = m.setLen _ from rfl,he]
      have hle : m.size ≤ allowedExtent d.size chain := by
        have := le_allowedExtent d.size chain
        rcases h.size with hs | hs <;> omega
      exact ⟨h.writable,h.growable,.inr rfl,fun i hi => (Device.byte_resize_of_le hle i).trans (h.byte i hi)⟩
  | _ => exact h

private theorem only_writeZeros {Kind : DevOp → Prop} {f : FsError → Error} {cur n : Nat}
    (h : ∀ off bs, cur ≤ off → off + bs.length ≤ cur + n → Kind (.write off bs)) : (writeZeros f cur n).Only Kind := by
  induction n using Nat.strongRecOn generalizing cur with
  | ind n ih =>
    rw [writeZeros]
    split_ifs with hn
    · trivial
    · have : 0 < zeroChunk := by decide
      have hfirst : Kind (.write cur (zeros (min n zeroChunk))) := h _ _ le_rfl (by rw [length_zeros]; omega)
      refine Prog.Only.bind (p := devWrite cur (zeros (min n zeroChunk)) f) ⟨hfirst,only_ofReply⟩ fun _ => ?_
      exact ih _ (by omega) fun off bs hlo hhi => h off bs (by omega) (by omega)

private theorem lands_applyDescriptor {n : Nat} {x : Descriptor} (hx : x ∈ descriptorsOf chain) :
    (applyDescriptor x).Only (Lands n chain) := by
  have hcovered : ∀ i, x.write.1 ≤ i → i < x.write.1 + x.write.2.length → Covered (writesOf chain) i := fun i hlo hhi =>
    ⟨x.write,List.mem_map_of_mem hx,hlo,hhi⟩
  cases x with
  | zero k off s =>
    rw [applyDescriptor]
    split_ifs
    · trivial
    · refine only_writeZeros fun o bs hlo hhi i hi hi' => hcovered i (hlo.trans hi) ?_
      rw [Descriptor.write,length_zeros]
      exact lt_of_lt_of_le hi' hhi
  | data => exact ⟨hcovered,only_ofReply⟩

theorem lands_applyEntries {n : Nat} : (Prog.forEach applyEntry chain).Only (Lands n chain) := by
  refine Prog.Only.forEach_mem fun e he => ?_
  have hdescriptors : (Prog.forEach applyDescriptor e.descriptors).Only (Lands n chain) :=
    Prog.Only.forEach_mem fun x hx => lands_applyDescriptor (List.mem_flatMap.mpr ⟨e,he,hx⟩)
  exact hdescriptors.bind fun _ => ⟨trivial,only_ofReply⟩

theorem lands_makeRoom {n : Nat} : (makeRoom n).Only (Lands n chain) := by
  refine Prog.Only.bind (p := devSize) ⟨trivial,fun _ => trivial⟩ fun size => ?_
  split_ifs
  · refine ⟨rfl,fun r => ?_⟩
    cases r with
    | ok u => trivial
    | error e => exact ⟨trivial,fun _ => trivial⟩
  · trivial

/-- Whatever the number of calls that came through. -/
private theorem partway_cut (n : Nat) : Partway d chain ((applyChain chain).cutOn n d) := by
  have hd : Partway d chain d := ⟨rfl,rfl,.inl rfl,fun _ _ => rfl⟩
  have hsize : ∀ n, devSize.cut Device.handle n d = d := fun n => by
    rcases n with _ | _ | n <;> rfl
  refine Prog.cut_bind (P := Partway d chain) (fun n => ?_) (fun size d1 hs n => ?_) n
  · rw [hsize]
    exact hd
  · obtain ⟨rfl,rfl⟩ : d.size = size ∧ d = d1 := by
      have hs := on_devSize.symm.trans hs
      exact ⟨Outcome.ok.inj (Prod.mk.inj hs).1,(Prod.mk.inj hs).2⟩
    have hcalls : Prog.Only (Lands (allowedExtent d.size chain) chain)
        (Prog.lift (checkDescriptors (allowedExtent d.size chain) (descriptorsOf chain)) >>= fun _ =>
          makeRoom (allowedExtent d.size chain) >>= fun _ => Prog.forEach applyEntry chain) :=
      Prog.Only.bind trivial fun _ => lands_makeRoom.bind fun _ => lands_applyEntries
    exact hcalls.keeps_cut (fun op m hop hm => hm.step hop) hd n

private theorem Partway.of_replayed (hfit : ¬ Misfit d.size chain) : Partway d chain (d.replayed chain) where
  writable := Device.writable_replayed
  growable := Device.growable_replayed
  size := .inr Device.size_replayed
  byte i hi := by
    rw [Device.byte_replayed (checkDescriptors_eq_ok_iff.mpr hfit)]
    exact layAll_of_not_covered hi

private theorem Misfit.anti {n k : Nat} (h : n ≤ k) (hm : Misfit k chain) : Misfit n chain := by
  obtain ⟨x,hx,h64 | hlt⟩ := hm
  · exact ⟨x,hx,.inl h64⟩
  · exact ⟨x,hx,.inr (lt_of_le_of_lt (allowedExtent_mono h) hlt)⟩

/-- From any device on the way the chain applies in full, and every byte ends as it would have. -/
theorem Partway.apply (h : Partway d chain m) (hg : d.growable = true) (hd : (applyChain chain).on d = (.ok (),d')) :
    (applyChain chain).on m = (.ok (),m.replayed chain) ∧ (m.replayed chain).byte = d'.byte := by
  obtain ⟨⟨hw,hfit,-⟩,rfl⟩ := on_applyChain_eq_ok_iff.mp hd
  have hle : d.size ≤ m.size := by
    have := le_allowedExtent d.size chain
    rcases h.size with hs | hs <;> omega
  have hfit' : ¬ Misfit m.size chain := fun hm => hfit (hm.anti hle)
  have hw' : CanHold m chain := by
    rwa [CanHold,h.writable]
  refine ⟨on_applyChain_eq_ok_iff.mpr ⟨⟨hw',hfit',.inl (h.growable.trans hg)⟩,rfl⟩,?_⟩
  rw [Device.byte_replayed (checkDescriptors_eq_ok_iff.mpr hfit'),Device.byte_replayed
    (checkDescriptors_eq_ok_iff.mpr hfit)]
  exact layAll_again h.byte

/-- A chain that was applied applies again, to what it left and to whatever any number of its calls left: every byte
ends the same, on a device as long as the chain allows from there. That is the same device, when the chain's claim is
within what its descriptors may have added or when the length had not been set yet, and a longer one otherwise. -/
theorem apply_chain_again (hg : d.growable = true) (h : (applyChain chain).on d = (.ok (),d'))
    (hm : m = d' ∨ ∃ n, m = (applyChain chain).cutOn n d) :
    ∃ d2, (applyChain chain).on m = (.ok (),d2) ∧ d2.byte = d'.byte ∧ d2.size = allowedExtent m.size chain ∧
      (m.size = d.size ∨ m.size = d'.size) ∧ (m.size = d.size ∨ ClaimHeld d.size chain → d2 = d') ∧
      (m.size ≠ d.size → ¬ ClaimHeld d.size chain → lastClaimed chain < 2^64 → d'.size < d2.size) := by
  obtain ⟨⟨-,hfit,-⟩,rfl⟩ := on_applyChain_eq_ok_iff.mp h
  have hway : Partway d chain m := by
    rcases hm with rfl | ⟨n,rfl⟩
    · exact .of_replayed hfit
    · exact partway_cut n
  obtain ⟨hrun,hbyte⟩ := hway.apply hg h
  have hsize : (d.replayed chain).size = allowedExtent d.size chain := Device.size_replayed
  refine ⟨m.replayed chain,hrun,hbyte,Device.size_replayed,?_,fun hsame => ?_,fun hne hno hu => ?_⟩
  · rw [hsize]
    exact hway.size
  · have hlen : allowedExtent m.size chain = allowedExtent d.size chain := by
      rcases hway.size with hs | hs
      · rw [hs]
      · rcases hsame with hs' | hheld
        · rw [hs']
        · rw [hs,allowedExtent_again hheld]
    refine Device.ext (Device.size_replayed.trans (hlen.trans hsize.symm)) hbyte ?_ ?_
    · rw [Device.writable_replayed,Device.writable_replayed,hway.writable]
    · rw [Device.growable_replayed,Device.growable_replayed,hway.growable]
  · rw [Device.size_replayed,Device.size_replayed,hway.size.resolve_left hne]
    exact allowedExtent_grows hno hu

end crashes

private theorem claiming_applies {n : Nat} (last : Nat) (h : 4096 ≤ n) :
    (applyChain [claiming last]).on (blankDevice n) = (.ok (),(blankDevice n).replayed [claiming last]) :=
  on_applyChain_eq_ok_iff.mpr ⟨⟨.inl rfl,claiming_fits h,.inl rfl⟩,rfl⟩

theorem apply_chain_again_believed :
    let d := (blankDevice 67108864).replayed [claiming 67112960]
    (applyChain [claiming 67112960]).on d = (.ok (),d) := by
  obtain ⟨d2,hrun,-,-,-,hsame,-⟩ := apply_chain_again rfl (claiming_applies 67112960 (show 4096 ≤ 67108864 by decide)) (.inl rfl)
  have heq := hsame (.inr (.inr (by decide)))
  rwa [heq] at hrun

/-- Applied twice, a chain that claims 2^62 bytes leaves a file 256 MiB longer than applied once. -/
theorem apply_chain_again_grows :
    ¬ ∀ (chain : List LogEntry) (d d' : Device), d.growable = true → (applyChain chain).on d = (.ok (),d') →
    ∃ d2, (applyChain chain).on d' = (.ok (),d2) ∧ d2.byte = d'.byte ∧ d2.size = d'.size := by
  intro hall
  have happlied := claiming_applies (2^62) (show 4096 ≤ 67108864 by decide)
  obtain ⟨d2,hrun,-,hsize⟩ := hall [claiming (2^62)] (blankDevice 67108864) _ rfl happlied
  rw [(on_applyChain_eq_ok_iff.mp hrun).2,Device.size_replayed,Device.size_replayed] at hsize
  revert hsize
  decide

end ImgVhdx
