import ImgVhdx.Log.Apply

/-! What applying a chain does to the device: it grows to the extent the chain allows, and
every descriptor's bytes land in order. -/
namespace ImgVhdx
open Lib DevProg

def Descriptor.write : Descriptor → Nat × Bytes
  | .zero zeroLength fileOffset _ => (fileOffset,zeros zeroLength)
  | .data _ _ fileOffset _ sector => (fileOffset,sector.1)

def writesOf (chain : List LogEntry) : List (Nat × Bytes) := (descriptorsOf chain).map Descriptor.write

def Device.replayed (d : Device) (chain : List LogEntry) : Device :=
  (d.resize (allowedExtent d.size chain)).putAll (writesOf chain)

section
variable {d d' : Device} {f : FsError → Error}

theorem Descriptor.span_write (x : Descriptor) : x.span = (x.write.1,x.write.2.length) := by
  cases x <;> simp [Descriptor.span,Descriptor.write]

theorem on_writeZeros (hw : d.writable = true) (cur n : Nat) (h : cur + n ≤ d.size) :
    (writeZeros f cur n).on d = (.ok (),d.put cur (zeros n)) := by
  induction n using Nat.strongRecOn generalizing cur d with
  | ind n ih =>
    rw [writeZeros]
    by_cases hn : n = 0
    · rw [if_pos hn,hn]
      simp
    · have hz : 0 < zeroChunk := by decide
      rw [if_neg hn]
      simp only [on]
      rw [Prog.run_bind_of_ok (on_devWrite hw (by rw [length_zeros]; omega))]
      refine (ih (n - min n zeroChunk) (by omega) (d := d.put cur (zeros (min n zeroChunk))) hw (cur + min n zeroChunk)
        (by rw [Device.size_put]; omega)).trans ?_
      have := Device.put_put_append (d := d) (o := cur) (a := zeros (min n zeroChunk))
        (b := zeros (n - min n zeroChunk))
      rw [length_zeros,← zeros_add,Nat.add_sub_cancel' (Nat.min_le_left _ _)] at this
      rw [this]

/-- Zeros that were written whole were written to a device that takes them. -/
theorem on_writeZeros_eq_ok {cur n : Nat} {u : Unit} (h : (writeZeros f cur n).on d = (.ok u,d')) :
    (n ≠ 0 → d.writable = true ∧ cur + n ≤ d.size) ∧ d' = d.put cur (zeros n) := by
  have hroom : n ≠ 0 → d.writable = true ∧ cur + n ≤ d.size := by
    induction n using Nat.strongRecOn generalizing cur d with
    | ind n ih =>
      intro hn
      rw [writeZeros,if_neg hn] at h
      simp only [on,Prog.run_bind_eq_ok] at h
      obtain ⟨_,d1,hwrite,h⟩ := h
      obtain ⟨hw,hle,rfl⟩ := on_devWrite_eq_ok.mp hwrite
      have hz : 0 < zeroChunk := by decide
      rw [length_zeros] at hle
      refine ⟨hw,?_⟩
      by_cases hrest : n - min n zeroChunk = 0
      · omega
      · have := (ih (n - min n zeroChunk) (by omega) (d := d.put cur (zeros (min n zeroChunk))) h hrest).2
        rw [Device.size_put] at this
        omega
  refine ⟨hroom,?_⟩
  by_cases hn : n = 0
  · subst hn
    rw [writeZeros,if_pos rfl] at h
    rw [zeros_zero,Device.put_nil]
    exact (Prod.mk.inj h).2.symm
  · rw [on_writeZeros (hroom hn).1 cur n (hroom hn).2] at h
    exact (Prod.mk.inj h).2.symm

private theorem on_applyDescriptor (hw : d.writable = true) {x : Descriptor}
    (h : x.write.1 + x.write.2.length ≤ d.size) :
    (applyDescriptor x).on d = (.ok (),d.put x.write.1 x.write.2) := by
  cases x with
  | zero n off s =>
    simp only [Descriptor.write,length_zeros] at h ⊢
    change (if n = 0 then _ else _ : DevProg Unit).on d = _
    by_cases hn : n = 0
    · rw [if_pos hn,hn]
      simp
    · rw [if_neg hn]
      exact on_writeZeros hw off n h
  | data => exact on_devWrite hw h

private theorem on_applyDescriptors (hw : d.writable = true) {xs : List Descriptor}
    (h : ∀ x ∈ xs, x.write.1 + x.write.2.length ≤ d.size) :
    DevProg.on (Prog.forEach applyDescriptor xs) d = (.ok (),d.putAll (xs.map Descriptor.write)) := by
  induction xs generalizing d with
  | nil => rfl
  | cons x xs ih =>
    change Prog.run _ (applyDescriptor x >>= fun _ => Prog.forEach applyDescriptor xs) d = _
    rw [Prog.run_bind_of_ok (on_applyDescriptor hw (h x List.mem_cons_self))]
    exact ih hw fun y hy => h y (List.mem_cons_of_mem _ hy)

private theorem on_applyEntry (hw : d.writable = true) {e : LogEntry}
    (h : ∀ x ∈ e.descriptors, x.write.1 + x.write.2.length ≤ d.size) :
    (applyEntry e).on d = (.ok (),d.putAll (e.descriptors.map Descriptor.write)) := by
  simp only [applyEntry,on]
  rw [Prog.run_bind_of_ok (on_applyDescriptors hw h)]
  rfl

private theorem on_applyEntries (hw : d.writable = true) {chain : List LogEntry}
    (h : ∀ x ∈ descriptorsOf chain, x.write.1 + x.write.2.length ≤ d.size) :
    DevProg.on (Prog.forEach applyEntry chain) d = (.ok (),d.putAll (writesOf chain)) := by
  induction chain generalizing d with
  | nil => rfl
  | cons e chain ih =>
    change Prog.run _ (applyEntry e >>= fun _ => Prog.forEach applyEntry chain) d = _
    have he : ∀ x, x ∈ descriptorsOf (e :: chain) ↔ x ∈ e.descriptors ∨ x ∈ descriptorsOf chain :=
      fun x => List.mem_append
    rw [Prog.run_bind_of_ok (on_applyEntry hw fun x hx => h x ((he x).mpr (.inl hx)))]
    refine (ih (by simpa using hw) fun x hx => ?_).trans ?_
    · rw [Device.size_putAll]
      exact h x ((he x).mpr (.inr hx))
    · rw [← Device.putAll_append,show writesOf (e :: chain) = e.descriptors.map Descriptor.write ++ writesOf chain from
        List.map_append]

theorem checkDescriptors_eq_ok {n : Nat} {xs : List Descriptor} : checkDescriptors n xs = .ok () ↔
    ∀ x ∈ xs, x.write.1 + x.write.2.length < 2^64 ∧ x.write.1 + x.write.2.length ≤ n := by
  induction xs with
  | nil => simp [checkDescriptors]
  | cons x xs ih =>
    rw [checkDescriptors,Outcome.bind_eq_ok,List.forall_mem_cons,← ih]
    have hx : checkDescriptor n x = .ok () ↔ x.write.1 + x.write.2.length < 2^64 ∧ x.write.1 + x.write.2.length ≤ n := by
      rw [checkDescriptor,x.span_write]
      dsimp only
      by_cases h : x.write.1 + x.write.2.length < 2^64
      · rw [checkedAdd_of_lt h,Outcome.okOr_some,Outcome.ok_bind,Outcome.rejectIf_eq_ok]
        omega
      · rw [checkedAdd,if_neg h]
        exact ⟨fun hc => (by cases hc),fun hc => absurd hc.1 h⟩
    constructor
    · rintro ⟨_,h1,h2⟩
      exact ⟨hx.mp h1,h2⟩
    · rintro ⟨h1,h2⟩
      exact ⟨(),hx.mpr h1,h2⟩

theorem le_allowedExtent (n : Nat) (chain : List LogEntry) : n ≤ allowedExtent n chain := Nat.le_max_left _ _

theorem on_makeRoom {n : Nat} (h : d.size ≤ n) (hg : d.growable = true ∨ n = d.size) :
    (makeRoom n).on d = (.ok (),d.resize n) := by
  unfold makeRoom
  simp only [on]
  rw [Prog.run_bind_of_ok on_devSize]
  by_cases hn : n > d.size
  · rw [if_pos hn]
    rcases hg with hg | hg
    · simp [Prog.run,Device.handle,Device.setLen,hg]
    · omega
  · obtain rfl : n = d.size := by omega
    rw [if_neg hn,Device.resize_self]
    rfl

theorem on_makeRoom_eq_ok {n : Nat} (h : (makeRoom n).on d = (.ok (),d')) (hn : d.size ≤ n) :
    d.growable = true ∨ n = d.size := by
  by_contra hc
  simp only [not_or,Bool.not_eq_true] at hc
  have hne : n > d.size := by omega
  unfold makeRoom at h
  simp only [on] at h
  rw [Prog.run_bind_of_ok on_devSize,if_pos hne] at h
  simp [Prog.run,Device.handle,Device.setLen,hc.1,Prog.throw,devSize] at h

/-- On a writable device a chain applies whole, once every descriptor is inside the extent. -/
theorem on_applyChain (hw : d.writable = true) {chain : List LogEntry}
    (hc : checkDescriptors (allowedExtent d.size chain) (descriptorsOf chain) = .ok ())
    (hg : d.growable = true ∨ allowedExtent d.size chain = d.size) :
    (applyChain chain).on d = (.ok (),d.replayed chain) := by
  simp only [applyChain,on]
  rw [Prog.run_bind_of_ok on_devSize,Prog.run_bind_of_ok (Prog.run_lift_of_ok hc),
    Prog.run_bind_of_ok (on_makeRoom (le_allowedExtent _ _) hg)]
  exact on_applyEntries (d := d.resize (allowedExtent d.size chain)) hw fun x hx =>
    (checkDescriptors_eq_ok.mp hc x hx).2

theorem on_applyChain_eq_ok (hw : d.writable = true) {chain : List LogEntry}
    (h : (applyChain chain).on d = (.ok (),d')) :
    checkDescriptors (allowedExtent d.size chain) (descriptorsOf chain) = .ok () ∧
      (d.growable = true ∨ allowedExtent d.size chain = d.size) ∧ d' = d.replayed chain := by
  have h' := h
  simp only [applyChain,on,Prog.run_bind_eq_ok,Prog.run_lift_eq_ok] at h'
  obtain ⟨n,d1,hn,u,d2,⟨hc,rfl⟩,_,d3,hroom,-⟩ := h'
  obtain ⟨rfl,rfl⟩ : d.size = n ∧ d = d2 := by
    have hd := on_devSize.symm.trans hn
    exact ⟨Outcome.ok.inj (Prod.mk.inj hd).1,(Prod.mk.inj hd).2⟩
  have hg := on_makeRoom_eq_ok hroom (le_allowedExtent _ _)
  refine ⟨hc,hg,?_⟩
  rw [on_applyChain hw hc hg] at h
  exact (Prod.mk.inj h).2.symm

@[simp] theorem Device.size_replayed {chain : List LogEntry} : (d.replayed chain).size = allowedExtent d.size chain :=
  Device.size_putAll

@[simp] theorem Device.writable_replayed {chain : List LogEntry} : (d.replayed chain).writable = d.writable :=
  Device.writable_putAll

@[simp] theorem Device.growable_replayed {chain : List LogEntry} : (d.replayed chain).growable = d.growable :=
  Device.growable_putAll

/-- The size open goes on with is the size the device has. -/
theorem replayedExtent_eq {n : Nat} {chain : List LogEntry}
    (hc : checkDescriptors (allowedExtent n chain) (descriptorsOf chain) = .ok ()) :
    replayedExtent n chain = allowedExtent n chain := by
  refine Nat.max_eq_left ?_
  have hfold : ∀ (xs : List Nat) (a b : Nat), a ≤ b → (∀ x ∈ xs, x ≤ b) → xs.foldl max a ≤ b := by
    intro xs
    induction xs with
    | nil => exact fun a b h _ => h
    | cons x xs ih =>
      exact fun a b h hx => ih _ _ (Nat.max_le.mpr ⟨h,hx x List.mem_cons_self⟩) fun y hy =>
        hx y (List.mem_cons_of_mem _ hy)
  refine hfold _ _ _ (Nat.zero_le _) fun y hy => ?_
  obtain ⟨x,hx,rfl⟩ := List.mem_map.mp hy
  obtain ⟨h64,hle⟩ := checkDescriptors_eq_ok.mp hc x hx
  rw [x.span_write]
  dsimp only
  rwa [saturatingAdd_of_lt h64]

end
end ImgVhdx
