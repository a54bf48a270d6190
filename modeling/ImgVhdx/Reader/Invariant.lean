import ImgVhdx.Reader.Sound

/-! What holds between any two moves of any number of write calls on one reader: the
layout stays sound, each call's claims are its own, and the virtual disk changes only
where a piece is written. -/
namespace ImgVhdx
open Lib

namespace Doing

/-- The block it saw absent and has not published. -/
def pending : Doing → Option Nat
  | .absent i | .sizing i _ | .extended i _ | .claimed i _ | .zeroed i _ | .published i _ => some i
  | .copied c | .stamping c _ _ | .measured c _ _ _ | .logged c _ _ | .rotated c _ _ | .ready c => some c.batIdx
  | _ => none

def claim : Doing → Option Nat
  | .claimed _ off | .zeroed _ off | .published _ off => some off
  | .copied c | .stamping c _ _ | .measured c _ _ _ | .logged c _ _ | .rotated c _ _ | .ready c => some c.off
  | _ => none

/-- The claim once it is all zeros. -/
def blank : Doing → Option Nat
  | .claimed _ _ => none
  | d => d.claim

def boundTo : Doing → Option (Nat × Nat)
  | .bound i off | .located i off _ => some (i,off)
  | _ => none

def holding : Doing → Option Header
  | .stamping _ h _ | .measured _ h _ _ | .logged _ h _ | .rotated _ h _ | .abandoning h _ => some h
  | _ => none

/-- With the size locked: the size it read, and the size the device has. -/
def sizes (r : VhdxReader) : Doing → Option (Nat × Nat)
  | .sizing _ n | .refusing n => some (n,n)
  | .extended _ n => some (n,tailOffset r n + r.blockSize)
  | _ => none

end Doing

structure Fresh (r : VhdxReader) (l : Layout) (w : World) (off : Nat) : Prop where
  inside : off + r.blockSize ≤ w.devSize
  small : off + r.blockSize < 2^64
  aligned : oneMib ∣ off
  clear : l.Clear (blockSpan r off)
  past : l.bat.stop ≤ off
  apart : ∀ e ∈ w.bat, e.state.blockOnDisk = true → (blockSpan r e.fileOffset).Apart (blockSpan r off)

/-- What the calls share. -/
structure Shared (r : VhdxReader) (l : Layout) (w : World) : Prop where
  sound : SoundBat r l w.devSize w.bat
  megabytes : ∀ e ∈ w.bat, oneMib ∣ e.fileOffset
  logInside : l.log.len = 0 ∨ l.log.stop ≤ w.devSize
  parts : ∀ part ∈ [l.metadata,l.bat], part.stop ≤ w.devSize
  pos : 0 < w.devSize
  small : w.devSize < 2^64
  le : w.devSize ≤ w.dev.size
  batStart : l.bat.start = r.batRegionOff
  batAligned : 4096 ∣ r.batRegionOff
  batRoom : w.bat.length * batEntrySize ≤ l.bat.len
  batSmall : l.bat.stop < 2^64
  logRegion : w.header.logRegion = l.log
  free : w.sizeHeld = false → w.dev.size = w.devSize

/-- What a call in the middle of `d` has to itself. -/
structure Own (r : VhdxReader) (l : Layout) (w : World) (d : Doing) : Prop where
  pending : ∀ i, d.pending = some i → w.Absent i
  fresh : ∀ off, d.claim = some off → Fresh r l w off
  blank : ∀ off, d.blank = some off → ∀ k < r.blockSize, w.dev.byte (off + k) = 0
  bound : ∀ i off, d.boundTo = some (i,off) → w.Present i off
  holding : ∀ h, d.holding = some h → h.logRegion = l.log
  sizes : ∀ n m, d.sizes r = some (n,m) → w.sizeHeld = true ∧ n = w.devSize ∧ m = w.dev.size
  room : ∀ i n, d = .extended i n → n + (r.blockSize - 1) < 2^64 ∧ tailOffset r n + r.blockSize < 2^64
  located : ∀ i off n, d = .located i off n → off + r.blockSize ≤ n

/-- Two calls that claim nothing in common. -/
structure Rival (r : VhdxReader) (d e : Doing) : Prop where
  pending : ∀ i, d.pending = some i → e.pending ≠ some i
  claim : ∀ a b, d.claim = some a → e.claim = some b → (blockSpan r a).Apart (blockSpan r b)
  sizes : (d.sizes r).isSome = true → (e.sizes r).isSome = true → False

section own
variable {r : VhdxReader} {l : Layout} {w w' : World} {d d' e : Doing}

private theorem Doing.claim_of_blank {off : Nat} (h : d.blank = some off) : d.claim = some off := by
  cases d <;> first | exact h | cases h

/-- Nothing is asked of a call between two pieces. -/
theorem Own.of_none (hp : d.pending = none) (hc : d.claim = none) (hb : d.boundTo = none) (hh : d.holding = none)
    (hs : d.sizes r = none) : Own r l w d where
  pending i h := by rw [hp] at h; cases h
  fresh off h := by rw [hc] at h; cases h
  blank off h := by rw [Doing.claim_of_blank h] at hc; cases hc
  bound i off h := by rw [hb] at h; cases h
  holding h hd := by rw [hh] at hd; cases hd
  sizes n m h := by rw [hs] at h; cases h
  room i n h := by rw [h] at hs; cases hs
  located i off n h := by rw [h] at hb; cases hb

theorem Fresh.congr {off : Nat} (h : Fresh r l w off) (hbat : w'.bat = w.bat) (hsize : w.devSize ≤ w'.devSize) :
    Fresh r l w' off where
  inside := h.inside.trans hsize
  small := h.small
  aligned := h.aligned
  clear := h.clear
  past := h.past
  apart := by rw [hbat]; exact h.apart

theorem World.Absent.congr {i : Nat} (h : w.Absent i) (hbat : w'.bat = w.bat) : w'.Absent i := by
  unfold World.Absent
  rw [hbat]
  exact h

theorem World.Present.congr {i off : Nat} (h : w.Present i off) (hbat : w'.bat = w.bat) : w'.Present i off := by
  unfold World.Present
  rw [hbat]
  exact h

/-- What a call has stays its own while the BAT stands and its zeros are not touched. -/
theorem Own.congr (h : Own r l w d) (hbat : w'.bat = w.bat) (hsize : w.devSize ≤ w'.devSize)
    (hblank : ∀ off, d.blank = some off → ∀ k < r.blockSize, w'.dev.byte (off + k) = w.dev.byte (off + k))
    (hheld : (d.sizes r).isSome = true → w'.sizeHeld = w.sizeHeld ∧ w'.devSize = w.devSize ∧ w'.dev.size = w.dev.size) :
    Own r l w' d where
  pending i hi := (h.pending i hi).congr hbat
  fresh off ho := (h.fresh off ho).congr hbat hsize
  blank off ho k hk := (hblank off ho k hk).trans (h.blank off ho k hk)
  bound i off ho := (h.bound i off ho).congr hbat
  holding := h.holding
  sizes n m hs := by
    obtain ⟨h1,h2,h3⟩ := hheld (by rw [hs]; rfl)
    rw [h1,h2,h3]
    exact h.sizes n m hs
  room := h.room
  located := h.located

/-- A phase that claims no more than another of the same call. -/
theorem Own.mono (h : Own r l w d) (hp : ∀ i, d'.pending = some i → d.pending = some i)
    (hc : ∀ off, d'.claim = some off → d.claim = some off) (hbl : ∀ off, d'.blank = some off → d.blank = some off)
    (hb : d'.boundTo = none) (hh : ∀ x, d'.holding = some x → d.holding = some x ∨ x.logRegion = l.log)
    (hs : d'.sizes r = none) : Own r l w d' where
  pending i hi := h.pending i (hp i hi)
  fresh off ho := h.fresh off (hc off ho)
  blank off ho := h.blank off (hbl off ho)
  bound i off ho := by rw [hb] at ho; cases ho
  holding x hx := (hh x hx).elim (h.holding x) id
  sizes n m hn := by rw [hs] at hn; cases hn
  room i n hn := by rw [hn] at hs; cases hs
  located i off n hn := by rw [hn] at hb; cases hb

theorem Rival.symm (h : Rival r d e) : Rival r e d where
  pending i hi hd := h.pending i hd hi
  claim a b ha hb := (h.claim b a hb ha).symm
  sizes hs hd := h.sizes hd hs

theorem Rival.mono (h : Rival r d e) (hp : ∀ i, d'.pending = some i → d.pending = some i)
    (hc : ∀ off, d'.claim = some off → d.claim = some off)
    (hs : (d'.sizes r).isSome = true → (d.sizes r).isSome = true) :
    Rival r d' e where
  pending i hi := h.pending i (hp i hi)
  claim a b ha := h.claim a b (hc a ha)
  sizes hd := h.sizes (hs hd)

end own

section parts
variable {r : VhdxReader} {l : Layout} {w : World}

/-- A span no clear block, on its megabyte, reaches into. -/
def Walled (r : VhdxReader) (l : Layout) (s : Span) : Prop :=
  ∀ off, oneMib ∣ off → l.Clear (blockSpan r off) → s.Apart (blockSpan r off)

theorem Span.Apart.inner {a b s : Span} (h : a.Apart b) (hlo : a.start ≤ s.start) (hhi : s.stop ≤ a.stop) :
    s.Apart b := by
  unfold Span.Apart at *
  omega

private theorem walled_of_part {a s : Span} (hp : a ∈ l.parts) (hlo : a.start ≤ s.start) (hhi : s.stop ≤ a.stop) :
    Walled r l s := fun _ _ hc => (hc a hp).symm.inner hlo hhi

theorem walled_slot (s : HeaderSlot) : Walled r l ⟨s.offset,headerSize⟩ :=
  walled_of_part (a := headerSection) (by simp [Layout.parts]) (Nat.zero_le _) (by cases s <;> decide)

private theorem walled_log {n : Nat} (h : n ≤ l.log.len) : Walled r l ⟨l.log.start,n⟩ :=
  walled_of_part (a := l.log) (by simp [Layout.parts]) le_rfl (by simp only [Span.stop]; omega)

theorem walled_logRegion {h : Header} {n : Nat} (hlog : h.logRegion = l.log) (hn : n ≤ h.logLength.toNat) :
    Walled r l ⟨h.logOffset.toNat,n⟩ :=
  show Walled r l ⟨h.logRegion.start,n⟩ from hlog ▸ walled_log (hlog ▸ hn)

/-- A BAT sector may reach past the region's end, but not past the next megabyte. -/
theorem walled_sector (hs : Shared r l w) {i : Nat} (hi : i < w.bat.length) :
    Walled r l ⟨sectorOffset r i,logSectorSize⟩ := by
  intro off hoff hc
  have hbat := hc l.bat (by simp [Layout.parts])
  have hroom := hs.batRoom
  have hsmall := hs.batSmall
  have hstart := hs.batStart
  have halign := hs.batAligned
  have hpos := r.blockSize_pos
  have h8 : batEntrySize = 8 := rfl
  have hl : logSectorSize = 4096 := rfl
  have hm : oneMib = 1048576 := rfl
  simp only [Span.stop] at hsmall
  rw [h8] at hroom
  have he : entryOffset r i = r.batRegionOff + i * 8 := rfl
  have hspec := sectorOffset_spec (r := r) (i := i) (by omega)
  rw [hm] at hoff
  obtain ⟨ka,hka⟩ := halign
  obtain ⟨kb,hkb⟩ := hspec.2.2
  obtain ⟨kc,hkc⟩ := hoff
  simp only [Span.Apart,Span.stop,blockSpan] at hbat ⊢
  omega

end parts

section handle
variable {w : World} {off : Nat} {bs : Bytes}

theorem World.handle_write_ok (h : (w.handle (.dev (.write off bs))).1 = .ok ()) : w.dev.writable = true ∧
    off + bs.length ≤ w.dev.size ∧ (w.handle (.dev (.write off bs))).2 = { w with dev := w.dev.put off bs } := by
  change (w.dev.writeAt off bs).1 = _ at h
  change _ ∧ _ ∧ { w with dev := (w.dev.writeAt off bs).2 } = _
  rcases w.dev.writeAt_cases off bs with ⟨e,he⟩ | ⟨hw,hb,he⟩
  · rw [he] at h
    cases h
  · rw [he]
    exact ⟨hw,hb,rfl⟩

theorem World.handle_write_error {e : FsError} (h : (w.handle (.dev (.write off bs))).1 = .error e) :
    (w.handle (.dev (.write off bs))).2 = w := by
  change (w.dev.writeAt off bs).1 = _ at h
  change { w with dev := (w.dev.writeAt off bs).2 } = w
  rcases w.dev.writeAt_cases off bs with ⟨e,he⟩ | ⟨-,-,he⟩
  · rw [he]
  · rw [he] at h
    cases h

theorem World.handle_setLen_ok {n : Nat} (h : (w.handle (.dev (.setLen n))).1 = .ok ()) :
    (w.handle (.dev (.setLen n))).2 = { w with dev := w.dev.resize n } := by
  change (w.dev.setLen n).1 = _ at h
  change { w with dev := (w.dev.setLen n).2 } = _
  rcases w.dev.setLen_cases n with ⟨-,he⟩ | ⟨-,he⟩
  · rw [he] at h
    cases h
  · rw [he]

theorem World.handle_setLen_error {n : Nat} {e : FsError} (h : (w.handle (.dev (.setLen n))).1 = .error e) :
    (w.handle (.dev (.setLen n))).2 = w := by
  change (w.dev.setLen n).1 = _ at h
  change { w with dev := (w.dev.setLen n).2 } = w
  rcases w.dev.setLen_cases n with ⟨-,he⟩ | ⟨-,he⟩
  · rw [he]
  · rw [he] at h
    cases h

end handle

/-- The layout is sound and every call's claims are its own. -/
structure Core {ι : Type} (r : VhdxReader) (l : Layout) (w : World) (L : ι → Phase) : Prop where
  shared : Shared r l w
  own : ∀ t, Own r l w (L t).doing
  rival : ∀ t u, t ≠ u → Rival r (L t).doing (L u).doing

section core
variable {ι : Type} [DecidableEq ι] {r : VhdxReader} {l : Layout} {w w' : World} {L : ι → Phase} {t : ι} {d' : Doing}
  {ps : List Piece} {off : Nat} {bs : Bytes}

/-- One call moved on: what it has now, and that the others kept theirs. -/
theorem Core.update (hi : Core r l w L) (hs : Shared r l w') (ho : Own r l w' d')
    (hothers : ∀ u, u ≠ t → Own r l w' (L u).doing) (hr : ∀ u, u ≠ t → Rival r d' (L u).doing) :
    Core r l w' (Function.update L t ⟨d',ps⟩) where
  shared := hs
  own u := by
    by_cases hu : u = t
    · subst hu
      rwa [Function.update_self]
    · rw [Function.update_of_ne hu]
      exact hothers u hu
  rival u v huv := by
    by_cases hu : u = t
    · subst hu
      rw [Function.update_self,Function.update_of_ne huv.symm]
      exact hr v huv.symm
    · rw [Function.update_of_ne hu]
      by_cases hv : v = t
      · subst hv
        rw [Function.update_self]
        exact (hr u hu).symm
      · rw [Function.update_of_ne hv]
        exact hi.rival u v huv

/-- A move that changes no byte, no entry and no size. -/
theorem Core.quiet (hi : Core r l w L) (hs : Shared r l w') (hbat : w'.bat = w.bat) (hsize : w'.devSize = w.devSize)
    (hdev : w'.dev = w.dev) (hheld : ∀ u, u ≠ t → ((L u).doing.sizes r).isSome = true → w'.sizeHeld = w.sizeHeld)
    (ho : Own r l w' d') (hr : ∀ u, u ≠ t → Rival r d' (L u).doing) : Core r l w' (Function.update L t ⟨d',ps⟩) :=
  hi.update hs ho (fun u hu => (hi.own u).congr hbat hsize.ge (fun _ _ _ _ => by rw [hdev])
    fun h => ⟨hheld u hu h,hsize,by rw [hdev]⟩) hr

theorem Shared.put (h : Shared r l w) : Shared r l { w with dev := w.dev.put off bs } := { h with }

/-- A write clear of what a call has zeroed. -/
theorem Own.put {d : Doing} (h : Own r l w d)
    (ha : ∀ a, d.blank = some a → (Span.mk off bs.length).Apart (blockSpan r a)) :
    Own r l { w with dev := w.dev.put off bs } d := by
  refine h.congr rfl le_rfl (fun a hb k hk => Device.byte_put_of_outside ?_) fun _ => ⟨rfl,rfl,rfl⟩
  have := ha a hb
  simp only [Span.Apart,Span.stop,blockSpan] at this
  omega

/-- A write clear of every other call's claim. -/
theorem Core.write (hi : Core r l w L)
    (ha : ∀ u, u ≠ t → ∀ a, (L u).doing.claim = some a → (Span.mk off bs.length).Apart (blockSpan r a))
    (ho : Own r l { w with dev := w.dev.put off bs } d') (hr : ∀ u, u ≠ t → Rival r d' (L u).doing) :
    Core r l { w with dev := w.dev.put off bs } (Function.update L t ⟨d',ps⟩) :=
  hi.update hi.shared.put ho (fun u hu => (hi.own u).put fun a hb => ha u hu a (Doing.claim_of_blank hb)) hr

/-- A write into the container proper. -/
theorem Core.write_walled (hi : Core r l w L) (hw : Walled r l ⟨off,bs.length⟩)
    (hp : ∀ i, d'.pending = some i → (L t).doing.pending = some i)
    (hc : ∀ a, d'.claim = some a → (L t).doing.claim = some a)
    (hbl : ∀ a, d'.blank = some a → (L t).doing.blank = some a) (hb : d'.boundTo = none)
    (hh : ∀ x, d'.holding = some x → (L t).doing.holding = some x) (hs : d'.sizes r = none) :
    Core r l { w with dev := w.dev.put off bs } (Function.update L t ⟨d',ps⟩) := by
  have hclaim : ∀ u a, (L u).doing.claim = some a → (Span.mk off bs.length).Apart (blockSpan r a) := fun u a h =>
    hw a ((hi.own u).fresh a h).aligned ((hi.own u).fresh a h).clear
  refine hi.write (fun u _ => hclaim u) ?_ fun u hu => (hi.rival t u hu.symm).mono hp hc fun h =>
    (by rw [hs] at h; cases h)
  exact Own.mono ((hi.own t).put fun a hb => hclaim t a (Doing.claim_of_blank hb)) hp hc hbl hb
    (fun x hx => .inl (hh x hx)) hs

/-- A move that changes no byte, by a call that keeps no more than it had. -/
theorem Core.keep {d : Doing} (hi : Core r l w L) (hd : (L t).doing = d) (hs : Shared r l w') (hbat : w'.bat = w.bat)
    (hsize : w'.devSize = w.devSize) (hdev : w'.dev = w.dev) (hheld : w'.sizeHeld = w.sizeHeld)
    (hp : ∀ i, d'.pending = some i → d.pending = some i) (hc : ∀ a, d'.claim = some a → d.claim = some a)
    (hbl : ∀ a, d'.blank = some a → d.blank = some a) (hb : d'.boundTo = none)
    (hh : ∀ x, d'.holding = some x → d.holding = some x ∨ x.logRegion = l.log) (hz : d'.sizes r = none) :
    Core r l w' (Function.update L t ⟨d',ps⟩) := by
  subst hd
  have hown : Own r l w' (L t).doing := (hi.own t).congr hbat hsize.ge (fun _ _ _ _ => by rw [hdev])
    fun _ => ⟨hheld,hsize,by rw [hdev]⟩
  refine hi.quiet hs hbat hsize hdev (fun _ _ _ => hheld) (hown.mono hp hc hbl hb hh hz) fun u hu =>
    (hi.rival t u hu.symm).mono hp hc fun h => ?_
  rw [hz] at h
  cases h

end core
end ImgVhdx
