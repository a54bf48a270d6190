import ImgVhdx.Reader.Invariant

/-! Every move of a write call keeps the layout sound, whatever the other calls are in the
middle of, and the virtual disk changes where the piece it writes lies and nowhere else. -/
namespace ImgVhdx
open Lib

section shared
variable {r : VhdxReader} {l : Layout} {w : World}

theorem Shared.lockSize (h : Shared r l w) : Shared r l { w with sizeHeld := true } :=
  { h with free := fun hf => by cases hf }

theorem Shared.unlockSize (h : Shared r l w) {n : Nat} (hn : w.devSize ≤ n) (hd : w.dev.size = n) (hsmall : n < 2^64) :
    Shared r l { w with devSize := n, sizeHeld := false } :=
  { h with
    sound := h.sound.mono hn
    logInside := h.logInside.imp id fun hle => hle.trans hn
    parts := fun part hp => (h.parts part hp).trans hn
    pos := Nat.lt_of_lt_of_le h.pos hn
    small := hsmall
    le := hd.ge
    free := fun _ => hd }

theorem Shared.resize (h : Shared r l w) {n : Nat} (hh : w.sizeHeld = true) (hn : w.devSize ≤ n) :
    Shared r l { w with dev := w.dev.resize n } :=
  { h with
    le := hn
    free := fun hf => by rw [hh] at hf; cases hf }

theorem Shared.lockHeader (h : Shared r l w) : Shared r l { w with headerHeld := true } := { h with }

theorem Shared.unlockHeader (h : Shared r l w) {x : Header} {s : HeaderSlot} (hx : x.logRegion = l.log) :
    Shared r l { w with header := x, slot := s, headerHeld := false } :=
  { h with logRegion := hx }

/-- Entries of a table with one of them replaced. -/
private theorem mem_set_cases {bat : List BatEntry} {i : Nat} {e f : BatEntry} (h : f ∈ bat.set i e) :
    f = e ∨ f ∈ bat :=
  (List.mem_or_eq_of_mem_set h).symm

/-- Publishing a claim of one's own. -/
theorem Shared.storeBat (h : Shared r l w) {i off : Nat} (hf : Fresh r l w off) :
    Shared r l { w with bat := w.bat.set i ⟨.fullyPresent,off⟩ } :=
  { h with
    sound := h.sound.set hf.inside hf.clear hf.apart
    megabytes := fun e he => (mem_set_cases he).elim (fun h => h ▸ hf.aligned) (h.megabytes e)
    batRoom := by rw [List.length_set]; exact h.batRoom }

/-- What another call has is its own after that as well. -/
theorem Own.storeBat {d e : Doing} {i off : Nat} (h : Own r l w e) (ha : w.Absent i) (hr : Rival r d e)
    (hp : d.pending = some i) (hc : d.claim = some off) :
    Own r l { w with bat := w.bat.set i ⟨.fullyPresent,off⟩ } e where
  pending j hj := by
    obtain ⟨x,hx,hz⟩ := h.pending j hj
    refine ⟨x,?_,hz⟩
    have hij : i ≠ j := fun hij => hr.pending i hp (hij ▸ hj)
    exact (List.getElem?_set_ne hij).trans hx
  fresh a hea := { h.fresh a hea with
    apart := fun f hf hd => (mem_set_cases hf).elim (fun he => he ▸ hr.claim off a hc hea) fun hf =>
      (h.fresh a hea).apart f hf hd }
  blank := h.blank
  bound j a hj := by
    have hx := h.bound j a hj
    have hij : i ≠ j := fun hij => by
      obtain ⟨x,hx',hz⟩ := ha
      subst hij
      rw [World.Present,hx'] at hx
      obtain rfl := Option.some.inj hx
      cases hz
    exact (List.getElem?_set_ne hij).trans hx
  holding := h.holding
  sizes := h.sizes
  room := h.room
  located := h.located

/-- A block at the tail belongs to nobody. -/
private theorem Shared.fresh_tail (h : Shared r l w) (hn : w.devSize + (r.blockSize - 1) < 2^64)
    (hroom : tailOffset r w.devSize + r.blockSize < 2^64) :
    Fresh r l { w with devSize := tailOffset r w.devSize + r.blockSize, sizeHeld := false } (tailOffset r w.devSize) where
  inside := le_rfl
  small := hroom
  aligned := r.oneMib_dvd.trans (tailOffset_spec hn).2.1
  clear part hp := by
    obtain ⟨hle,-,hb⟩ := tailOffset_spec hn
    have hmib : oneMib ≤ r.blockSize := r.blockSize_range.1
    have hpos := hb h.pos
    simp only [Span.Apart,Span.stop,blockSpan]
    rcases List.mem_cons.mp hp with rfl | hp
    · simp only [headerSection]
      omega
    rcases List.mem_cons.mp hp with rfl | hp
    · have := h.logInside
      simp only [Span.stop] at this
      omega
    · have := h.parts part hp
      simp only [Span.stop] at this
      omega
  past := (h.parts l.bat (by simp)).trans (tailOffset_spec hn).1
  apart e he hd := by
    obtain ⟨hle,-,-⟩ := tailOffset_spec hn
    have := h.sound.inside e he hd
    simp only [Span.Apart,Span.stop,blockSpan]
    omega

end shared

/-- What is asked of something that is not there. -/
private theorem nothing {α : Type} {P : α → Prop} : ∀ a, (none : Option α) = some a → P a := nofun

private theorem nothing₂ {α β : Type} {P : α → β → Prop} : ∀ a b, (none : Option (α × β)) = some (a,b) → P a b := nofun

private def Doing.compares : Doing → Bool
  | .extended _ _ => true
  | .located _ _ _ => true
  | _ => false

private theorem unextended {d : Doing} (h : d.compares = false) {P : Nat → Nat → Prop} :
    ∀ i n, d = .extended i n → P i n := by
  rintro i n rfl
  cases h

private theorem unlocated {d : Doing} (h : d.compares = false) {P : Nat → Nat → Nat → Prop} :
    ∀ i off n, d = .located i off n → P i off n := by
  rintro i off n rfl
  cases h

private theorem World.handle_storeBat {r : VhdxReader} {l : Layout} {w : World} {i off : Nat} (hf : Fresh r l w off) :
    (w.handle (.storeBat i (.fromU64 (presentRaw off)))).2 = { w with bat := w.bat.set i ⟨.fullyPresent,off⟩ } := by
  rw [← fromU64_presentRaw hf.aligned (by have := hf.small; omega)]
  rfl

section move
variable {ι : Type} {r : VhdxReader} {l : Layout} {w : World} {L : ι → Phase} {t : ι} {d : Doing} {ps : List Piece}
  {i n off : Nat}

private theorem Core.owns (hi : Core r l w L) (hd : (L t).doing = d) : Own r l w d := hd ▸ hi.own t

private theorem Core.rivals (hi : Core r l w L) (hd : (L t).doing = d) : ∀ u, u ≠ t → Rival r d (L u).doing :=
  fun u hu => hd ▸ hi.rival t u hu.symm

variable [DecidableEq ι]

private theorem Core.failed (hi : Core r l w L) : Core r l w (Function.update L t ⟨.failed,ps⟩) :=
  hi.keep rfl hi.shared rfl rfl rfl rfl nothing nothing nothing rfl nothing rfl

/-- The lookup of a block that is there. -/
private theorem Core.present {e : BatEntry} (hi : Core r l w L) (hd : (L t).doing = .idle) (hr : w.bat[i]? = some e)
    (he : e.state = .fullyPresent) : Core r l w (Function.update L t ⟨.bound i e.fileOffset,ps⟩) := by
  refine hi.quiet hi.shared rfl rfl rfl (fun _ _ _ => rfl)
    ⟨nothing,nothing,nothing,?_,nothing,nothing₂,unextended rfl,unlocated rfl⟩ fun u hu =>
    (hi.rivals hd u hu).mono nothing nothing fun h => by cases h
  rintro _ _ ⟨⟩
  exact hr.trans (congrArg some (show e = ⟨_,e.fileOffset⟩ by rw [← he]))

/-- The lookup of one that is not, and that no other call is about to publish. -/
private theorem Core.absent (hi : Core r l w L) (ha : w.Absent i) (hcond : ∀ u, u ≠ t → (L u).doing.pending ≠ some i) :
    Core r l w (Function.update L t ⟨.absent i,ps⟩) := by
  refine hi.quiet hi.shared rfl rfl rfl (fun _ _ _ => rfl)
    ⟨?_,nothing,nothing,nothing₂,nothing,nothing₂,unextended rfl,unlocated rfl⟩ fun u hu =>
    ⟨?_,(fun _ _ h => by cases h),(fun h => by cases h)⟩
  · rintro _ ⟨⟩
    exact ha
  · rintro _ ⟨⟩
    exact hcond u hu

/-- The lock on the size is taken: it was free, so no other call is behind it. -/
private theorem Core.lockSize (hi : Core r l w L) (hd : (L t).doing = .absent i) (hf : w.sizeHeld = false) :
    Core r l { w with sizeHeld := true } (Function.update L t ⟨.sizing i w.devSize,ps⟩) := by
  have hnone : ∀ u, ((L u).doing.sizes r).isSome = true → False := by
    intro u h
    obtain ⟨⟨a,b⟩,hs⟩ := Option.isSome_iff_exists.mp h
    rw [((hi.own u).sizes a b hs).1] at hf
    cases hf
  refine hi.quiet hi.shared.lockSize rfl rfl rfl (fun u _ h => (hnone u h).elim)
    ⟨(hi.owns hd).pending,nothing,nothing,nothing₂,nothing,?_,unextended rfl,unlocated rfl⟩ fun u hu =>
      ⟨(hi.rivals hd u hu).pending,(fun _ _ h => by cases h),fun _ h => hnone u h⟩
  rintro _ _ ⟨⟩
  exact ⟨rfl,rfl,(hi.shared.free hf).symm⟩

/-- The file is lengthened behind the lock. -/
private theorem Core.extend (hi : Core r l w L) (hd : (L t).doing = .sizing i n) (hn : n + (r.blockSize - 1) < 2^64)
    (hroom : tailOffset r n + r.blockSize < 2^64) :
    Core r l { w with dev := w.dev.resize (tailOffset r n + r.blockSize) } (Function.update L t ⟨.extended i n,ps⟩) := by
  have hown := hi.owns hd
  obtain ⟨hheld,hnd,hns⟩ := hown.sizes n n rfl
  have hle := (tailOffset_spec hn).1
  refine hi.update (hi.shared.resize hheld (by omega))
    ⟨hown.pending,nothing,nothing,nothing₂,nothing,?_,?_,(fun _ _ _ h => by cases h)⟩
    (fun u hu => (hi.own u).congr rfl le_rfl (fun a _ k _ => Device.byte_resize_of_le (by omega) _)
      fun h => ((hi.rivals hd u hu).sizes rfl h).elim) fun u hu => (hi.rivals hd u hu).mono (fun _ h => h) nothing fun _ => rfl
  · rintro _ _ ⟨⟩
    exact ⟨hheld,hnd,rfl⟩
  · rintro _ _ ⟨⟩
    exact ⟨hn,hroom⟩

/-- Or it is not, and the call still holds the lock. -/
private theorem Core.refuse (hi : Core r l w L) (hd : (L t).doing = .sizing i n) :
    Core r l w (Function.update L t ⟨.refusing n,ps⟩) :=
  hi.quiet hi.shared rfl rfl rfl (fun _ _ _ => rfl)
    ⟨nothing,nothing,nothing,nothing₂,nothing,(hi.owns hd).sizes,unextended rfl,unlocated rfl⟩ fun u hu =>
    (hi.rivals hd u hu).mono nothing nothing fun _ => rfl

private theorem Core.refused (hi : Core r l w L) (hd : (L t).doing = .refusing n) :
    Core r l { w with devSize := n, sizeHeld := false } (Function.update L t ⟨.failed,ps⟩) := by
  obtain ⟨-,hnd,hns⟩ := (hi.owns hd).sizes n n rfl
  exact hi.quiet (hi.shared.unlockSize hnd.ge hns.symm (hnd ▸ hi.shared.small)) rfl hnd rfl
    (fun u hu h => ((hi.rivals hd u hu).sizes rfl h).elim) (Own.of_none rfl rfl rfl rfl rfl) fun u hu =>
    (hi.rivals hd u hu).mono nothing nothing fun h => by cases h

/-- The lock is given back with the tail claimed. -/
private theorem Core.claim (hi : Core r l w L) (hd : (L t).doing = .extended i n) :
    Core r l { w with devSize := tailOffset r n + r.blockSize, sizeHeld := false }
      (Function.update L t ⟨.claimed i (tailOffset r n),ps⟩) := by
  have hown := hi.owns hd
  obtain ⟨hheld,rfl,hns⟩ := hown.sizes n _ rfl
  obtain ⟨hn,hroom⟩ := hown.room i _ rfl
  have hle := (tailOffset_spec hn).1
  refine hi.update (hi.shared.unlockSize (by omega) hns.symm hroom)
    ⟨hown.pending,?_,nothing,nothing₂,nothing,nothing₂,unextended rfl,unlocated rfl⟩
    (fun u hu => (hi.own u).congr rfl (show w.devSize ≤ tailOffset r w.devSize + r.blockSize by omega)
      (fun _ _ _ _ => rfl)
      fun h => ((hi.rivals hd u hu).sizes rfl h).elim) fun u hu =>
        ⟨(hi.rivals hd u hu).pending,?_,(fun h => by cases h)⟩
  · rintro _ ⟨⟩
    exact hi.shared.fresh_tail hn hroom
  · rintro _ b ⟨⟩ hb
    have := ((hi.own u).fresh b hb).inside
    simp only [Span.Apart,Span.stop,blockSpan]
    omega

/-- The claim is zeroed: no other call's reaches into it. -/
private theorem Core.zero (hi : Core r l w L) (hd : (L t).doing = .claimed i off)
    (hin : off + (zeros r.blockSize).length ≤ w.dev.size) :
    Core r l { w with dev := w.dev.put off (zeros r.blockSize) } (Function.update L t ⟨.zeroed i off,ps⟩) := by
  have hown := hi.owns hd
  refine hi.write (fun u hu a ha => ?_) ⟨hown.pending,?_,?_,nothing₂,nothing,nothing₂,unextended rfl,unlocated rfl⟩ fun u hu =>
    (hi.rivals hd u hu).mono (fun _ h => h) (fun _ h => h) fun h => by cases h
  · rw [length_zeros]
    exact (hi.rivals hd u hu).claim off a rfl ha
  · rintro _ ⟨⟩
    exact (hown.fresh off rfl).congr rfl le_rfl
  · rintro _ ⟨⟩ k hk
    rw [Device.byte_put_inside hin (by rw [length_zeros]; exact hk)]
    simp [zeros]

/-- The header's lock is taken, and with it a header whose log is the layout's. -/
private theorem Core.lockHeader {c : SectorCopy} (hi : Core r l w L) (hd : (L t).doing = .copied c) :
    Core r l { w with headerHeld := true } (Function.update L t ⟨.stamping c w.header w.slot,ps⟩) := by
  refine hi.keep hd hi.shared.lockHeader rfl rfl rfl rfl (fun _ h => h) (fun _ h => h) (fun _ h => h) rfl ?_ rfl
  rintro _ ⟨⟩
  exact .inr hi.shared.logRegion

/-- The BAT sector is written: a table's sector is inside the container. -/
private theorem Core.publish {c : SectorCopy} (hi : Core r l w L) (hd : (L t).doing = .ready c)
    (hlen : c.sector.length = logSectorSize) :
    Core r l { w with dev := w.dev.put (sectorOffset r c.batIdx) c.sector }
    (Function.update L t ⟨.published c.batIdx c.off,ps⟩) := by
  obtain ⟨e,he,-⟩ := (hi.owns hd).pending c.batIdx rfl
  refine hi.write_walled ?_ ?_ ?_ ?_ rfl nothing rfl
  · rw [hlen]
    exact walled_sector hi.shared (List.getElem?_eq_some_iff.mp he).1
  all_goals rw [hd]; exact fun _ h => h

/-- The claim becomes the block. -/
private theorem Core.storeBat (hi : Core r l w L) (hd : (L t).doing = .published i off) :
    Core r l { w with bat := w.bat.set i ⟨.fullyPresent,off⟩ } (Function.update L t ⟨.bound i off,ps⟩) := by
  have hown := hi.owns hd
  have ha := hown.pending i rfl
  refine hi.update (hi.shared.storeBat (hown.fresh off rfl))
    ⟨nothing,nothing,nothing,?_,nothing,nothing₂,unextended rfl,unlocated rfl⟩
    (fun u hu => (hi.own u).storeBat ha (hi.rivals hd u hu) rfl rfl) fun u hu =>
    (hi.rivals hd u hu).mono nothing nothing fun h => by cases h
  rintro _ _ ⟨⟩
  obtain ⟨e,he,-⟩ := ha
  exact List.getElem?_set_self (List.getElem?_eq_some_iff.mp he).1

private theorem Core.locate (hi : Core r l w L) (hd : (L t).doing = .bound i off) :
    Core r l w (Function.update L t ⟨.located i off w.devSize,ps⟩) := by
  have hown := hi.owns hd
  refine hi.quiet hi.shared rfl rfl rfl (fun _ _ _ => rfl)
    ⟨nothing,nothing,nothing,hown.bound,nothing,nothing₂,(fun _ _ h => by cases h),?_⟩ fun u hu =>
    (hi.rivals hd u hu).mono nothing nothing fun h => by cases h
  rintro _ _ _ ⟨⟩
  exact hi.shared.sound.inside _ (List.mem_of_getElem? (hown.bound i off rfl)) rfl

/-- The piece's bytes are written into the block it found. -/
private theorem Core.payload {p : Piece} (hi : Core r l w L) (hd : (L t).doing = .located p.batIdx off n)
    (hb : p.inBlock + p.src.length ≤ r.blockSize) :
    Core r l { w with dev := w.dev.put (off + p.inBlock) p.src } (Function.update L t ⟨.idle,ps⟩) := by
  refine hi.write (fun u hu a ha => ?_) (Own.of_none rfl rfl rfl rfl rfl) fun u hu =>
    (hi.rivals hd u hu).mono nothing nothing fun h => by cases h
  have := ((hi.own u).fresh a ha).apart _ (List.mem_of_getElem? ((hi.owns hd).bound p.batIdx off rfl)) rfl
  exact this.inner (Nat.le_add_right _ _) (by simp only [Span.stop,blockSpan]; omega)

variable [Crc32c] {call : List Piece} {op : ReaderOp} {p' : Phase}

/-- Every move keeps the layout sound, as long as no call looks a block up as absent that
another has yet to publish. -/
theorem Core.move (hi : Core r l w L) (hcall : ∀ p ∈ call, p.inBlock + p.src.length ≤ r.blockSize) (hfree : w.free op)
    (hcond : ∀ i, op = .loadBat i → w.Absent i → ∀ u, u ≠ t → (L u).doing.pending ≠ some i)
    (hm : Move r call (L t) op (w.handle op).1 p') : Core r l (w.handle op).2 (Function.update L t p') := by
  generalize hr : (w.handle op).1 = reply at hm
  generalize hL : L t = p at hm
  have hd := congrArg Phase.doing hL
  have hown := hi.owns hd
  cases hm with
  | present _ he => exact hi.present hd hr he
  | absent _ he => exact hi.absent ⟨_,hr,he⟩ (hcond _ rfl ⟨_,hr,he⟩)
  | unreadable => exact hi.failed
  | outside => exact hi.failed
  | lockSize =>
    obtain rfl := hr
    exact hi.lockSize hd hfree
  | extend hn hroom =>
    rw [World.handle_setLen_ok hr]
    exact hi.extend hd hn hroom
  | refuse =>
    rw [World.handle_setLen_error hr]
    exact hi.refuse hd
  | refused => exact hi.refused hd
  | claim => exact hi.claim hd
  | zero =>
    obtain ⟨-,hin,hw⟩ := World.handle_write_ok hr
    rw [hw]
    exact hi.zero hd hin
  | copy => exact hi.keep hd hi.shared rfl rfl rfl rfl (fun _ h => h) (fun _ h => h) (fun _ h => h) rfl nothing rfl
  | lockHeader =>
    obtain ⟨rfl,rfl⟩ := Prod.mk.inj hr
    exact hi.lockHeader hd
  | skip =>
    exact hi.keep hd (hi.shared.unlockHeader (hown.holding _ rfl)) rfl rfl rfl rfl (fun _ h => h) (fun _ h => h)
      (fun _ h => h) rfl nothing rfl
  | measure =>
    exact hi.keep hd hi.shared rfl rfl rfl rfl (fun _ h => h) (fun _ h => h) (fun _ h => h) rfl (fun _ h => .inl h) rfl
  | tooLong =>
    exact hi.keep hd (hi.shared.unlockHeader (hown.holding _ rfl)) rfl rfl rfl rfl (fun _ h => h) (fun _ h => h)
      (fun _ h => h) rfl nothing rfl
  | log _ hfits =>
    rw [(World.handle_write_ok hr).2.2]
    refine hi.write_walled (walled_logRegion (hown.holding _ rfl) hfits) ?_ ?_ ?_ rfl ?_ rfl
    all_goals rw [hd]; exact fun _ h => h
  | rotate =>
    rw [(World.handle_write_ok hr).2.2]
    refine hi.write_walled (by rw [length_encodeHeader]; exact walled_slot _) ?_ ?_ ?_ rfl ?_ rfl
    all_goals rw [hd]; exact fun _ h => h
  | logFailed =>
    rw [World.handle_write_error hr]
    exact hi.keep hd hi.shared rfl rfl rfl rfl nothing nothing nothing rfl (fun _ h => .inl h) rfl
  | rotateFailed =>
    rw [World.handle_write_error hr]
    exact hi.keep hd hi.shared rfl rfl rfl rfl nothing nothing nothing rfl (fun _ h => .inl h) rfl
  | @store _ h =>
    exact hi.keep hd (hi.shared.unlockHeader (hown.holding h rfl)) rfl rfl rfl rfl (fun _ h => h) (fun _ h => h)
      (fun _ h => h) rfl nothing rfl
  | abandon =>
    exact hi.keep hd (hi.shared.unlockHeader (hown.holding _ rfl)) rfl rfl rfl rfl nothing nothing nothing rfl nothing rfl
  | publish hlen =>
    rw [(World.handle_write_ok hr).2.2]
    exact hi.publish hd hlen
  | storeBat =>
    rw [World.handle_storeBat (hown.fresh _ rfl)]
    exact hi.storeBat hd
  | storeOutside =>
    obtain ⟨e,he,-⟩ := hown.pending _ rfl
    exact absurd (List.getElem?_eq_some_iff.mp he).1 (of_decide_eq_false hr)
  | locate =>
    obtain rfl := hr
    exact hi.locate hd
  | payload hp =>
    rw [(World.handle_write_ok hr).2.2]
    exact hi.payload hd (hcall _ hp)
  | writeFailed =>
    rw [World.handle_write_error hr]
    exact hi.failed
  | readFailed => exact hi.failed
  | flush =>
    rw [← hL,Function.update_eq_self]
    exact hi

end move

section disk
variable {r : VhdxReader} {l : Layout} {w w' : World}

theorem World.blockByte_congr (hbat : w'.bat = w.bat) {i k : Nat}
    (h : ∀ off, w.Present i off → w'.dev.byte (off + k) = w.dev.byte (off + k)) :
    w'.blockByte i k = w.blockByte i k := by
  unfold World.blockByte
  rw [hbat]
  cases he : w.bat[i]? with
  | none => rfl
  | some e =>
    dsimp only
    split_ifs with hf
    · exact h e.fileOffset (he.trans (congrArg some (show e = ⟨_,e.fileOffset⟩ by rw [← hf])))
    · rfl

theorem Shared.present (h : Shared r l w) {i off : Nat} (hp : w.Present i off) :
    oneMib ∣ off ∧ l.Clear (blockSpan r off) ∧ off + r.blockSize ≤ w.devSize :=
  have hm := List.mem_of_getElem? hp
  ⟨h.megabytes _ hm,h.sound.clear _ hm rfl,h.sound.inside _ hm rfl⟩

/-- A write that reaches into no block that is there. -/
private theorem World.blockByte_put {off k i : Nat} {bs : Bytes} (hk : k < r.blockSize)
    (h : ∀ a, w.Present i a → (Span.mk off bs.length).Apart (blockSpan r a)) :
    ({ w with dev := w.dev.put off bs } : World).blockByte i k = w.blockByte i k := by
  refine World.blockByte_congr (by rfl) fun a ha => Device.byte_put_of_outside ?_
  have := h a ha
  simp only [Span.Apart,Span.stop,blockSpan] at this
  omega

private theorem World.blockByte_walled (hs : Shared r l w) {off k i : Nat} {bs : Bytes} (hk : k < r.blockSize)
    (hw : Walled r l ⟨off,bs.length⟩) : ({ w with dev := w.dev.put off bs } : World).blockByte i k = w.blockByte i k :=
  World.blockByte_put hk fun a ha => hw a (hs.present ha).1 (hs.present ha).2.1

variable {ι : Type} {call : List Piece} {L : ι → Phase} {t : ι} {i j k n off : Nat} {ps : List Piece}

private theorem Core.disk_extend (hi : Core r l w L) (hd : (L t).doing = .sizing i n)
    (hn : n + (r.blockSize - 1) < 2^64) :
    ({ w with dev := w.dev.resize (tailOffset r n + r.blockSize) } : World).blockByte j k = w.blockByte j k := by
  obtain ⟨-,-,hns⟩ := (hi.owns hd).sizes n n rfl
  have hle := (tailOffset_spec hn).1
  exact World.blockByte_congr (by rfl) fun a _ => Device.byte_resize_of_le (by omega) _

/-- Zeros land in a claim, where no block is yet. -/
private theorem Core.disk_zero (hi : Core r l w L) (hd : (L t).doing = .claimed i off) (hk : k < r.blockSize) :
    ({ w with dev := w.dev.put off (zeros r.blockSize) } : World).blockByte j k = w.blockByte j k := by
  refine World.blockByte_put hk fun a ha => ?_
  rw [length_zeros]
  exact (((hi.owns hd).fresh off rfl).apart _ (List.mem_of_getElem? ha) rfl).symm

/-- The block that appears reads as the zeros it was absent as. -/
private theorem Core.disk_storeBat (hi : Core r l w L) (hd : (L t).doing = .published i off) (hk : k < r.blockSize) :
    ({ w with bat := w.bat.set i ⟨.fullyPresent,off⟩ } : World).blockByte j k = w.blockByte j k := by
  have ha := (hi.owns hd).pending i rfl
  by_cases hij : i = j
  · subst hij
    obtain ⟨e,he,-⟩ := id ha
    have hp : World.Present { w with bat := w.bat.set i ⟨.fullyPresent,off⟩ } i off :=
      List.getElem?_set_self (List.getElem?_eq_some_iff.mp he).1
    rw [ha.blockByte,hp.blockByte]
    exact (hi.owns hd).blank off rfl k hk
  · unfold World.blockByte
    rw [List.getElem?_set_ne hij]

/-- The piece is written where its block is, and reaches into no other. -/
private theorem Core.disk_payload {p : Piece} (hi : Core r l w L) (hd : (L t).doing = .located p.batIdx off n)
    (hb : p.inBlock + p.src.length ≤ r.blockSize) (hin : off + p.inBlock + p.src.length ≤ w.dev.size) :
    (∀ k, (hk : k < p.src.length) →
      ({ w with dev := w.dev.put (off + p.inBlock) p.src } : World).blockByte p.batIdx (p.inBlock + k) = p.src[k]) ∧
    ∀ i k, k < r.blockSize → ¬ p.Covers i k →
      ({ w with dev := w.dev.put (off + p.inBlock) p.src } : World).blockByte i k = w.blockByte i k := by
  have hpres := (hi.owns hd).bound p.batIdx off rfl
  refine ⟨fun k hk => ?_,fun i k hk hc => ?_⟩
  · rw [(hpres.congr rfl : World.Present { w with dev := w.dev.put (off + p.inBlock) p.src } p.batIdx off).blockByte]
    rw [← Nat.add_assoc,Device.byte_put_inside hin hk]
  · refine World.blockByte_congr (by rfl) fun a ha => Device.byte_put_of_outside ?_
    by_cases hij : p.batIdx = i
    · subst hij
      obtain rfl : off = a := congrArg BatEntry.fileOffset (Option.some.inj (hpres.symm.trans ha))
      by_contra hcon
      exact hc ⟨rfl,by omega,by omega⟩
    · have := hi.shared.sound.apart _ _ _ _ hpres ha hij rfl rfl
      simp only [Span.Apart,Span.stop,blockSpan] at this
      omega

variable [Crc32c] {op : ReaderOp} {p' : Phase}

/-- A move leaves every byte of the virtual disk, but for the bytes of the piece it writes. -/
theorem Core.disk_move (hi : Core r l w L) (hcall : ∀ p ∈ call, p.inBlock + p.src.length ≤ r.blockSize)
    (hm : Move r call (L t) op (w.handle op).1 p') :
    (p'.done = (L t).done ∧ ∀ i k, k < r.blockSize → (w.handle op).2.blockByte i k = w.blockByte i k) ∨
    ∃ p ∈ call, p'.done = (L t).done ++ [p] ∧ (∃ off, w.Present p.batIdx off) ∧
      (∀ k, (hk : k < p.src.length) → (w.handle op).2.blockByte p.batIdx (p.inBlock + k) = p.src[k]) ∧
      ∀ i k, k < r.blockSize → ¬ p.Covers i k → (w.handle op).2.blockByte i k = w.blockByte i k := by
  generalize hr : (w.handle op).1 = reply at hm
  generalize hL : L t = p at hm
  have hd := congrArg Phase.doing hL
  have hown := hi.owns hd
  cases hm with
  | extend hn =>
    rw [World.handle_setLen_ok hr]
    exact .inl ⟨rfl,fun _ _ _ => hi.disk_extend hd hn⟩
  | refuse =>
    rw [World.handle_setLen_error hr]
    exact .inl ⟨rfl,fun _ _ _ => rfl⟩
  | zero =>
    rw [(World.handle_write_ok hr).2.2]
    exact .inl ⟨rfl,fun _ _ hk => hi.disk_zero hd hk⟩
  | log _ hfits =>
    rw [(World.handle_write_ok hr).2.2]
    exact .inl ⟨rfl,fun _ _ hk => World.blockByte_walled hi.shared hk (walled_logRegion (hown.holding _ rfl) hfits)⟩
  | rotate =>
    rw [(World.handle_write_ok hr).2.2]
    exact .inl ⟨rfl,fun _ _ hk => World.blockByte_walled hi.shared hk
      (by rw [length_encodeHeader]; exact walled_slot _)⟩
  | publish hlen =>
    obtain ⟨e,he,-⟩ := hown.pending _ rfl
    rw [(World.handle_write_ok hr).2.2]
    exact .inl ⟨rfl,fun _ _ hk => World.blockByte_walled hi.shared hk
      (by rw [hlen]; exact walled_sector hi.shared (List.getElem?_eq_some_iff.mp he).1)⟩
  | storeBat =>
    rw [World.handle_storeBat (hown.fresh _ rfl)]
    exact .inl ⟨rfl,fun _ _ hk => hi.disk_storeBat hd hk⟩
  | @payload off _ p _ hp =>
    obtain ⟨-,hin,hw⟩ := World.handle_write_ok hr
    rw [hw]
    exact .inr ⟨p,hp,rfl,⟨off,hown.bound _ _ rfl⟩,hi.disk_payload hd (hcall p hp) hin⟩
  | storeOutside =>
    obtain ⟨e,he,-⟩ := hown.pending _ rfl
    exact absurd (List.getElem?_eq_some_iff.mp he).1 (of_decide_eq_false hr)
  | logFailed => exact .inl ⟨rfl,fun _ _ _ => by rw [World.handle_write_error hr]⟩
  | rotateFailed => exact .inl ⟨rfl,fun _ _ _ => by rw [World.handle_write_error hr]⟩
  | writeFailed => exact .inl ⟨rfl,fun _ _ _ => by rw [World.handle_write_error hr]⟩
  | _ => exact .inl ⟨rfl,fun _ _ _ => rfl⟩

/-- A block that is there stays where it is. -/
theorem Core.present_move (hi : Core r l w L) (hm : Move r call (L t) op (w.handle op).1 p') {i off : Nat}
    (hp : w.Present i off) :
    (w.handle op).2.Present i off := by
  cases op with
  | storeBat j e =>
    have hown := hi.own t
    generalize (w.handle (.storeBat j e)).1 = reply at hm
    generalize L t = p at hm hown
    obtain ⟨x,hx,hz⟩ : w.Absent j := by
      cases hm with
      | storeBat => exact hown.pending j rfl
      | storeOutside => exact hown.pending j rfl
    refine (List.getElem?_set_ne fun hj => ?_).trans hp
    subst hj
    rw [World.Present,hx] at hp
    obtain rfl := Option.some.inj hp
    cases hz
  | dev op => exact hp
  | lockSize => exact hp
  | unlockSize n => exact hp
  | loadSize => exact hp
  | lockHeader => exact hp
  | unlockHeader h s => exact hp
  | loadBat j => exact hp

end disk
end ImgVhdx
