import ImgVhdx.Lib.Threads
import ImgVhdx.Reader.Transfer

/-! A write call as a sequence of moves: what it is in the middle of, the calls it may
make there, and that the program makes no others. -/
namespace ImgVhdx
open Lib ReaderProg

def tailOffset (r : VhdxReader) (devSize : Nat) : Nat := clearLow (devSize + (r.blockSize - 1)) r.blockSize

def entryOffset (r : VhdxReader) (batIdx : Nat) : Nat := r.batRegionOff + batIdx * batEntrySize

def sectorOffset (r : VhdxReader) (batIdx : Nat) : Nat := clearLow (entryOffset r batIdx) logSectorSize

def spliceEntry (r : VhdxReader) (batIdx off : Nat) (sector : Bytes) : Bytes :=
  splice sector (entryOffset r batIdx - sectorOffset r batIdx) (toLE 8 (presentRaw off))

structure Piece where
  batIdx : Nat
  inBlock : Nat
  src : Bytes
  deriving DecidableEq

structure SectorCopy where
  batIdx : Nat
  off : Nat
  sector : Bytes

/-- What a write call is in the middle of. -/
inductive Doing where
  | idle
  | absent (batIdx : Nat)
  | sizing (batIdx devSize : Nat)
  | extended (batIdx devSize : Nat)
  | refusing (devSize : Nat)
  | claimed (batIdx off : Nat)
  | zeroed (batIdx off : Nat)
  | copied (c : SectorCopy)
  | stamping (c : SectorCopy) (header : Header) (slot : HeaderSlot)
  | measured (c : SectorCopy) (header : Header) (slot : HeaderSlot) (devSize : Nat)
  | logged (c : SectorCopy) (header : Header) (slot : HeaderSlot)
  | rotated (c : SectorCopy) (header : Header) (slot : HeaderSlot)
  | abandoning (header : Header) (slot : HeaderSlot)
  | ready (c : SectorCopy)
  | published (batIdx off : Nat)
  | bound (batIdx off : Nat)
  | located (batIdx off devSize : Nat)
  | failed

structure Phase where
  doing : Doing
  done : List Piece

/-- The header has no log, or one too small for an entry. -/
def noJournal (h : Header) : Prop := h.logLength = 0 ∨ h.logOffset = 0 ∨ h.logLength < 8192

instance (h : Header) : Decidable (noJournal h) := inferInstanceAs (Decidable (_ ∨ _))

section move
variable [Crc32c] (r : VhdxReader) (call : List Piece)

/-- The calls of a write of the pieces `call`, and where each reply leads. -/
inductive Move : Phase → (op : ReaderOp) → op.Reply → Phase → Prop
  | present {i : Nat} {e : BatEntry} {ps : List Piece} (hi : ∃ p ∈ call, p.batIdx = i) (he : e.state = .fullyPresent) :
    Move ⟨.idle,ps⟩ (.loadBat i) (some e) ⟨.bound i e.fileOffset,ps⟩
  | absent {i : Nat} {e : BatEntry} {ps : List Piece} (hi : ∃ p ∈ call, p.batIdx = i) (he : e.state.zeroFill = true) :
    Move ⟨.idle,ps⟩ (.loadBat i) (some e) ⟨.absent i,ps⟩
  | unreadable {i : Nat} {e : BatEntry} {ps : List Piece} (hi : ∃ p ∈ call, p.batIdx = i) (he : e.state ≠ .fullyPresent)
    (hz : e.state.zeroFill = false) : Move ⟨.idle,ps⟩ (.loadBat i) (some e) ⟨.failed,ps⟩
  | outside {i : Nat} {ps : List Piece} (hi : ∃ p ∈ call, p.batIdx = i) : Move ⟨.idle,ps⟩ (.loadBat i) none ⟨.failed,ps⟩
  | lockSize {i n : Nat} {ps : List Piece} : Move ⟨.absent i,ps⟩ .lockSize n ⟨.sizing i n,ps⟩
  | extend {i n : Nat} {ps : List Piece} (hn : n + (r.blockSize - 1) < 2^64)
      (hroom : tailOffset r n + r.blockSize < 2^64) :
    Move ⟨.sizing i n,ps⟩ (.dev (.setLen (tailOffset r n + r.blockSize))) (.ok ()) ⟨.extended i n,ps⟩
  | refuse {i n m : Nat} {e : FsError} {ps : List Piece} :
    Move ⟨.sizing i n,ps⟩ (.dev (.setLen m)) (.error e) ⟨.refusing n,ps⟩
  | refused {n : Nat} {ps : List Piece} : Move ⟨.refusing n,ps⟩ (.unlockSize n) () ⟨.failed,ps⟩
  | claim {i n : Nat} {ps : List Piece} :
    Move ⟨.extended i n,ps⟩ (.unlockSize (tailOffset r n + r.blockSize)) () ⟨.claimed i (tailOffset r n),ps⟩
  | zero {i off : Nat} {ps : List Piece} :
    Move ⟨.claimed i off,ps⟩ (.dev (.write off (zeros r.blockSize))) (.ok ()) ⟨.zeroed i off,ps⟩
  | copy {i off : Nat} {bs : Bytes} {ps : List Piece} :
    Move ⟨.zeroed i off,ps⟩ (.dev (.read (sectorOffset r i) logSectorSize)) (.ok bs)
    ⟨.copied ⟨i,off,spliceEntry r i off bs⟩,ps⟩
  | lockHeader {c : SectorCopy} {h : Header} {s : HeaderSlot} {ps : List Piece} :
    Move ⟨.copied c,ps⟩ .lockHeader (h,s) ⟨.stamping c h s,ps⟩
  | skip {c : SectorCopy} {h : Header} {s : HeaderSlot} {ps : List Piece} (hn : noJournal h) :
    Move ⟨.stamping c h s,ps⟩ (.unlockHeader h s) () ⟨.ready c,ps⟩
  | measure {c : SectorCopy} {h : Header} {s : HeaderSlot} {n : Nat} {ps : List Piece} (hn : ¬ noJournal h) :
    Move ⟨.stamping c h s,ps⟩ .loadSize n ⟨.measured c h s n,ps⟩
  | tooLong {c : SectorCopy} {h : Header} {s : HeaderSlot} {n : Nat} {ps : List Piece}
      (hlen : c.sector.length = logSectorSize)
    (hlong : (journalEntry h n (sectorOffset r c.batIdx) ⟨c.sector,hlen⟩).length > h.logLength.toNat) :
    Move ⟨.measured c h s n,ps⟩ (.unlockHeader h s) () ⟨.ready c,ps⟩
  | log {c : SectorCopy} {h : Header} {s : HeaderSlot} {n : Nat} {ps : List Piece}
      (hlen : c.sector.length = logSectorSize)
    (hfits : (journalEntry h n (sectorOffset r c.batIdx) ⟨c.sector,hlen⟩).length ≤ h.logLength.toNat) :
    Move ⟨.measured c h s n,ps⟩
      (.dev (.write h.logOffset.toNat (journalEntry h n (sectorOffset r c.batIdx) ⟨c.sector,hlen⟩))) (.ok ())
      ⟨.logged c h s,ps⟩
  | logFailed {c : SectorCopy} {h : Header} {s : HeaderSlot} {n off : Nat} {bs : Bytes} {e : FsError}
      {ps : List Piece} :
    Move ⟨.measured c h s n,ps⟩ (.dev (.write off bs)) (.error e) ⟨.abandoning h s,ps⟩
  | rotate {c : SectorCopy} {h : Header} {s : HeaderSlot} {ps : List Piece} :
    Move ⟨.logged c h s,ps⟩ (.dev (.write s.other.offset (encodeHeader (rotatedHeader h)))) (.ok ()) ⟨.rotated c h s,ps⟩
  | rotateFailed {c : SectorCopy} {h : Header} {s : HeaderSlot} {off : Nat} {bs : Bytes} {e : FsError}
      {ps : List Piece} :
    Move ⟨.logged c h s,ps⟩ (.dev (.write off bs)) (.error e) ⟨.abandoning h s,ps⟩
  | store {c : SectorCopy} {h : Header} {s : HeaderSlot} {ps : List Piece} :
    Move ⟨.rotated c h s,ps⟩ (.unlockHeader (rotatedHeader h) s.other) () ⟨.ready c,ps⟩
  | abandon {h : Header} {s : HeaderSlot} {ps : List Piece} :
      Move ⟨.abandoning h s,ps⟩ (.unlockHeader h s) () ⟨.failed,ps⟩
  | publish {c : SectorCopy} {ps : List Piece} (hlen : c.sector.length = logSectorSize) :
    Move ⟨.ready c,ps⟩ (.dev (.write (sectorOffset r c.batIdx) c.sector)) (.ok ()) ⟨.published c.batIdx c.off,ps⟩
  | storeBat {i off : Nat} {ps : List Piece} :
    Move ⟨.published i off,ps⟩ (.storeBat i (.fromU64 (presentRaw off))) true ⟨.bound i off,ps⟩
  | storeOutside {i off : Nat} {ps : List Piece} :
    Move ⟨.published i off,ps⟩ (.storeBat i (.fromU64 (presentRaw off))) false ⟨.failed,ps⟩
  | locate {i off n : Nat} {ps : List Piece} : Move ⟨.bound i off,ps⟩ .loadSize n ⟨.located i off n,ps⟩
  | payload {off n : Nat} {p : Piece} {ps : List Piece} (hp : p ∈ call) (hn : off + p.inBlock + p.src.length ≤ n) :
    Move ⟨.located p.batIdx off n,ps⟩ (.dev (.write (off + p.inBlock) p.src)) (.ok ()) ⟨.idle,ps ++ [p]⟩
  /- any other device call that fails ends the call there -/
  | writeFailed {d : Doing} {off : Nat} {bs : Bytes} {e : FsError} {ps : List Piece}
    (hd : (∃ i o, d = .claimed i o) ∨ (∃ c, d = .ready c) ∨ ∃ i o n, d = .located i o n) :
    Move ⟨d,ps⟩ (.dev (.write off bs)) (.error e) ⟨.failed,ps⟩
  | readFailed {i off o n : Nat} {e : FsError} {ps : List Piece} :
    Move ⟨.zeroed i off,ps⟩ (.dev (.read o n)) (.error e) ⟨.failed,ps⟩
  | flush {p : Phase} : Move p (.dev .flush) (.ok ()) p

end move

/-- A call that returned an error: it met a block it does not write to, a device call
failed, or the block's bytes are not all inside the device. -/
def Refused (call : List Piece) (p : Phase) : Prop :=
  p.doing = .failed ∨ ∃ off n, ∃ c ∈ call, p.doing = .located c.batIdx off n ∧
    (2^64 ≤ off + c.inBlock + c.src.length ∨ n < off + c.inBlock + c.src.length)

/-- A call that panicked: a sum left 64 bits, or the BAT entry is not where entries are. -/
def Panicked (r : VhdxReader) (p : Phase) : Prop :=
  p.doing = .failed ∨
  (∃ i n, p.doing = .sizing i n ∧ (2^64 ≤ n + (r.blockSize - 1) ∨ 2^64 ≤ tailOffset r n + r.blockSize)) ∨
  (∃ i off, p.doing = .zeroed i off ∧ 2^64 ≤ entryOffset r i) ∨
  ∃ c, p.doing = .copied c ∧ logSectorSize < entryOffset r c.batIdx - sectorOffset r c.batIdx + 8

section follows
variable [Crc32c] {r : VhdxReader} {call : List Piece}

abbrev Ends {α : Type} (r : VhdxReader) (call : List Piece) (ok : Phase → α → Prop) : Phase → Outcome Error α → Prop :=
  Prog.orFail ok (fun p _ => Refused call p) (Panicked r)

abbrev Conforms {α : Type} (r : VhdxReader) (call : List Piece) (ok : Phase → α → Prop) (p : ReaderProg α)
    (l : Phase) : Prop :=
  p.Follows World.handle (Move r call) (Ends r call ok) l

/-- Parts one after the other. -/
theorem Conforms.bind {α β : Type} {m : Phase → α → Prop} {ok : Phase → β → Prop} {p : ReaderProg α}
    {f : α → ReaderProg β} {l : Phase} (hp : Conforms r call m p l) (hf : ∀ l a, m l a → Conforms r call ok (f a) l) :
    Conforms r call ok (p >>= f) l :=
  Prog.Follows.bind hp hf (fun _ _ h => h) fun _ h => h

theorem conforms_perform {op : ReaderOp} {ok : Phase → op.Reply → Prop} {l : Phase}
    (h : ∀ w : World, ∃ l', Move r call l op (w.handle op).1 l' ∧ ok l' (w.handle op).1) :
    Conforms r call ok (Prog.perform op) l := h

/-- A step that calls on nothing and succeeds. -/
theorem conforms_lift_bind {α β : Type} {ok : Phase → β → Prop} {o : Outcome Error α} {a : α} {f : α → ReaderProg β}
    {l : Phase} (ho : o = .ok a) (h : Conforms r call ok (f a) l) : Conforms r call ok (Prog.lift o >>= f) l := by
  rw [ho]
  exact h

private theorem conforms_panic_bind {α β : Type} {ok : Phase → β → Prop} {o : Outcome Error α} {f : α → ReaderProg β}
    {l : Phase} (ho : o = .panic) (h : Panicked r l) : Conforms r call ok (Prog.lift o >>= f) l := by
  rw [ho]
  exact h

theorem conforms_devWrite {off : Nat} {bs : Bytes} {l l' : Phase}
    (hok : Move r call l (.dev (.write off bs)) (.ok ()) l')
    (herr : ∀ e, ∃ l', Move r call l (.dev (.write off bs)) (.error e) l' ∧ Refused call l') :
    Conforms r call (fun m _ => m = l') (devWrite off bs) l := by
  intro w
  rcases hr : (w.handle (.dev (.write off bs))).1 with e | u
  · obtain ⟨m,hm,hf⟩ := herr e
    exact ⟨m,hm,hf⟩
  · exact ⟨l',hok,rfl⟩

theorem conforms_flush {l : Phase} : Conforms r call (fun m _ => m = l) devFlush l := fun _ => ⟨l,.flush,rfl⟩

theorem conforms_hostOffset {off len : Nat} {c : Piece} {ps : List Piece} (hc : c ∈ call) (hlen : len = c.src.length) :
    Conforms r call (fun m host => ∃ n, m = ⟨.located c.batIdx off n,ps⟩ ∧ host = off + c.inBlock ∧
      off + c.inBlock + c.src.length ≤ n) (hostOffset off c.inBlock len) ⟨.bound c.batIdx off,ps⟩ := by
  subst hlen
  refine Conforms.bind (m := fun m n => m = ⟨.located c.batIdx off n,ps⟩) (conforms_perform fun w => ⟨_,.locate,rfl⟩) ?_
  rintro _ n rfl
  have refused : 2^64 ≤ off + c.inBlock + c.src.length ∨ n < off + c.inBlock + c.src.length →
      Refused call ⟨.located c.batIdx off n,ps⟩ := fun h => .inr ⟨off,n,c,hc,rfl,h⟩
  by_cases h1 : off + c.inBlock < 2^64
  · rw [checkedAdd_of_lt h1]
    by_cases h2 : off + c.inBlock + c.src.length < 2^64
    · simp only [Outcome.okOr_some]
      change Conforms r call _ (Prog.lift (Outcome.okOr _ (checkedAdd (off + c.inBlock) c.src.length)) >>= _) _
      rw [checkedAdd_of_lt h2]
      change Conforms r call _ (Prog.lift (Outcome.rejectIf (off + c.inBlock + c.src.length > n) _) >>= _) _
      by_cases h3 : off + c.inBlock + c.src.length > n
      · rw [Outcome.rejectIf_of _ h3]
        exact refused (.inr h3)
      · rw [Outcome.rejectIf_of_not _ h3]
        exact ⟨n,rfl,rfl,by omega⟩
    · change Conforms r call _ (Prog.lift (Outcome.okOr _ (checkedAdd (off + c.inBlock) c.src.length)) >>= _) _
      rw [checkedAdd,if_neg h2]
      exact refused (.inl (by omega))
  · rw [checkedAdd,if_neg h1]
    exact refused (.inl (by omega))

private theorem conforms_journalSectorWrite {c : SectorCopy} {ps : List Piece}
    (hlen : c.sector.length = logSectorSize) :
    Conforms r call (fun m _ => m = ⟨.ready c,ps⟩) (journalSectorWrite (sectorOffset r c.batIdx) c.sector)
    ⟨.copied c,ps⟩ := by
  unfold journalSectorWrite
  rw [dif_pos hlen]
  refine Conforms.bind (m := fun m a => m = ⟨.stamping c a.1 a.2,ps⟩) (conforms_perform fun w => ⟨_,.lockHeader,rfl⟩) ?_
  rintro _ ⟨h,s⟩ rfl
  dsimp only
  split_ifs with hn
  · exact conforms_perform fun w => ⟨_,.skip hn,rfl⟩
  · refine Conforms.bind (m := fun m n => m = ⟨.measured c h s n,ps⟩) (conforms_perform fun w => ⟨_,.measure hn,rfl⟩) ?_
    rintro _ n rfl
    by_cases hlong : (journalEntry h n (sectorOffset r c.batIdx) ⟨c.sector,hlen⟩).length > h.logLength.toNat
    · rw [if_pos hlong]
      exact conforms_perform fun w => ⟨_,.tooLong hlen hlong,rfl⟩
    · rw [if_neg hlong]
      refine Conforms.bind (m := fun m _ => m = ⟨.rotated c h s,ps⟩) ?_ ?_
      · -- whatever fails in here fails with the header lock held
        refine Prog.Follows.releasing (m := fun m _ => m = ⟨.abandoning h s,ps⟩) ?_ ?_
        · refine Prog.Follows.bind (m :=
            Prog.orFail (fun m _ => m = ⟨.logged c h s,ps⟩) (fun m _ => m = ⟨.abandoning h s,ps⟩)
            fun _ => False) ?_ ?_ (fun _ _ he => he) fun _ he => he.elim
          · intro w
            rcases hr : (w.handle (.dev (.write h.logOffset.toNat
              (journalEntry h n (sectorOffset r c.batIdx) ⟨c.sector,hlen⟩)))).1 with e | u
            · exact ⟨_,.logFailed,rfl⟩
            · exact ⟨_,.log hlen (by omega),rfl⟩
          · rintro _ _ rfl w
            refine ⟨_,.flush,?_⟩
            intro w
            rcases hr : (w.handle (.dev (.write s.other.offset (encodeHeader (rotatedHeader h))))).1 with e | u
            · exact ⟨_,.rotateFailed,rfl⟩
            · exact ⟨_,.rotate,fun w => ⟨_,.flush,rfl⟩⟩
        · rintro _ e rfl w
          exact ⟨_,.abandon,.inl rfl⟩
      · rintro _ _ rfl
        exact conforms_perform fun w => ⟨_,.store,rfl⟩

private theorem conforms_devSetLen {i n m : Nat} {ps : List Piece} (hm : m = tailOffset r n + r.blockSize)
    (hn : n + (r.blockSize - 1) < 2^64) (hroom : m < 2^64) :
    Prog.Follows World.handle (Move r call)
    (Prog.orFail (fun l _ => l = ⟨.extended i n,ps⟩) (fun l _ => l = ⟨.refusing n,ps⟩)
      (Panicked r)) (devSetLen m) ⟨.sizing i n,ps⟩ := by
  subst hm
  intro w
  rcases hr : (w.handle (.dev (.setLen (tailOffset r n + r.blockSize)))).1 with e | u
  · exact ⟨_,.refuse,rfl⟩
  · exact ⟨_,.extend hn hroom,rfl⟩

private theorem conforms_readSector {i off : Nat} {ps : List Piece} : Conforms r call
    (fun l bs => bs.length = logSectorSize ∧ l = ⟨.copied ⟨i,off,spliceEntry r i off bs⟩,ps⟩)
    (devRead (sectorOffset r i) logSectorSize) ⟨.zeroed i off,ps⟩ := by
  intro w
  rcases hr : (w.handle (.dev (.read (sectorOffset r i) logSectorSize))).1 with e | bs
  · exact ⟨_,.readFailed,.inl rfl⟩
  · have := (Device.readAt_eq_ok.mp (show w.dev.readAt (sectorOffset r i) logSectorSize = .ok bs from hr)).2
    exact ⟨_,.copy,by rw [this,Device.length_bytes],rfl⟩

private theorem conforms_storeBat {i off : Nat} {ps : List Piece} : Conforms r call
    (fun l b => b = true ∧ l = ⟨.bound i off,ps⟩ ∨ b = false ∧ l = ⟨.failed,ps⟩)
    (storeBat i (.fromU64 (presentRaw off))) ⟨.published i off,ps⟩ := by
  refine conforms_perform fun w => ?_
  cases (w.handle (.storeBat i (.fromU64 (presentRaw off)))).1 with
  | false => exact ⟨_,.storeOutside,.inr ⟨rfl,rfl⟩⟩
  | true => exact ⟨_,.storeBat,.inl ⟨rfl,rfl⟩⟩

theorem conforms_allocateBlockFor {i : Nat} {ps : List Piece} :
    Conforms r call (fun l off => l = ⟨.bound i off,ps⟩) (allocateBlockFor r i) ⟨.absent i,ps⟩ := by
  unfold allocateBlockFor
  refine Conforms.bind (m := fun l n => l = ⟨.sizing i n,ps⟩) (conforms_perform fun w => ⟨_,.lockSize,rfl⟩) ?_
  rintro _ n rfl
  by_cases hn : n + (r.blockSize - 1) < 2^64
  swap
  · exact conforms_panic_bind (if_neg hn) (.inr (.inl ⟨i,n,rfl,.inl (by omega)⟩))
  refine conforms_lift_bind (Outcome.u64_of_lt hn) ?_
  by_cases hroom : tailOffset r n + r.blockSize < 2^64
  swap
  · exact conforms_panic_bind (if_neg hroom) (.inr (.inl ⟨i,n,rfl,.inr (by omega)⟩))
  refine conforms_lift_bind (Outcome.u64_of_lt hroom) ?_
  refine Conforms.bind (m := fun l _ => l = ⟨.extended i n,ps⟩) ?_ ?_
  · refine Prog.Follows.releasing (conforms_devSetLen rfl hn hroom) ?_
    rintro _ e rfl w
    exact ⟨_,.refused,.inl rfl⟩
  rintro _ _ rfl
  refine Conforms.bind (m := fun l _ => l = ⟨.claimed i (tailOffset r n),ps⟩)
    (conforms_perform fun w => ⟨_,.claim,rfl⟩) ?_
  rintro _ _ rfl
  change Conforms r call _ (devWrite (tailOffset r n) (zeros r.blockSize) >>= _) _
  refine Conforms.bind (m := fun l _ => l = ⟨.zeroed i (tailOffset r n),ps⟩)
    (conforms_devWrite .zero fun e => ⟨_,.writeFailed (.inl ⟨i,_,rfl⟩),.inl rfl⟩) ?_
  rintro _ _ rfl
  refine Conforms.bind conforms_flush ?_
  rintro _ _ rfl
  -- the entry's place on disk
  by_cases h1 : i * batEntrySize < 2^64
  swap
  · exact conforms_panic_bind (if_neg h1) (.inr (.inr (.inl ⟨i,_,rfl,by unfold entryOffset; omega⟩)))
  refine conforms_lift_bind (Outcome.u64_of_lt h1) ?_
  by_cases h2 : entryOffset r i < 2^64
  swap
  · exact conforms_panic_bind (if_neg h2) (.inr (.inr (.inl ⟨i,_,rfl,by omega⟩)))
  refine conforms_lift_bind (Outcome.u64_of_lt h2) ?_
  refine Conforms.bind conforms_readSector ?_
  rintro _ bs ⟨hbs,rfl⟩
  by_cases h3 : entryOffset r i - sectorOffset r i + 8 ≤ logSectorSize
  swap
  · refine conforms_panic_bind (if_neg fun h => h3 ?_) (.inr (.inr (.inr ⟨_,rfl,by dsimp only; omega⟩)))
    rw [← hbs]
    exact h.2
  have hfit : entryOffset r i - sectorOffset r i + (toLE 8 (presentRaw (tailOffset r n))).length ≤ bs.length := by
    rw [length_toLE]
    omega
  have hlen : (spliceEntry r i (tailOffset r n) bs).length = logSectorSize := (length_splice hfit).trans hbs
  refine conforms_lift_bind (a := spliceEntry r i (tailOffset r n) bs)
    (copyFromSlice_of_le (congrArg _ (length_toLE _ _)) (h3.trans hbs.ge)) ?_
  refine Conforms.bind (conforms_journalSectorWrite (c := ⟨i,tailOffset r n,spliceEntry r i (tailOffset r n) bs⟩) hlen) ?_
  rintro _ _ rfl
  refine Conforms.bind (m := fun l _ => l = ⟨.published i (tailOffset r n),ps⟩)
    (conforms_devWrite (.publish hlen) fun e => ⟨_,.writeFailed (.inr (.inl ⟨_,rfl⟩)),.inl rfl⟩) ?_
  rintro _ _ rfl
  refine Conforms.bind conforms_flush ?_
  rintro _ _ rfl
  refine Conforms.bind conforms_storeBat ?_
  rintro _ b (⟨rfl,rfl⟩ | ⟨rfl,rfl⟩)
  · exact rfl
  · exact .inl rfl

end follows
end ImgVhdx
