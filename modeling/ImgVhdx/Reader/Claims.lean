import ImgVhdx.Reader.Payloads
import ImgVhdx.Reader.Reopen

/-! The allocation lock. Reads and writes that take turns on one reader, over a device that may
refuse any of their calls: what the lock keeps between any two of their steps. -/
namespace ImgVhdx
open Lib ReaderProg

/-- Where a call stands with the lock, and with the block it claimed under it. -/
inductive Claiming where
  | idle
  | sizing (devSize : Nat)
  | extended (devSize : Nat)
  | refusing (devSize : Nat)
  | claimed (off : Nat)
  | zeroed (off : Nat)

/-- The calls that neither take the lock or give it back, nor move the device's end, nor store an entry. -/
def ReaderOp.Quiet : ReaderOp → Prop
  | .lockSize | .unlockSize _ | .storeBat _ _ | .dev (.setLen _) => False
  | _ => True

/-- What a call does with the lock, and what it stores. -/
inductive ClaimMove (r : VhdxReader) : Claiming → (op : ReaderOp) → op.Reply → Claiming → Prop
  | quiet {p : Claiming} {op : ReaderOp} {reply : op.Reply} (hq : op.Quiet) : ClaimMove r p op reply p
  | lockSize {n : Nat} : ClaimMove r .idle .lockSize n (.sizing n)
  | extend {n : Nat} (hn : n + (r.blockSize - 1) < 2^64) (hroom : tailOffset r n + r.blockSize < 2^64) :
    ClaimMove r (.sizing n) (.dev (.setLen (tailOffset r n + r.blockSize))) (.ok ()) (.extended n)
  | refuse {n m : Nat} {e : FsError} : ClaimMove r (.sizing n) (.dev (.setLen m)) (.error e) (.refusing n)
  | refused {n : Nat} : ClaimMove r (.refusing n) (.unlockSize n) () .idle
  | claim {n : Nat} : ClaimMove r (.extended n) (.unlockSize (tailOffset r n + r.blockSize)) ()
      (.claimed (tailOffset r n))
  | zero {off : Nat} : ClaimMove r (.claimed off) (.dev (.write off (zeros r.blockSize))) (.ok ()) (.zeroed off)
  | storeBat {i off : Nat} {b : Bool} : ClaimMove r (.zeroed off) (.storeBat i (.fromU64 (presentRaw off))) b .idle

section follows
variable {r : VhdxReader} {σ α β : Type} {h : (op : ReaderOp) → σ → op.Reply × σ} {l : Claiming}

abbrev Claims {σ α : Type} (r : VhdxReader) (h : (op : ReaderOp) → σ → op.Reply × σ) (ok : Claiming → α → Prop)
    (p : ReaderProg α)
    (l : Claiming) : Prop := p.Follows h (ClaimMove r) (Prog.orFail ok (fun _ _ => True) fun _ => True) l

theorem Claims.bind {m : Claiming → α → Prop} {ok : Claiming → β → Prop} {p : ReaderProg α} {f : α → ReaderProg β}
    (hp : Claims r h m p l) (hf : ∀ l a, m l a → Claims r h ok (f a) l) : Claims r h ok (p >>= f) l :=
  Prog.Follows.bind hp hf (fun _ _ _ => trivial) fun _ _ => trivial

/-- A step that calls on nothing. -/
private theorem claims_lift_bind {ok : Claiming → β → Prop} {o : Outcome Error α} {f : α → ReaderProg β}
    (hf : ∀ a, o = .ok a → Claims r h ok (f a) l) : Claims r h ok (Prog.lift o >>= f) l := by
  cases o with
  | ok a => exact hf a rfl
  | err e => trivial
  | panic => trivial

/-- A part that does not touch the lock, and a rest. -/
private theorem claims_quiet_bind {ok : Claiming → β → Prop} {p : ReaderProg α} {f : α → ReaderProg β}
    (hp : p.Only ReaderOp.Quiet) (hf : ∀ a, Claims r h ok (f a) l) : Claims r h ok (p >>= f) l := by
  refine Claims.bind (m := fun l' _ => l' = l) (hp.follows (fun _ _ hq => .quiet hq) fun o => ?_) ?_
  · cases o <;> trivial
  · rintro _ a rfl
    exact hf a

theorem claims_quiet {p : ReaderProg α} (hp : p.Only ReaderOp.Quiet) : Claims r h (fun l' _ => l' = l) p l :=
  hp.follows (fun _ _ hq => .quiet hq) fun o => by cases o <;> trivial

theorem ReaderOp.Reads.quiet {op : ReaderOp} (hr : op.Reads) : op.Quiet := by
  cases op with
  | dev op =>
    cases op with
    | setLen n => cases hr
    | _ => trivial
  | lockSize => cases hr
  | unlockSize n => cases hr
  | storeBat i e => cases hr
  | loadSize => trivial
  | lockHeader => trivial
  | unlockHeader h s => trivial
  | loadBat i => trivial

private theorem quiet_devWrite {off : Nat} {bs : Bytes} :
    (devWrite off bs).Only ReaderOp.Quiet := ⟨trivial,fun x => by cases x <;> trivial⟩

private theorem quiet_devFlush : devFlush.Only ReaderOp.Quiet := ⟨trivial,fun x => by cases x <;> trivial⟩

private theorem claims_devSetLen {n m : Nat} (hm : m = tailOffset r n + r.blockSize) (hn : n + (r.blockSize - 1) < 2^64)
    (hroom : m < 2^64) :
    (devSetLen m).Follows h (ClaimMove r)
    (Prog.orFail (fun l _ => l = .extended n) (fun l _ => l = .refusing n) fun _ => True)
      (.sizing n) := by
  subst hm
  intro s
  rcases hr : (h (.dev (.setLen (tailOffset r n + r.blockSize))) s).1 with e | u
  · exact ⟨_,.refuse,rfl⟩
  · exact ⟨_,.extend hn hroom,rfl⟩

private theorem claims_zero {off : Nat} :
    Claims r h (fun l _ => l = .zeroed off) (devWrite off (zeros r.blockSize)) (.claimed off) := by
  intro s
  rcases hr : (h (.dev (.write off (zeros r.blockSize))) s).1 with e | u
  · exact ⟨_,.quiet trivial,trivial⟩
  · exact ⟨_,.zero,rfl⟩

private theorem claims_storeBat {i off : Nat} :
    Claims r h (fun l _ => l = .idle) (storeBat i (.fromU64 (presentRaw off))) (.zeroed off) :=
  fun _ => ⟨_,.storeBat,rfl⟩

variable [Crc32c]

/-- Journalling has a lock of its own. -/
private theorem quiet_journalSectorWrite {off : Nat} {sector : Bytes} :
    (journalSectorWrite off sector).Only ReaderOp.Quiet := by
  unfold journalSectorWrite
  split_ifs with hlen
  · refine Prog.Only.bind ⟨trivial,fun _ => trivial⟩ ?_
    rintro ⟨header,slot⟩
    dsimp only
    split_ifs with hn
    · exact ⟨trivial,fun _ => trivial⟩
    · refine Prog.Only.bind ⟨trivial,fun _ => trivial⟩ fun n => ?_
      split_ifs with hlong
      · exact ⟨trivial,fun _ => trivial⟩
      · refine Prog.Only.bind (Prog.Only.releasing ?_ ⟨trivial,fun _ => trivial⟩) fun _ => ⟨trivial,fun _ => trivial⟩
        exact quiet_devWrite.bind fun _ => quiet_devFlush.bind fun _ => quiet_devWrite.bind fun _ => quiet_devFlush
  · trivial

private theorem claims_allocateBlockFor {i : Nat} : Claims r h (fun l _ => l = .idle) (allocateBlockFor r i) .idle := by
  unfold allocateBlockFor
  refine Claims.bind (m := fun l n => l = .sizing n) (fun _ => ⟨_,.lockSize,rfl⟩) ?_
  rintro _ n rfl
  refine claims_lift_bind fun padded hpadded => ?_
  obtain ⟨hn,rfl⟩ := Outcome.u64_eq_ok.mp hpadded
  refine claims_lift_bind fun m hm => ?_
  obtain ⟨hroom,rfl⟩ := Outcome.u64_eq_ok.mp hm
  refine Claims.bind (m := fun l _ => l = .extended n) ?_ ?_
  · refine Prog.Follows.releasing (claims_devSetLen rfl hn hroom) ?_
    rintro _ e rfl s
    exact ⟨_,.refused,trivial⟩
  rintro _ _ rfl
  refine Claims.bind (m := fun l _ => l = .claimed (tailOffset r n)) (fun _ => ⟨_,.claim,rfl⟩) ?_
  rintro _ _ rfl
  refine Claims.bind (m := fun l _ => l = .zeroed (tailOffset r n)) claims_zero ?_
  rintro _ _ rfl
  -- up to the entry's place in memory nothing touches the lock again
  refine claims_quiet_bind quiet_devFlush fun _ => ?_
  refine claims_lift_bind fun _ _ => claims_lift_bind fun _ _ => ?_
  refine claims_quiet_bind (reads_devRead.mono fun _ => ReaderOp.Reads.quiet) fun _ => ?_
  refine claims_lift_bind fun _ _ => ?_
  refine claims_quiet_bind quiet_journalSectorWrite fun _ => ?_
  refine claims_quiet_bind quiet_devWrite fun _ => claims_quiet_bind quiet_devFlush fun _ => ?_
  refine Claims.bind claims_storeBat ?_
  rintro _ inside rfl
  cases inside with
  | true => exact rfl
  | false => trivial

private theorem claims_writeChunk (buf : Bytes) (c : BlockChunk) :
    Claims r h (fun l _ => l = .idle) (writeChunk r buf c) .idle := by
  unfold writeChunk
  refine claims_lift_bind fun src _ => ?_
  refine claims_quiet_bind (reads_batEntryAt.mono fun _ => ReaderOp.Reads.quiet) fun e => ?_
  have hrest : ∀ off, Claims r h (fun l _ => l = .idle)
    (hostOffset off c.inBlock src.length >>= fun host => devWrite host src) .idle :=
    fun off => claims_quiet_bind (reads_hostOffset.mono fun _ => ReaderOp.Reads.quiet) fun _ =>
      claims_quiet quiet_devWrite
  have hfresh : Claims r h (fun l _ => l = .idle)
      (allocateBlockFor r c.batIdx >>= fun off => hostOffset off c.inBlock src.length >>= fun host =>
        devWrite host src) .idle := by
    refine claims_allocateBlockFor.bind ?_
    rintro _ off rfl
    exact hrest off
  cases e.state with
  | fullyPresent => exact hrest _
  | notPresent => exact hfresh
  | undefined => exact hfresh
  | zero => exact hfresh
  | unmapped => exact hfresh
  | partiallyPresent => trivial
  | reserved v => trivial

theorem claims_writeAt (off : Nat) (buf : Bytes) : Claims r h (fun l _ => l = .idle) (writeAt r off buf) .idle := by
  unfold writeAt
  split_ifs with hw
  · refine claims_lift_bind fun stop _ => ?_
    cases stop with
    | none => exact rfl
    | some stop =>
      refine Claims.bind (m := fun l _ => l = .idle) ?_ ?_
      · refine Prog.Follows.forEach (c := fun _ l => l = Claiming.idle) ?_ _ rfl
        rintro c _ _ rfl
        exact claims_writeChunk buf c
      · rintro _ _ rfl
        exact claims_quiet quiet_devFlush
  · trivial

end follows
end ImgVhdx
