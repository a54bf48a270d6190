import ImgVhdx.Reader.Reads

/-! An allocation that no other call comes between, on an image without a journal: the
world it leaves, written out. -/
namespace ImgVhdx
open Lib ReaderProg

structure World.Unlocked (w : World) : Prop where
  size : w.sizeHeld = false
  header : w.headerHeld = false

section
variable {r : VhdxReader} {w : World}

def Device.allocated (r : VhdxReader) (d : Device) (i tail : Nat) : Device :=
  let dev := (d.resize (tail + r.blockSize)).put tail (zeros r.blockSize)
  dev.put (sectorOffset r i) (spliceEntry r i tail (dev.bytes (sectorOffset r i) logSectorSize))

/-- The fresh block is blank. -/
theorem Device.byte_allocated {d : Device} {i tail k : Nat} (hs : sectorOffset r i + logSectorSize ≤ tail)
    (hk : k < r.blockSize) (hfit : entryOffset r i - sectorOffset r i + 8 ≤ logSectorSize) :
    (d.allocated r i tail).byte (tail + k) = 0 := by
  have hlen : ∀ b : Bytes, b.length = logSectorSize → (spliceEntry r i tail b).length = logSectorSize := by
    intro b hb
    rw [spliceEntry,length_splice (by rw [length_toLE,hb]; exact hfit),hb]
  rw [Device.allocated,Device.byte_put_of_outside (by rw [hlen _ Device.length_bytes]; omega),
    Device.byte_put_inside (by rw [length_zeros]; exact le_rfl) (by rw [length_zeros]; exact hk)]
  simp [zeros]

def World.allocated (r : VhdxReader) (w : World) (i : Nat) : World :=
  { w with
    dev := w.dev.allocated r i (tailOffset r w.devSize)
    devSize := tailOffset r w.devSize + r.blockSize
    bat := w.bat.set i (.fromU64 (presentRaw (tailOffset r w.devSize))) }

private theorem World.allocated_eq {dev : Device} {n tail i : Nat} {held hh : Bool} {h : Header} {s : HeaderSlot}
    {bat : List BatEntry} (ht : tailOffset r n = tail) (ha : oneMib ∣ tail) (hlt : tail < 2^64) :
    World.allocated r ⟨dev,n,held,h,s,hh,bat⟩ i =
      ⟨dev.allocated r i tail,tail + r.blockSize,held,h,s,hh,bat.set i ⟨.fullyPresent,tail⟩⟩ := by
  simp only [World.allocated,ht,fromU64_presentRaw ha hlt]

theorem runs_perform {o : ReaderOp} (h : w.free o) :
    (Prog.perform o : ReaderProg o.Reply).Runs World.handle World.free w (.ok (w.handle o).1) (w.handle o).2 := .call h .done

theorem runs_devWrite {o : Nat} {b : Bytes} (hw : w.dev.writable = true) (h : o + b.length ≤ w.dev.size) :
    (devWrite o b).Runs World.handle World.free w (.ok ()) { w with dev := w.dev.put o b } := by
  have he := Device.writeAt_of_le hw h
  have hr : (w.handle (.dev (.write o b))).1 = .ok () := congrArg Prod.fst he
  have hd : (w.handle (.dev (.write o b))).2 = { w with dev := w.dev.put o b } :=
    congrArg (fun x => { w with dev := x.2 }) he
  refine .call trivial ?_
  rw [hr,hd]
  exact .done

theorem runs_devRead {o n : Nat} (h : o + n ≤ w.dev.size) :
    (devRead o n).Runs World.handle World.free w (.ok (w.dev.bytes o n)) w := by
  have hr : (w.handle (.dev (.read o n))).1 = .ok (w.dev.bytes o n) := Device.readAt_of_le h
  refine .call trivial ?_
  rw [hr]
  exact .done

theorem runs_devSetLen {n : Nat} (hg : w.dev.growable = true) :
    (devSetLen n).Runs World.handle World.free w (.ok ()) { w with dev := w.dev.resize n } := by
  have he : w.dev.setLen n = (.ok (),w.dev.resize n) := if_pos hg
  have hr : (w.handle (.dev (.setLen n))).1 = .ok () := congrArg Prod.fst he
  have hd : (w.handle (.dev (.setLen n))).2 = { w with dev := w.dev.resize n } :=
    congrArg (fun x => { w with dev := x.2 }) he
  refine .call trivial ?_
  rw [hr,hd]
  exact .done

theorem runs_devFlush : devFlush.Runs World.handle World.free w (.ok ()) w := .call trivial .done

variable [Crc32c]

private theorem runs_journalSectorWrite_skip {off : Nat} {b : Bytes} (hn : noJournal w.header) (hu : w.Unlocked)
    (hlen : b.length = logSectorSize) : (journalSectorWrite off b).Runs World.handle World.free w (.ok ()) w := by
  unfold journalSectorWrite
  rw [dif_pos hlen]
  refine Prog.Runs.bind (runs_perform (show w.free .lockHeader from hu.header)) ?_
  change Prog.Runs _ _ (if noJournal w.header then _ else _) _ _ _
  rw [if_pos hn]
  obtain ⟨dev,n,held,h,s,hh,bat⟩ := w
  obtain rfl : hh = false := hu.header
  exact runs_perform trivial

private theorem allocateBlockFor_runs {i : Nat} (hn : noJournal w.header) (hu : w.Unlocked)
    (hw : w.dev.writable = true) (hg : w.dev.growable = true) (hpad : w.devSize + (r.blockSize - 1) < 2^64)
    (hroom : tailOffset r w.devSize + r.blockSize < 2^64) (halign : 4096 ∣ r.batRegionOff)
    (hentry : entryOffset r i < tailOffset r w.devSize) (hi : i < w.bat.length) :
    (allocateBlockFor r i).Runs World.handle World.free w (.ok (tailOffset r w.devSize)) (w.allocated r i) := by
  obtain ⟨dev,n,held,h,s,hh,bat⟩ := w
  obtain rfl : held = false := hu.size
  obtain rfl : hh = false := hu.header
  dsimp only at *
  obtain ⟨hle,hdvd,-⟩ := tailOffset_spec hpad
  obtain ⟨hlo,hhi,hdvd4⟩ := sectorOffset_spec (r := r) (i := i) (by omega)
  have h8 : batEntrySize = 8 := rfl
  have hl : logSectorSize = 4096 := rfl
  have he : entryOffset r i = r.batRegionOff + i * 8 := rfl
  -- the tail is on a megabyte, so the whole sector of the entry lies ahead of it
  have htail : sectorOffset r i + 4096 ≤ tailOffset r n := by
    obtain ⟨a,ha⟩ := r.oneMib_dvd.trans hdvd
    obtain ⟨b,hb⟩ := hdvd4
    have hm : oneMib = 1048576 := rfl
    rw [hm] at ha
    omega
  have hfit : entryOffset r i - sectorOffset r i + 8 ≤ 4096 := by
    obtain ⟨a,ha⟩ := halign
    obtain ⟨b,hb⟩ := hdvd4
    omega
  have halloc : World.allocated r ⟨dev,n,false,h,s,false,bat⟩ i =
      let dev' := (dev.resize (tailOffset r n + r.blockSize)).put (tailOffset r n) (zeros r.blockSize)
      ⟨dev'.put (sectorOffset r i) (spliceEntry r i (tailOffset r n) (dev'.bytes (sectorOffset r i) logSectorSize)),
        tailOffset r n + r.blockSize,false,h,s,false,bat.set i (.fromU64 (presentRaw (tailOffset r n)))⟩ := rfl
  rw [halloc]
  unfold allocateBlockFor
  refine Prog.Runs.bind (runs_perform (w := ⟨dev,n,false,h,s,false,bat⟩) (o := .lockSize) rfl) ?_
  dsimp only [World.handle]
  refine Prog.Runs.bind (.lift (Outcome.u64_of_lt hpad)) ?_
  have htn : tailOffset r n = clearLow (n + (r.blockSize - 1)) r.blockSize := rfl
  simp only [htn] at hle hdvd htail hroom hentry ⊢
  generalize clearLow (n + (r.blockSize - 1)) r.blockSize = tail at *
  refine Prog.Runs.bind (.lift (Outcome.u64_of_lt hroom)) ?_
  refine Prog.Runs.bind (Prog.Runs.releasing (runs_devSetLen (w := ⟨dev,n,true,h,s,false,bat⟩) hg)) ?_
  change Prog.Runs _ _ _ (⟨dev.resize (tail + r.blockSize),n,true,h,s,false,bat⟩ : World) _ _
  have hroomy : (dev.resize (tail + r.blockSize)).size = tail + r.blockSize := rfl
  have hw' : (dev.resize (tail + r.blockSize)).writable = true := hw
  generalize dev.resize (tail + r.blockSize) = dev1 at *
  refine Prog.Runs.bind (runs_perform (w := ⟨dev1,n,true,h,s,false,bat⟩) (o := .unlockSize (tail + r.blockSize)) trivial) ?_
  change Prog.Runs _ _ (devWrite tail (zeros r.blockSize) >>= _)
    (⟨dev1,tail + r.blockSize,false,h,s,false,bat⟩ : World) _ _
  refine Prog.Runs.bind (runs_devWrite (w := ⟨dev1,tail + r.blockSize,false,h,s,false,bat⟩) hw'
    (by rw [length_zeros]; exact hroomy.ge)) ?_
  change Prog.Runs _ _ _ (⟨dev1.put tail (zeros r.blockSize),tail + r.blockSize,false,h,s,false,bat⟩ : World) _ _
  have hsize : (dev1.put tail (zeros r.blockSize)).size = tail + r.blockSize := hroomy
  have hw2 : (dev1.put tail (zeros r.blockSize)).writable = true := hw'
  generalize dev1.put tail (zeros r.blockSize) = dev2 at *
  have hlen : (spliceEntry r i tail (dev2.bytes (sectorOffset r i) logSectorSize)).length = logSectorSize := by
    rw [spliceEntry,length_splice (by rw [length_toLE,Device.length_bytes]; exact hfit),Device.length_bytes]
  refine Prog.Runs.bind runs_devFlush ?_
  refine Prog.Runs.bind (.lift (Outcome.u64_of_lt (by rw [h8]; omega))) ?_
  refine Prog.Runs.bind (.lift (Outcome.u64_of_lt (by rw [h8]; omega))) ?_
  refine Prog.Runs.bind (runs_devRead (w := ⟨dev2,tail + r.blockSize,false,h,s,false,bat⟩) (o := sectorOffset r i)
    (n := logSectorSize) (by rw [hl]; dsimp only; omega)) ?_
  refine Prog.Runs.bind (.lift (copyFromSlice_of_le (congrArg _ (length_toLE _ _))
    (by rw [Device.length_bytes]; exact hfit))) ?_
  refine Prog.Runs.bind (runs_journalSectorWrite_skip
    (b := spliceEntry r i tail (dev2.bytes (sectorOffset r i) logSectorSize))
    hn ⟨rfl,rfl⟩ hlen) ?_
  refine Prog.Runs.bind (runs_devWrite (w := ⟨dev2,tail + r.blockSize,false,h,s,false,bat⟩) (o := sectorOffset r i)
    (b := spliceEntry r i tail (dev2.bytes (sectorOffset r i) logSectorSize)) hw2 (by rw [hlen,hl]; dsimp only; omega)) ?_
  refine Prog.Runs.bind runs_devFlush ?_
  refine Prog.Runs.bind (runs_perform
    (w := ⟨dev2.put (sectorOffset r i) (spliceEntry r i tail (dev2.bytes (sectorOffset r i)
    logSectorSize)),tail + r.blockSize,false,h,s,false,bat⟩) (o := .storeBat i (.fromU64 (presentRaw tail))) trivial) ?_
  change Prog.Runs _ _ (if decide (i < bat.length) = true then _ else _) _ _ _
  rw [if_pos (decide_eq_true hi)]
  exact .done

omit [Crc32c] in
private theorem runs_hostOffset {off inBlock len : Nat} (hu : w.Unlocked) (h : off + inBlock + len ≤ w.devSize)
    (h64 : w.devSize < 2^64) :
    (hostOffset off inBlock len).Runs World.handle World.free w (.ok (off + inBlock)) w := by
  unfold hostOffset
  refine Prog.Runs.bind (runs_perform (o := .loadSize) hu.size) ?_
  refine Prog.Runs.bind (.lift (by rw [checkedAdd_of_lt (by omega)]; rfl)) ?_
  refine Prog.Runs.bind (.lift (by rw [checkedAdd_of_lt (by omega)]; rfl)) ?_
  exact Prog.Runs.bind (.lift (Outcome.rejectIf_of_not _ (Nat.not_lt.mpr h))) .done

omit [Crc32c] in
def writePayload (r : VhdxReader) (o : Nat) (b : Bytes) (host : Nat) : ReaderProg Unit := do
  let off ← hostOffset host (o % r.blockSize) b.length
  devWrite off b
  devFlush

omit [Crc32c] in
theorem only_writePayload {o host : Nat} {b : Bytes} :
    (writePayload r o b host).Only fun op => ∀ i, op ≠ .loadBat i := by
  have hoff : (hostOffset host (o % r.blockSize) b.length).Only fun op => ∀ i, op ≠ .loadBat i := by
    refine Prog.Only.bind ⟨fun i => ReaderOp.noConfusion,fun _ => trivial⟩ fun _ => ?_
    refine Prog.Only.bind (p := Prog.lift _) trivial fun _ => Prog.Only.bind (p := Prog.lift _) trivial fun _ => ?_
    exact Prog.Only.bind (p := Prog.lift _) trivial fun _ => trivial
  refine hoff.bind fun off => Prog.Only.bind ⟨fun i => ReaderOp.noConfusion,fun reply => ?_⟩ fun _ =>
    ⟨fun i => ReaderOp.noConfusion,fun reply => ?_⟩
  · cases reply <;> trivial
  · cases reply <;> trivial

omit [Crc32c] in
theorem runs_writePayload {o host : Nat} {b : Bytes} (hu : w.Unlocked) (hw : w.dev.writable = true)
    (hin : host + o % r.blockSize + b.length ≤ w.devSize) (hle : w.devSize ≤ w.dev.size) (h64 : w.devSize < 2^64) :
    (writePayload r o b host).Runs World.handle World.free w (.ok ())
    { w with dev := w.dev.put (host + o % r.blockSize) b } :=
  (runs_hostOffset hu hin h64).bind ((runs_devWrite hw (hin.trans hle)).bind runs_devFlush)

/-- A write within one block: it looks the block up, and where it is absent allocates it. -/
theorem exists_afterLookup (hw : r.writable = true) {o : Nat} {b : Bytes} (hin : InRange r o b.length)
    (hne : b.length ≠ 0) (hblock : o % r.blockSize + b.length ≤ r.blockSize) :
    ∃ after : Option BatEntry → ReaderProg Unit, writeAt r o b = loadBat (batIdxOf r o) >>= after ∧
      (∀ e, e.state.zeroFill = true → after (some e) = allocateBlockFor r (batIdxOf r o) >>= writePayload r o b) ∧
      ∀ off, after (some ⟨.fullyPresent,off⟩) = writePayload r o b off := by
  obtain ⟨hend,h64⟩ := hin.resolve_left hne
  have hsrc : slice b 0 (0 + b.length - 0) = b := slice_eq_self (by omega)
  have hsplit : writeAt r o b = (writeChunk r b ⟨o % r.blockSize,batIdxOf r o,0,b.length⟩ >>= fun _ =>
      (.done (.ok ()) : ReaderProg Unit)) >>= fun _ => devFlush := by
    rw [writeAt,if_neg (not_not.mpr hw),transferEnd_of_le hend h64 hne]
    change (Prog.forEach (writeChunk r b) (blockChunks r o (o + b.length)) >>= fun _ => devFlush) = _
    rw [blockChunks_within hne hblock]
    rfl
  have hplaced : ∀ p : ReaderProg Nat,
    ((p >>= fun host => hostOffset host (o % r.blockSize) b.length >>= fun off => devWrite off b) >>=
      fun _ => (.done (.ok ()) : ReaderProg Unit)) >>= (fun _ => devFlush) = p >>= writePayload r o b := by
    intro p
    simp only [Prog.bind_assoc,Prog.ok_bind]
    rfl
  rw [hsplit,writeChunk,index_of_le (Nat.zero_le _) (Nat.zero_add _).le,hsrc]
  refine ⟨_,rfl,fun e he => ?_,fun off => hplaced (pure off)⟩
  obtain ⟨st,off⟩ := e
  cases st with
  | notPresent => exact hplaced _
  | undefined => exact hplaced _
  | zero => exact hplaced _
  | unmapped => exact hplaced _
  | fullyPresent => cases he
  | partiallyPresent => cases he
  | reserved v => cases he

section fresh
variable {i n tail : Nat} {dev : Device} {h : Header} {s : HeaderSlot} {bat : List BatEntry}

/-- The same with the world written out. -/
theorem runs_allocateBlockFor (hn : noJournal h) (hw : dev.writable = true) (hg : dev.growable = true)
    (hpad : n + (r.blockSize - 1) < 2^64) (ht : tailOffset r n = tail) (hroom : tail + r.blockSize < 2^64)
    (halign : 4096 ∣ r.batRegionOff) (hentry : entryOffset r i < tail) (hi : i < bat.length) :
    (allocateBlockFor r i).Runs World.handle World.free ⟨dev,n,false,h,s,false,bat⟩ (.ok tail)
      ⟨dev.allocated r i tail,tail + r.blockSize,false,h,s,false,bat.set i ⟨.fullyPresent,tail⟩⟩ := by
  have halloc := allocateBlockFor_runs (r := r) (i := i) (w := ⟨dev,n,false,h,s,false,bat⟩) hn ⟨rfl,rfl⟩ hw hg hpad
    (by dsimp only; rw [ht]; exact hroom) halign (by dsimp only; rw [ht]; exact hentry) hi
  rw [World.allocated_eq ht (r.oneMib_dvd.trans (ht ▸ (tailOffset_spec hpad).2.1)) (by omega)] at halloc
  dsimp only at halloc
  rwa [ht] at halloc

/-- The block is allocated and the payload written there, with no other call in between. -/
theorem runs_allocating {o : Nat} {b : Bytes} (hn : noJournal h) (hw : dev.writable = true) (hg : dev.growable = true)
    (hpad : n + (r.blockSize - 1) < 2^64) (ht : tailOffset r n = tail) (hroom : tail + r.blockSize < 2^64)
    (halign : 4096 ∣ r.batRegionOff) (hentry : entryOffset r i < tail) (hi : i < bat.length)
    (hblock : o % r.blockSize + b.length ≤ r.blockSize) :
    (allocateBlockFor r i >>= writePayload r o b).Runs World.handle World.free ⟨dev,n,false,h,s,false,bat⟩ (.ok ())
      ⟨(dev.allocated r i tail).put (tail + o % r.blockSize) b,tail + r.blockSize,false,h,s,false,
        bat.set i ⟨.fullyPresent,tail⟩⟩ := by
  refine (runs_allocateBlockFor hn hw hg hpad ht hroom halign hentry hi).bind
    (runs_writePayload ⟨rfl,rfl⟩ hw ?_ le_rfl hroom)
  dsimp only
  omega

end fresh

end
end ImgVhdx
