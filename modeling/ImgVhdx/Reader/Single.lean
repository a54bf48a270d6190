import ImgVhdx.Reader.Current

/-! Writes with the reader to themselves, whatever the BAT says: what an allocation, a piece and a
whole call return, and the world each leaves. -/
namespace ImgVhdx
open Lib ReaderProg

/-- Between two calls: nothing locked, and all of the container proper inside the file. -/
structure World.Ready (r : VhdxReader) (w : World) : Prop where
  writable : w.dev.writable = true
  unlocked : w.Unlocked
  size : w.dev.size = w.devSize
  small : w.devSize < 2^64
  slots : header2Offset + headerSize ≤ w.devSize
  log : ¬ noJournal w.header → w.header.logOffset.toNat + 8192 ≤ w.devSize
  bat : ∀ i < w.bat.length, entryOffset r i + 8 ≤ w.devSize

def EntryFits (r : VhdxReader) (i : Nat) : Prop := entryOffset r i % logSectorSize + 8 ≤ logSectorSize

instance (r : VhdxReader) (i : Nat) : Decidable (EntryFits r i) := inferInstanceAs (Decidable (_ ≤ _))

section
variable {r : VhdxReader} {w : World} {i : Nat}

def World.extended (r : VhdxReader) (w : World) : World :=
  { w with
    dev := (w.dev.resize (tailOffset r w.devSize + r.blockSize)).put (tailOffset r w.devSize) (zeros r.blockSize)
    devSize := tailOffset r w.devSize + r.blockSize }

theorem entryOffset_sub (h : entryOffset r i < 2^64) :
    entryOffset r i - sectorOffset r i = entryOffset r i % logSectorSize := by
  obtain ⟨hlo,hhi,a,ha⟩ := sectorOffset_spec h
  rw [show logSectorSize = 4096 from rfl]
  omega

theorem length_spliceEntry (h : entryOffset r i < 2^64) (hf : EntryFits r i) {off : Nat} {b : Bytes}
    (hb : b.length = logSectorSize) :
    (spliceEntry r i off b).length = logSectorSize := by
  rw [spliceEntry,length_splice,hb]
  rw [length_toLE,hb,entryOffset_sub h]
  exact hf

def World.Stopped (r : VhdxReader) (w v : World) : Prop :=
  v = { w with sizeHeld := true } ∨ w.devSize + (r.blockSize - 1) < 2^64 ∧ v = w.extended r

/-- What it takes to allocate a block for `i`. -/
structure World.Grants (r : VhdxReader) (w : World) (i : Nat) : Prop where
  growable : w.dev.growable = true
  pads : w.devSize + (r.blockSize - 1) < 2^64
  room : tailOffset r w.devSize + r.blockSize < 2^64
  fits : EntryFits r i

variable [Crc32c]

def World.logEntry (w : World) (off : Nat) (s : Sector) : World := if noJournal w.header then w else w.journalled off s

def World.named (r : VhdxReader) (w : World) (i off : Nat) : World :=
  if h : (spliceEntry r i off (w.dev.bytes (sectorOffset r i) logSectorSize)).length = logSectorSize then
    let logged := w.logEntry (sectorOffset r i) ⟨spliceEntry r i off (w.dev.bytes (sectorOffset r i) logSectorSize),h⟩
    { logged with
      dev := logged.dev.put (sectorOffset r i) (spliceEntry r i off (w.dev.bytes (sectorOffset r i) logSectorSize))
      bat := w.bat.set i ⟨.fullyPresent,off⟩ }
  else w

/-- The world after a block was allocated for `i`. -/
def World.granted (r : VhdxReader) (w : World) (i : Nat) : World := (w.extended r).named r i (tailOffset r w.devSize)

section logEntry
variable {off : Nat} {s : Sector}

@[simp] theorem World.devSize_logEntry : (w.logEntry off s).devSize = w.devSize := by
  unfold World.logEntry
  split_ifs <;> rfl

@[simp] theorem World.bat_logEntry : (w.logEntry off s).bat = w.bat := by
  unfold World.logEntry
  split_ifs <;> rfl

@[simp] theorem World.size_logEntry : (w.logEntry off s).dev.size = w.dev.size := by
  unfold World.logEntry
  split_ifs <;> rfl

@[simp] theorem World.writable_logEntry : (w.logEntry off s).dev.writable = w.dev.writable := by
  unfold World.logEntry
  split_ifs <;> rfl

@[simp] theorem World.growable_logEntry : (w.logEntry off s).dev.growable = w.dev.growable := by
  unfold World.logEntry
  split_ifs <;> rfl

private theorem World.log_logEntry (w : World) (off : Nat) (s : Sector) :
    (w.logEntry off s).header.logOffset = w.header.logOffset ∧
    (noJournal (w.logEntry off s).header ↔ noJournal w.header) := by
  unfold World.logEntry
  split_ifs
  · exact ⟨rfl,Iff.rfl⟩
  · exact ⟨rfl,Iff.rfl⟩

theorem World.Unlocked.logEntry (h : w.Unlocked) : (w.logEntry off s).Unlocked := by
  unfold World.logEntry
  split_ifs
  · exact h
  · exact ⟨h.size,rfl⟩

end logEntry

theorem journalSectorWrite_run (h : w.Ready r) {off : Nat} {b : Bytes} (hb : b.length = logSectorSize) :
    (journalSectorWrite off b).run World.handle w = (.ok (),w.logEntry off ⟨b,hb⟩) := by
  unfold World.logEntry
  by_cases hn : noJournal w.header
  · rw [if_pos hn]
    refine (journalSectorWrite_of_noJournal (s := ⟨b,hb⟩) hn).trans ?_
    obtain ⟨dev,n,held,header,slot,hh,bat⟩ := w
    obtain rfl : hh = false := h.unlocked.header
    rfl
  · rw [if_neg hn]
    exact journalSectorWrite_of_room (s := ⟨b,hb⟩) hn h.writable (h.size ▸ h.log hn) (h.size ▸ h.slots)

omit [Crc32c] in
/-- The whole sector of an entry lies ahead of the tail. -/
theorem sector_le_tail {n : Nat} (he : entryOffset r i + 8 ≤ n) (hn : n + (r.blockSize - 1) < 2^64) :
    sectorOffset r i + logSectorSize ≤ tailOffset r n := by
  obtain ⟨hle,hdvd,-⟩ := tailOffset_spec hn
  obtain ⟨hlo,hhi,b,hb⟩ := sectorOffset_spec (r := r) (i := i) (by omega)
  obtain ⟨a,ha⟩ := r.oneMib_dvd.trans hdvd
  rw [show oneMib = 1048576 from rfl] at ha
  rw [show logSectorSize = 4096 from rfl]
  omega

omit [Crc32c] in
theorem World.Ready.extended (h : w.Ready r) (hn : w.devSize + (r.blockSize - 1) < 2^64)
    (hroom : tailOffset r w.devSize + r.blockSize < 2^64) : (w.extended r).Ready r := by
  obtain ⟨hle,-,-⟩ := tailOffset_spec hn
  have hgrow : w.devSize ≤ tailOffset r w.devSize + r.blockSize := hle.trans (Nat.le_add_right _ _)
  exact {
    writable := h.writable
    unlocked := ⟨h.unlocked.size,h.unlocked.header⟩
    size := rfl
    small := hroom
    slots := h.slots.trans hgrow
    log := fun hn => (h.log hn).trans hgrow
    bat := fun i hi => (h.bat i hi).trans hgrow }

omit [Crc32c] in
/-- A refused extension gives the lock back. -/
private theorem devSetLen_refused {m : Nat} {e : FsError} (hs : w.dev.setLen m = (.error e,w.dev))
    (release : ReaderProg Unit) :
    ((devSetLen m).releasing release).run World.handle w =
      (release >>= fun _ => (.done (.err (fsCoreToVhdxError e)) : ReaderProg Unit)).run World.handle w := by
  have hr : (w.handle (.dev (.setLen m))).1 = .error e := congrArg Prod.fst hs
  have hw : (w.handle (.dev (.setLen m))).2 = w := congrArg (fun x => { w with dev := x.2 }) hs
  unfold devSetLen
  rw [Prog.releasing,Prog.run,hr,hw]
  rfl

def claimTail (r : VhdxReader) : ReaderProg Nat := do
  let sz ← lockSize
  let padded ← Prog.lift (Outcome.u64 (sz + (r.blockSize - 1)))
  let newBlockOff := clearLow padded r.blockSize
  let newDevSize ← Prog.lift (Outcome.u64 (newBlockOff + r.blockSize))
  Prog.releasing (devSetLen newDevSize) (unlockSize sz)
  unlockSize newDevSize
  devWrite newBlockOff (zeros r.blockSize)
  devFlush
  return newBlockOff

def publishEntry (r : VhdxReader) (i off : Nat) : ReaderProg Nat := do
  let inRegion ← Prog.lift (Outcome.u64 (i * batEntrySize))
  let onDisk ← Prog.lift (Outcome.u64 (r.batRegionOff + inRegion))
  let sector ← devRead (clearLow onDisk logSectorSize) logSectorSize
  let sector ← Prog.lift (copyFromSlice sector (onDisk - clearLow onDisk logSectorSize)
    (onDisk - clearLow onDisk logSectorSize + 8)
    (toLE 8 (presentRaw off)))
  journalSectorWrite (clearLow onDisk logSectorSize) sector
  devWrite (clearLow onDisk logSectorSize) sector
  devFlush
  let inside ← storeBat i (.fromU64 (presentRaw off))
  if inside then return off else .done .panic

theorem allocateBlockFor_split : allocateBlockFor r i = claimTail r >>= publishEntry r i := by
  simp only [allocateBlockFor,claimTail,publishEntry,Prog.bind_assoc,Prog.pure_eq,Prog.ok_bind]

omit [Crc32c] in
/-- Room is refused by a device that does not grow, or a sum leaves 64 bits, or the tail is handed out. -/
theorem claimTail_cases (h : w.Ready r) :
    (w.dev.growable = false ∧ ∃ e, (claimTail r).run World.handle w = (.err e,w)) ∨
    ((claimTail r).run World.handle w = (.panic,{ w with sizeHeld := true }) ∧
      (2^64 ≤ w.devSize + (r.blockSize - 1) ∨ 2^64 ≤ tailOffset r w.devSize + r.blockSize)) ∨
    (w.dev.growable = true ∧ w.devSize + (r.blockSize - 1) < 2^64 ∧ tailOffset r w.devSize + r.blockSize < 2^64 ∧
      (claimTail r).run World.handle w = (.ok (tailOffset r w.devSize),w.extended r)) := by
  obtain ⟨dev,n,held,header,slot,hh,bat⟩ := w
  obtain rfl : held = false := h.unlocked.size
  obtain rfl : hh = false := h.unlocked.header
  generalize hrun : (claimTail r).run World.handle ⟨dev,n,false,header,slot,false,bat⟩ = x
  unfold claimTail at hrun
  rw [Prog.run_bind_of_ok (show lockSize.run World.handle ⟨dev,n,false,header,slot,false,bat⟩ =
    (.ok n,⟨dev,n,true,header,slot,false,bat⟩) from rfl)] at hrun
  by_cases hn : n + (r.blockSize - 1) < 2^64
  swap
  · rw [Outcome.u64,if_neg hn] at hrun
    exact .inr (.inl ⟨hrun.symm,.inl (by dsimp only; omega)⟩)
  rw [Prog.run_bind_of_ok (Prog.run_lift_of_ok (Outcome.u64_of_lt hn))] at hrun
  dsimp only at hrun
  rw [show clearLow (n + (r.blockSize - 1)) r.blockSize = tailOffset r n from rfl] at hrun
  by_cases hroom : tailOffset r n + r.blockSize < 2^64
  swap
  · rw [Outcome.u64,if_neg hroom] at hrun
    exact .inr (.inl ⟨hrun.symm,.inr (by dsimp only; omega)⟩)
  rw [Prog.run_bind_of_ok (Prog.run_lift_of_ok (Outcome.u64_of_lt hroom))] at hrun
  rcases dev.setLen_cases (tailOffset r n + r.blockSize) with ⟨hg,hs⟩ | ⟨hg,-⟩
  · rw [Prog.run_bind,devSetLen_refused (w := ⟨dev,n,true,header,slot,false,bat⟩) hs] at hrun
    exact .inl ⟨hg,fsCoreToVhdxError .readOnly,hrun.symm⟩
  rw [Prog.run_bind_of_ok (Prog.run_releasing_eq_ok.mpr
    (runs_devSetLen (w := ⟨dev,n,true,header,slot,false,bat⟩) hg).run_eq),
    Prog.run_bind_of_ok (show (unlockSize (tailOffset r n + r.blockSize)).run World.handle
      ⟨dev.resize (tailOffset r n + r.blockSize),n,true,header,slot,false,bat⟩ =
        (.ok (),⟨dev.resize (tailOffset r n + r.blockSize),tailOffset r n + r.blockSize,false,header,slot,false,bat⟩) from rfl),
    Prog.run_bind_of_ok (runs_devWrite
      (w := ⟨dev.resize (tailOffset r n + r.blockSize),tailOffset r n + r.blockSize,false,header,slot,false,bat⟩)
      (o := tailOffset r n) (b := zeros r.blockSize) h.writable (by rw [length_zeros]; exact le_rfl)).run_eq,
    Prog.run_bind_of_ok runs_devFlush.run_eq] at hrun
  exact .inr (.inr ⟨hg,hn,hroom,hrun.symm⟩)

/-- An entry is published, or crosses from one sector into the next. -/
private theorem publishEntry_run (off : Nat) (h : w.Ready r) (hi : i < w.bat.length)
    (hsector : sectorOffset r i + logSectorSize ≤ w.devSize) (hoff : oneMib ∣ off) (hlt : off < 2^64) :
    if EntryFits r i then (publishEntry r i off).run World.handle w = (.ok off,w.named r i off)
      else (publishEntry r i off).run World.handle w = (.panic,w) := by
  have hentry : entryOffset r i < 2^64 := by
    have := h.bat i hi
    have := h.small
    omega
  have hidx : i * batEntrySize < 2^64 := by
    have he : entryOffset r i = r.batRegionOff + i * batEntrySize := rfl
    omega
  unfold publishEntry
  rw [Prog.run_bind_of_ok (Prog.run_lift_of_ok (Outcome.u64_of_lt hidx)),
    Prog.run_bind_of_ok (Prog.run_lift_of_ok
      (show Outcome.u64 (r.batRegionOff + i * batEntrySize) = .ok (entryOffset r i) from
      Outcome.u64_of_lt hentry)),show clearLow (entryOffset r i) logSectorSize = sectorOffset r i from rfl,
    Prog.run_bind_of_ok (runs_devRead (h.size ▸ hsector)).run_eq]
  split_ifs with hf
  swap
  · rw [copyFromSlice,if_neg]
    · rfl
    · rw [Device.length_bytes,entryOffset_sub hentry]
      exact fun hle => hf hle.2
  have hlen : (spliceEntry r i off (w.dev.bytes (sectorOffset r i) logSectorSize)).length = logSectorSize :=
    length_spliceEntry hentry hf Device.length_bytes
  rw [World.named,dif_pos hlen]
  have hcopy : (copyFromSlice (w.dev.bytes (sectorOffset r i) logSectorSize) (entryOffset r i - sectorOffset r i)
      (entryOffset r i - sectorOffset r i + 8) (toLE 8 (presentRaw off)) : Outcome Error Bytes) =
      .ok (spliceEntry r i off (w.dev.bytes (sectorOffset r i) logSectorSize)) :=
    copyFromSlice_of_le (congrArg _ (length_toLE _ _)) (by rw [Device.length_bytes,entryOffset_sub hentry]; exact hf)
  rw [Prog.run_bind_of_ok (Prog.run_lift_of_ok hcopy)]
  generalize spliceEntry r i off (w.dev.bytes (sectorOffset r i) logSectorSize) = sector at *
  rw [Prog.run_bind_of_ok (journalSectorWrite_run h hlen),
    Prog.run_bind_of_ok (runs_devWrite (o := sectorOffset r i) (b := sector)
      (by rw [World.writable_logEntry,h.writable])
      (by rw [hlen,World.size_logEntry,h.size]; exact hsector)).run_eq,Prog.run_bind_of_ok runs_devFlush.run_eq]
  have hbat : (w.logEntry (sectorOffset r i) ⟨sector,hlen⟩).bat = w.bat := World.bat_logEntry
  generalize w.logEntry (sectorOffset r i) ⟨sector,hlen⟩ = logged at *
  change Prog.run World.handle (if decide (i < logged.bat.length) = true then _ else _) _ = _
  rw [if_pos (decide_eq_true (by rw [hbat]; exact hi)),← fromU64_presentRaw hoff hlt,← hbat]
  rfl

/-- An allocation with the reader to itself is refused by a device that does not grow, or panics over a sum or
over an entry that crosses from one sector into the next, or hands out the tail. -/
theorem allocateBlockFor_cases (h : w.Ready r) (hi : i < w.bat.length) :
    (w.dev.growable = false ∧ ∃ e, (allocateBlockFor r i).run World.handle w = (.err e,w)) ∨
    ((∃ v, (allocateBlockFor r i).run World.handle w = (.panic,v) ∧ w.Stopped r v) ∧
      (2^64 ≤ w.devSize + (r.blockSize - 1) ∨
      2^64 ≤ tailOffset r w.devSize + r.blockSize ∨ ¬ EntryFits r i)) ∨
    (w.Grants r i ∧ (allocateBlockFor r i).run World.handle w = (.ok (tailOffset r w.devSize),w.granted r i)) := by
  rw [allocateBlockFor_split,Prog.run_bind]
  rcases claimTail_cases h with ⟨hg,e,hrun⟩ | ⟨hp,hsum⟩ | ⟨hg,hn,hroom,hrun⟩
  · rw [hrun]
    exact .inl ⟨hg,e,rfl⟩
  · rw [hp]
    exact .inr (.inl ⟨⟨_,rfl,.inl rfl⟩,hsum.imp id .inl⟩)
  · rw [hrun]
    dsimp only
    have hpub := publishEntry_run (tailOffset r w.devSize) (h.extended hn hroom) (i := i) hi
      ((sector_le_tail (h.bat i hi) hn).trans (Nat.le_add_right _ _)) (r.oneMib_dvd.trans (tailOffset_spec hn).2.1) (by omega)
    by_cases hf : EntryFits r i
    · rw [if_pos hf] at hpub
      exact .inr (.inr ⟨⟨hg,hn,hroom,hf⟩,hpub⟩)
    · rw [if_neg hf] at hpub
      exact .inr (.inl ⟨⟨_,hpub,.inr ⟨hn,rfl⟩⟩,.inr (.inr hf)⟩)

section granted
variable {off : Nat}

theorem World.Ready.named (h : w.Ready r) : (w.named r i off).Ready r := by
  unfold World.named
  split_ifs with hlen
  · obtain ⟨hoff,hno⟩ := w.log_logEntry (sectorOffset r i) ⟨_,hlen⟩
    exact {
      writable := by rw [Device.writable_put,World.writable_logEntry,h.writable]
      unlocked := ⟨h.unlocked.logEntry.size,h.unlocked.logEntry.header⟩
      size := by rw [Device.size_put,World.size_logEntry,World.devSize_logEntry,h.size]
      small := by rw [World.devSize_logEntry]; exact h.small
      slots := by rw [World.devSize_logEntry]; exact h.slots
      log := fun hn => by
        rw [World.devSize_logEntry,hoff]
        exact h.log fun h0 => hn (hno.mpr h0)
      bat := fun j hj => by
        rw [World.devSize_logEntry]
        exact h.bat j (by rwa [List.length_set] at hj) }
  · exact h

private theorem World.bat_named (hi : entryOffset r i < 2^64) (hf : EntryFits r i) :
    (w.named r i off).bat = w.bat.set i ⟨.fullyPresent,off⟩ := by
  rw [World.named,dif_pos (length_spliceEntry hi hf Device.length_bytes)]

private theorem World.devSize_named : (w.named r i off).devSize = w.devSize := by
  unfold World.named
  split_ifs with hlen
  · exact World.devSize_logEntry
  · rfl

private theorem World.growable_named : (w.named r i off).dev.growable = w.dev.growable := by
  unfold World.named
  split_ifs with hlen
  · exact World.growable_logEntry
  · rfl

/-- Publishing an entry touches the log, the header slots and the entry's sector. -/
private theorem World.byte_named {k : Nat} (hlog : noJournal w.header ∨ w.header.logOffset.toNat + 8192 ≤ k)
    (hslot : header2Offset + headerSize ≤ k) (hsector : sectorOffset r i + logSectorSize ≤ k) :
    (w.named r i off).dev.byte k = w.dev.byte k := by
  unfold World.named
  split_ifs with hlen
  · refine (Device.byte_put_of_outside (.inr (by rw [hlen]; exact hsector))).trans ?_
    unfold World.logEntry
    split_ifs with hn
    · rfl
    · have := w.slot.other.offset_le
      refine (Device.byte_put_of_outside (.inr ?_)).trans (Device.byte_put_of_outside (.inr ?_))
      · rw [length_encodeHeader]
        omega
      · rw [length_journalEntry]
        exact hlog.resolve_left hn
  · rfl

omit [Crc32c] in
private theorem World.byte_extended {k : Nat} (hk : k < r.blockSize) :
    (w.extended r).dev.byte (tailOffset r w.devSize + k) = 0 := by
  refine (Device.byte_put_inside (by rw [length_zeros]; exact le_rfl) (by rwa [length_zeros])).trans ?_
  simp [zeros]

end granted

section granted
variable (h : w.Ready r) (hg : w.Grants r i)
include h hg

theorem World.Ready.granted : (w.granted r i).Ready r := (h.extended hg.pads hg.room).named

theorem World.bat_granted (hi : i < w.bat.length) :
    (w.granted r i).bat = w.bat.set i ⟨.fullyPresent,tailOffset r w.devSize⟩ :=
  World.bat_named (by have := h.bat i hi; have := h.small; omega) hg.fits

theorem World.byte_granted (hi : i < w.bat.length) {k : Nat} (hk : k < r.blockSize) :
    (w.granted r i).dev.byte (tailOffset r w.devSize + k) = 0 := by
  have hle := (tailOffset_spec hg.pads).1
  refine (World.byte_named ?_ ?_ ?_).trans (World.byte_extended hk)
  · by_cases hn : noJournal w.header
    · exact .inl hn
    · exact .inr ((h.log hn).trans (hle.trans (Nat.le_add_right _ _)))
  · exact h.slots.trans (hle.trans (Nat.le_add_right _ _))
  · exact (sector_le_tail (h.bat i hi) hg.pads).trans (Nat.le_add_right _ _)

end granted

theorem World.devSize_granted : (w.granted r i).devSize = tailOffset r w.devSize + r.blockSize := World.devSize_named

theorem World.growable_granted : (w.granted r i).dev.growable = w.dev.growable := World.growable_named

def World.wrote (r : VhdxReader) (w : World) (c : BlockChunk) (src : Bytes) : World :=
  match w.bat[c.batIdx]? with
  | some e =>
    if e.state = .fullyPresent then { w with dev := w.dev.put (e.fileOffset + c.inBlock) src }
    else { w.granted r c.batIdx with dev := (w.granted r c.batIdx).dev.put (tailOffset r w.devSize + c.inBlock) src }
  | none => w

def World.Takes (r : VhdxReader) (w : World) (c : BlockChunk) : Prop :=
  (∃ off, w.Present c.batIdx off ∧ off + c.inBlock + c.chunkLen ≤ w.devSize) ∨ w.Absent c.batIdx ∧ w.Grants r c.batIdx

omit [Crc32c] in
theorem batEntryAt_run {e : BatEntry} (he : w.bat[i]? = some e) : (batEntryAt i).run World.handle w = (.ok e,w) := by
  change (Prog.lift (Outcome.okOr _ w.bat[i]?)).run World.handle w = _
  rw [he]
  rfl

omit [Crc32c] in
/-- A range in a block is refused, or found inside the file; nothing is written. -/
theorem hostOffset_cases (w : World) (off inBlock len : Nat) :
    (∃ e, (hostOffset off inBlock len).run World.handle w = (.err e,w)) ∨
    (off + inBlock + len ≤ w.devSize ∧ (hostOffset off inBlock len).run World.handle w = (.ok (off + inBlock),w)) := by
  unfold hostOffset
  rw [Prog.run_bind_of_ok (show loadSize.run World.handle w = (.ok w.devSize,w) from rfl)]
  by_cases h1 : off + inBlock < 2^64
  · rw [checkedAdd_of_lt h1,Outcome.okOr_some,Prog.run_bind_of_ok (Prog.run_lift_of_ok rfl)]
    by_cases h2 : off + inBlock + len < 2^64
    · rw [checkedAdd_of_lt h2,Outcome.okOr_some,Prog.run_bind_of_ok (Prog.run_lift_of_ok rfl)]
      by_cases h3 : off + inBlock + len > w.devSize
      · rw [Outcome.rejectIf_of _ h3]
        exact .inl ⟨_,rfl⟩
      · rw [Outcome.rejectIf_of_not _ h3]
        exact .inr ⟨by omega,rfl⟩
    · rw [checkedAdd,if_neg h2]
      exact .inl ⟨_,rfl⟩
  · rw [checkedAdd,if_neg h1]
    exact .inl ⟨_,rfl⟩

omit [Crc32c] in
theorem hostOffset_refused (off inBlock len : Nat) (h : w.devSize < off + inBlock + len) :
    ∃ e, (hostOffset off inBlock len).run World.handle w = (.err e,w) := by
  rcases hostOffset_cases w off inBlock len with he | ⟨hin,-⟩
  · exact he
  · omega

omit [Crc32c] in
/-- The end of a piece: the payload, where the block is all inside the file. -/
private theorem payload_run {off inBlock : Nat} {src : Bytes} (h : w.Ready r)
    (hin : off + inBlock + src.length ≤ w.devSize) :
    (hostOffset off inBlock src.length >>= fun host => devWrite host src).run World.handle w =
      (.ok (),{ w with dev := w.dev.put (off + inBlock) src }) := by
  rw [Prog.run_bind_of_ok (hostOffset_run hin h.small)]
  exact (runs_devWrite h.writable (by rw [h.size]; exact hin)).run_eq

/-- Why an allocation panics: a sum leaves 64 bits, or the entry is across two sectors. -/
def World.Overruns (r : VhdxReader) (w : World) (i : Nat) : Prop :=
  2^64 ≤ w.devSize + (r.blockSize - 1) ∨ 2^64 ≤ tailOffset r w.devSize + r.blockSize ∨ ¬ EntryFits r i

omit [Crc32c] in
theorem World.Overruns.not_grants (h : w.Overruns r i) : ¬ w.Grants r i := by
  intro hg
  have := hg.pads
  have := hg.room
  rcases h with h | h | h
  · omega
  · omega
  · exact h hg.fits

/-- A payload that needs a block first. -/
private theorem allocated_payload_cases (inBlock : Nat) (src : Bytes) (h : w.Ready r) (hi : i < w.bat.length)
    (hb : inBlock + src.length ≤ r.blockSize) {p : ReaderProg Unit}
    (hp : p = allocateBlockFor r i >>= fun off => hostOffset off inBlock src.length >>= fun host => devWrite host src) :
    (w.Grants r i ∧ p.run World.handle w =
      (.ok (),{ w.granted r i with dev := (w.granted r i).dev.put (tailOffset r w.devSize + inBlock) src })) ∨
    (w.dev.growable = false ∧ ∃ e, p.run World.handle w = (.err e,w)) ∨
    (w.Overruns r i ∧ ∃ v, p.run World.handle w = (.panic,v) ∧ w.Stopped r v) := by
  rw [hp,Prog.run_bind]
  rcases allocateBlockFor_cases h hi with ⟨hg,x,hrun⟩ | ⟨⟨v,hrun,hv⟩,hover⟩ | ⟨hg,hrun⟩
  · rw [hrun]
    exact .inr (.inl ⟨hg,x,rfl⟩)
  · rw [hrun]
    exact .inr (.inr ⟨hover,v,rfl,hv⟩)
  · rw [hrun]
    refine .inl ⟨hg,payload_run (h.granted hg) ?_⟩
    rw [World.devSize_granted]
    omega

/-- One piece with the reader to itself: it is written, or refused with everything as it was, or it panics. -/
theorem writeChunk_cases {c : BlockChunk} {buf : Bytes} (h : w.Ready r) (hi : c.batIdx < w.bat.length)
    (hc : c.bufPos + c.chunkLen ≤ buf.length) (hb : c.inBlock + c.chunkLen ≤ r.blockSize) :
    (w.Takes r c ∧ (writeChunk r buf c).run World.handle w = (.ok (),w.wrote r c (slice buf c.bufPos c.chunkLen))) ∨
    (¬ w.Takes r c ∧ (w.Absent c.batIdx → w.dev.growable = false) ∧ ∃ e, (writeChunk r buf c).run World.handle w = (.err e,w)) ∨
    (w.Absent c.batIdx ∧ w.Overruns r c.batIdx ∧ ∃ v, (writeChunk r buf c).run World.handle w = (.panic,v) ∧
      w.Stopped r v) := by
  obtain ⟨⟨state,off⟩,he⟩ : ∃ e, w.bat[c.batIdx]? = some e := ⟨_,List.getElem?_eq_getElem hi⟩
  have hsrc : slice buf c.bufPos (c.bufPos + c.chunkLen - c.bufPos) = slice buf c.bufPos c.chunkLen :=
    by rw [Nat.add_sub_cancel_left]
  have hlen : (slice buf c.bufPos c.chunkLen).length = c.chunkLen := length_slice hc
  unfold writeChunk World.wrote
  rw [Prog.run_bind_of_ok (Prog.run_lift_of_ok (index_of_le (by omega) hc)),hsrc,Prog.run_bind_of_ok
    (batEntryAt_run he),he]
  generalize slice buf c.bufPos c.chunkLen = src at *
  have hpresent : ∀ o, w.Present c.batIdx o → (⟨state,off⟩ : BatEntry) = ⟨.fullyPresent,o⟩ :=
    fun o hp => Option.some.inj (he.symm.trans hp)
  have habsent : w.Absent c.batIdx → state.zeroFill = true := by
    rintro ⟨f,hf,hz⟩
    obtain rfl := Option.some.inj (he.symm.trans hf)
    exact hz
  have fresh := fun p hp => allocated_payload_cases (p := p) c.inBlock src h hi (by omega) hp
  have allocated : state.zeroFill = true → (∀ o, ¬ w.Present c.batIdx o) → ∀ p,
    p = (allocateBlockFor r c.batIdx >>= fun off =>
        hostOffset off c.inBlock src.length >>= fun host => devWrite host src) →
      (w.Takes r c ∧ p.run World.handle w =
        (.ok (),{ w.granted r c.batIdx
          with dev := (w.granted r c.batIdx).dev.put (tailOffset r w.devSize + c.inBlock) src })) ∨
      (¬ w.Takes r c ∧ (w.Absent c.batIdx → w.dev.growable = false) ∧ ∃ e, p.run World.handle w = (.err e,w)) ∨
      (w.Absent c.batIdx ∧ w.Overruns r c.batIdx ∧ ∃ v, p.run World.handle w = (.panic,v) ∧ w.Stopped r v) := by
    intro hz hno p hp
    have ha : w.Absent c.batIdx := ⟨_,he,hz⟩
    rcases fresh p hp with ⟨hg,hrun⟩ | ⟨hg,hrun⟩ | ⟨hover,hrun⟩
    · exact .inl ⟨.inr ⟨ha,hg⟩,hrun⟩
    · refine .inr (.inl ⟨?_,fun _ => hg,hrun⟩)
      rintro (⟨o,hp,-⟩ | ⟨-,hg'⟩)
      · exact hno o hp
      · rw [hg'.growable] at hg
        cases hg
    · exact .inr (.inr ⟨ha,hover,hrun⟩)
  have refused : (∀ o, ¬ w.Present c.batIdx o) → ¬ w.Absent c.batIdx → ¬ w.Takes r c :=
    fun hno ha ht => ht.elim (fun ⟨o,hp,_⟩ => hno o hp) fun ht => ha ht.1
  cases state with
  | fullyPresent =>
    by_cases hin : off + c.inBlock + c.chunkLen ≤ w.devSize
    · exact .inl ⟨.inl ⟨off,he,hin⟩,payload_run h (by dsimp only; omega)⟩
    · obtain ⟨x,hx⟩ := hostOffset_refused (w := w) off c.inBlock src.length (by omega)
      refine .inr (.inl ⟨?_,fun ha => (by cases habsent ha),x,?_⟩)
      · rintro (⟨o,hp,hle⟩ | ⟨ha,-⟩)
        · obtain rfl : off = o := congrArg BatEntry.fileOffset (hpresent o hp)
          exact hin hle
        · cases habsent ha
      · change (hostOffset off c.inBlock src.length >>= fun host => devWrite host src).run World.handle w = _
        rw [Prog.run_bind,hx]
  | notPresent => exact allocated rfl (fun o hp => by cases hpresent o hp) _ rfl
  | undefined => exact allocated rfl (fun o hp => by cases hpresent o hp) _ rfl
  | zero => exact allocated rfl (fun o hp => by cases hpresent o hp) _ rfl
  | unmapped => exact allocated rfl (fun o hp => by cases hpresent o hp) _ rfl
  | partiallyPresent =>
    exact .inr (.inl ⟨refused (fun o hp => by cases hpresent o hp) (fun ha => by cases habsent ha),fun ha =>
      (by cases habsent ha),_,rfl⟩)
  | reserved v =>
    exact .inr (.inl ⟨refused (fun o hp => by cases hpresent o hp) (fun ha => by cases habsent ha),fun ha =>
      (by cases habsent ha),_,rfl⟩)

end
end ImgVhdx
