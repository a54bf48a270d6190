import ImgVhdx.Log.Encode
import ImgVhdx.Reader.State

/-! Reading and writing the virtual disk. A call is a program over the device and over the
sections behind the reader's mutexes. -/
namespace ImgVhdx
open Lib

/-- What the calls on one reader share: the device, and what each mutex guards. -/
structure World where
  dev : Device
  devSize : Nat
  sizeHeld : Bool
  header : Header
  slot : HeaderSlot
  headerHeld : Bool
  bat : List BatEntry

/-- A device call, a whole section behind one mutex, or the start or the end of a section
that calls on the device while it lasts. -/
inductive ReaderOp where
  | dev (op : DevOp)
  | lockSize
  | unlockSize (devSize : Nat)
  | loadSize
  | lockHeader
  | unlockHeader (header : Header) (slot : HeaderSlot)
  | loadBat (batIdx : Nat)
  | storeBat (batIdx : Nat) (entry : BatEntry)

@[reducible] def ReaderOp.Reply : ReaderOp → Type
  | .dev op => op.Reply
  | .lockSize => Nat
  | .unlockSize _ => Unit
  | .loadSize => Nat
  | .lockHeader => Header × HeaderSlot
  | .unlockHeader _ _ => Unit
  | .loadBat _ => Option BatEntry
  /- whether the index was inside the table -/
  | .storeBat _ _ => Bool

def World.handle : (op : ReaderOp) → World → op.Reply × World
  | .dev op, w => ((w.dev.handle op).1,{ w with dev := (w.dev.handle op).2 })
  | .lockSize, w => (w.devSize,{ w with sizeHeld := true })
  | .unlockSize n, w => ((),{ w with devSize := n, sizeHeld := false })
  | .loadSize, w => (w.devSize,w)
  | .lockHeader, w => ((w.header,w.slot),{ w with headerHeld := true })
  | .unlockHeader h s, w => ((),{ w with header := h, slot := s, headerHeld := false })
  | .loadBat i, w => (w.bat[i]?,w)
  | .storeBat i e, w => (decide (i < w.bat.length),{ w with bat := w.bat.set i e })

/-- A call on a mutex another caller holds has to wait. -/
def World.free (w : World) : ReaderOp → Prop
  | .lockSize | .loadSize => w.sizeHeld = false
  | .lockHeader => w.headerHeld = false
  | _ => True

def ReaderState.start (s : ReaderState) (d : Device) : World where
  dev := d
  devSize := s.devSize
  sizeHeld := false
  header := s.header
  slot := s.slot
  headerHeld := false
  bat := s.bat

abbrev ReaderProg (α : Type) := Prog ReaderOp ReaderOp.Reply Error α

namespace ReaderProg

def devRead (off len : Nat) : ReaderProg Bytes := .call (.dev (.read off len)) fun
  | .ok b => .done (.ok b)
  | .error e => .done (.err (fsCoreToVhdxError e))

def devWrite (off : Nat) (bs : Bytes) : ReaderProg Unit := .call (.dev (.write off bs)) fun
  | .ok () => .done (.ok ())
  | .error e => .done (.err (fsCoreToVhdxError e))

def devSetLen (n : Nat) : ReaderProg Unit := .call (.dev (.setLen n)) fun
  | .ok () => .done (.ok ())
  | .error e => .done (.err (fsCoreToVhdxError e))

def devFlush : ReaderProg Unit := .call (.dev .flush) fun
  | .ok () => .done (.ok ())
  | .error e => .done (.err (fsCoreToVhdxError e))

def lockSize : ReaderProg Nat := Prog.perform ReaderOp.lockSize
def unlockSize (n : Nat) : ReaderProg Unit := Prog.perform (ReaderOp.unlockSize n)
def loadSize : ReaderProg Nat := Prog.perform ReaderOp.loadSize
def lockHeader : ReaderProg (Header × HeaderSlot) := Prog.perform ReaderOp.lockHeader
def unlockHeader (h : Header) (s : HeaderSlot) : ReaderProg Unit := Prog.perform (ReaderOp.unlockHeader h s)
def loadBat (i : Nat) : ReaderProg (Option BatEntry) := Prog.perform (ReaderOp.loadBat i)
def storeBat (i : Nat) (e : BatEntry) : ReaderProg Bool := Prog.perform (ReaderOp.storeBat i e)

end ReaderProg
open ReaderProg

def reservedStateMessage : Nat → String
  | 4 => "BAT entry reserved state 4"
  | 5 => "BAT entry reserved state 5"
  | _ => "BAT entry in a reserved payload state"

/-- Where a block's payload sits in the host file, or a refusal. -/
def hostOffset (fileOffset inBlock len : Nat) : ReaderProg Nat := do
  let devSize ← loadSize
  let start ← Prog.lift (Outcome.okOr (.corrupt "BAT entry names an offset past the file")
    (checkedAdd fileOffset inBlock))
  let stop ← Prog.lift (Outcome.okOr (.corrupt "BAT entry names an offset past the file") (checkedAdd start len))
  Prog.lift (Outcome.rejectIf (stop > devSize) (.corrupt "BAT entry names an offset past the file"))
  return start

/-- The end offset of a transfer; `none` means there is nothing to do. -/
def transferEnd (r : VhdxReader) (offset len : Nat) : Outcome Error (Option Nat) := do
  if len = 0 then return none
  let stop ← Outcome.okOr (.corrupt "offset+len overflow") (checkedAdd offset len)
  Outcome.rejectIf (stop > r.virtualSize) (.outOfBounds offset len r.virtualSize)
  return some stop

def batEntryAt (batIdx : Nat) : ReaderProg BatEntry := do
  let entry ← loadBat batIdx
  Prog.lift (Outcome.okOr (.corrupt "BAT index out of range") entry)

/-- One piece of a transfer that falls entirely inside a single block. -/
structure BlockChunk where
  inBlock : Nat
  batIdx : Nat
  bufPos : Nat
  chunkLen : Nat
  deriving DecidableEq, Repr

def blockChunksFrom (r : VhdxReader) (stop cursor bufPos : Nat) : List BlockChunk :=
  if cursor < stop then
    let inBlock := cursor &&& (r.blockSize - 1)
    let virtBlockIdx := cursor / r.blockSize
    let chunkLen := min (r.blockSize - inBlock) (stop - cursor)
    { inBlock, batIdx := dataBatIndex virtBlockIdx r.chunkRatio, bufPos, chunkLen } ::
      blockChunksFrom r stop (cursor + chunkLen) (bufPos + chunkLen)
  else []
termination_by stop - cursor
decreasing_by
  have hand : cursor &&& (r.blockSize - 1) ≤ r.blockSize - 1 := Nat.and_le_right
  have hpos : 0 < r.blockSize := Nat.lt_of_lt_of_le (by decide) r.blockSize_range.1
  omega

def blockChunks (r : VhdxReader) (offset stop : Nat) : List BlockChunk := blockChunksFrom r stop offset 0

/-- One piece of a read. Every state is named. -/
def readChunk (c : BlockChunk) : ReaderProg Bytes := do
  let entry ← batEntryAt c.batIdx
  match entry.state with
  | .fullyPresent =>
    let hostOff ← hostOffset entry.fileOffset c.inBlock c.chunkLen
    devRead hostOff c.chunkLen
  | .notPresent | .undefined | .zero | .unmapped => return zeros c.chunkLen
  | .partiallyPresent => .throw (.unsupported "PartiallyPresent block (sector-bitmap walking not implemented)")
  | .reserved v => .throw (.unsupported (reservedStateMessage v))

def readChunks : List BlockChunk → ReaderProg Bytes
  | [] => return []
  | c :: rest => do
    let dst ← readChunk c
    let more ← readChunks rest
    return dst ++ more

def readAt (r : VhdxReader) (offset len : Nat) : ReaderProg Bytes := do
  let stop ← Prog.lift (transferEnd r offset len)
  match stop with
  | none => return []
  | some stop => readChunks (blockChunks r offset stop)

def rotatedHeader (header : Header) : Header :=
  let newSeq := header.sequenceNumber + 1
  { header with
    sequenceNumber := newSeq
    logGuid := stirSequenceIntoGuid header.logGuid newSeq
    fileWriteGuid := stirSequenceIntoGuid header.fileWriteGuid newSeq
    dataWriteGuid := stirSequenceIntoGuid header.dataWriteGuid newSeq }

section write
variable [Crc32c]

@[irreducible] def journalEntry (header : Header) (devSize fileOffset : Nat) (sector : Sector) : Bytes :=
  let newSeq := header.sequenceNumber + 1
  encodeEntry newSeq 0 (stirSequenceIntoGuid header.logGuid newSeq) (UInt64.ofNat devSize) (UInt64.ofNat devSize)
    [{ fileOffset := UInt64.ofNat fileOffset, sector }]

/-- Write a 4 KiB sector through the log, where there is one with room for an entry. -/
def journalSectorWrite (fileOffset : Nat) (sector : Bytes) : ReaderProg Unit :=
  if hlen : sector.length = logSectorSize then do
    let (header,activeSlot) ← lockHeader
    if header.logLength = 0 ∨ header.logOffset = 0 ∨ header.logLength < 8192 then
      unlockHeader header activeSlot
    else
      let devSize ← loadSize
      let entry := journalEntry header devSize fileOffset ⟨sector,hlen⟩
      if entry.length > header.logLength.toNat then unlockHeader header activeSlot
      else
        let nextSlot := activeSlot.other
        let newHeader := rotatedHeader header
        Prog.releasing (do
          devWrite header.logOffset.toNat entry
          devFlush
          devWrite nextSlot.offset (encodeHeader newHeader)
          devFlush) (unlockHeader header activeSlot)
        unlockHeader newHeader nextSlot
  else .done .panic

def presentRaw (blockOff : Nat) : Nat := clearLow blockOff (2^20) ||| 6

/-- Allocate a block at the device tail for `batIdx`: room, zeros, the journal, the BAT on disk and
then in memory. -/
def allocateBlockFor (r : VhdxReader) (batIdx : Nat) : ReaderProg Nat := do
  let sz ← lockSize
  let padded ← Prog.lift (Outcome.u64 (sz + (r.blockSize - 1)))
  let newBlockOff := clearLow padded r.blockSize
  let newDevSize ← Prog.lift (Outcome.u64 (newBlockOff + r.blockSize))
  Prog.releasing (devSetLen newDevSize) (unlockSize sz)
  unlockSize newDevSize
  devWrite newBlockOff (zeros r.blockSize)
  devFlush
  let newRaw := presentRaw newBlockOff
  let entryOffInRegion ← Prog.lift (Outcome.u64 (batIdx * batEntrySize))
  let entryOffOnDisk ← Prog.lift (Outcome.u64 (r.batRegionOff + entryOffInRegion))
  let sectorOff := clearLow entryOffOnDisk logSectorSize
  let entryOffInSector := entryOffOnDisk - sectorOff
  let sector ← devRead sectorOff logSectorSize
  let sector ← Prog.lift (copyFromSlice sector entryOffInSector (entryOffInSector + 8) (toLE 8 newRaw))
  journalSectorWrite sectorOff sector
  devWrite sectorOff sector
  devFlush
  let inside ← storeBat batIdx (.fromU64 newRaw)
  if inside then return newBlockOff else .done .panic

def writeChunk (r : VhdxReader) (buf : Bytes) (c : BlockChunk) : ReaderProg Unit := do
  let src ← Prog.lift (index buf c.bufPos (c.bufPos + c.chunkLen))
  let entry ← batEntryAt c.batIdx
  let hostBlockOff ← match entry.state with
    | .fullyPresent => pure entry.fileOffset
    | .notPresent | .undefined | .zero | .unmapped => allocateBlockFor r c.batIdx
    | .partiallyPresent =>
      .throw (.unsupported "write to a PartiallyPresent block (sector-bitmap walking not implemented)")
    | .reserved v => .throw (.unsupported (reservedStateMessage v))
  let hostOff ← hostOffset hostBlockOff c.inBlock src.length
  devWrite hostOff src

def writeAt (r : VhdxReader) (offset : Nat) (buf : Bytes) : ReaderProg Unit :=
  if ¬ r.writable then .throw .readOnly
  else do
    let stop ← Prog.lift (transferEnd r offset buf.length)
    match stop with
    | none => return ()
    | some stop =>
      Prog.forEach (writeChunk r buf) (blockChunks r offset stop)
      devFlush

end write
end ImgVhdx
