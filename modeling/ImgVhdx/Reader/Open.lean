import ImgVhdx.Log.Apply
import ImgVhdx.Metadata
import ImgVhdx.Reader.State
import ImgVhdx.RegionTable

/-! Opening an image: the identifier, the header, the log, the regions, the metadata and
the BAT, in the order the reader looks at them. -/
namespace ImgVhdx
open Lib DevProg

def fileIdentifierSignature : Bytes := [0x76,0x68,0x64,0x78,0x66,0x69,0x6C,0x65]

def spanInsideTheFile (devSize offset length : Nat) (outside : String) : Outcome Error Nat := do
  let tail ← Outcome.okOr (.corrupt outside) (checkedAdd offset length)
  Outcome.rejectIf (tail > devSize) (.corrupt outside)
  return length

def validateLogRegion (devSize : Nat) (header : Header) : Outcome Error Unit := do
  if header.logLength = 0 then return ()
  let len := header.logLength.toNat
  Outcome.rejectIf (header.logOffset.toNat % oneMib ≠ 0 ∨ len % oneMib ≠ 0)
    (.corrupt "log region is not aligned to, or a whole number of, megabytes")
  Outcome.rejectIf (header.logOffset.toNat < oneMib) (.corrupt "log region starts inside the file's header section")
  let _ ← spanInsideTheFile devSize header.logOffset.toNat len "log region reaches past the end of the file"
  return ()

def overlapsLog (header : Header) (entry : RegionEntry) : Prop :=
  header.logOffset.toNat < saturatingAdd entry.fileOffset entry.length ∧
  entry.fileOffset < saturatingAdd header.logOffset.toNat header.logLength.toNat

instance (header : Header) (entry : RegionEntry) : Decidable (overlapsLog header entry) :=
  inferInstanceAs (Decidable (_ ∧ _))

def logRegionClearOfDeclaredRegions (regions : RegionTable) (header : Header) : Outcome Error Unit := do
  if header.logLength = 0 then return ()
  Outcome.rejectIf (∃ entry ∈ regions.entries, overlapsLog header entry)
    (.corrupt "log region overlaps a region the file declares")

/-- Read and parse, or `none`: a copy that does not parse is not an error. -/
def probeAt {α : Type} (devSize off len : Nat) (parse : Bytes → Outcome Error α) : DevProg (Option α) := do
  if devSize < off + len then return none
  let buf ← devRead off len fsCoreToVhdxError
  Prog.lift (parse buf).toOption

section headers
variable [Crc32c]

def preferHeader : Option Header → Option Header → Outcome Error (Header × HeaderSlot)
  | some a, some b => if a.sequenceNumber ≥ b.sequenceNumber then .ok (a,.one) else .ok (b,.two)
  | some a, none => .ok (a,.one)
  | none, some b => .ok (b,.two)
  | none, none => .err .noValidHeader

def pickHeader (devSize : Nat) : DevProg (Header × HeaderSlot) := do
  let h1 ← probeAt devSize header1Offset headerSize Header.parse
  let h2 ← probeAt devSize header2Offset headerSize Header.parse
  Prog.lift (preferHeader h1 h2)

def pickRegionTable (devSize : Nat) : DevProg RegionTable := do
  let t1 ← probeAt devSize regionTable1Offset regionTableSize RegionTable.parse
  match t1 with
  | some t => return t
  | none =>
    let t2 ← probeAt devSize regionTable2Offset regionTableSize RegionTable.parse
    match t2 with
    | some t => return t
    | none => .throw .noValidRegionTable

/-- Step 3: the chain is applied, and the file may have grown; the log is not erased yet. -/
def replayLog (devSize : Nat) (header : Header) (replayCapable : Bool) : DevProg (Nat × Bool) := do
  if ¬ isZeroGuid header.logGuid ∧ header.logLength.toNat > 0 ∧ header.logOffset.toNat > 0 then
    let len ← Prog.lift (spanInsideTheFile devSize header.logOffset.toNat header.logLength.toNat
      "log region reaches past the end of the file")
    let log ← devRead header.logOffset.toNat len fsCoreToVhdxError
    let chain ← Prog.lift (collectReplayChain log header.logGuid)
    if chain.isEmpty then return (devSize,false)
    if ¬ replayCapable then .throw .logNeedsReplay
    else
      applyChain chain
      return (replayedExtent devSize chain,true)
  else return (devSize,false)

omit [Crc32c] in
def zeroLogRegion (off len : Nat) : DevProg Unit := do
  writeZeros fsCoreToVhdxError off len
  devFlush fsCoreToVhdxError

def rewriteHeaderClearLog (header : Header) (activeSlot : HeaderSlot) : DevProg (Header × HeaderSlot) := do
  let newHeader := { header with sequenceNumber := header.sequenceNumber + 1, logGuid := Guid.zero }
  devWrite activeSlot.other.offset (encodeHeader newHeader) fsCoreToVhdxError
  devFlush fsCoreToVhdxError
  return (newHeader,activeSlot.other)

end headers

structure Located where
  devSize : Nat
  header : Header
  slot : HeaderSlot
  regions : RegionTable
  replayed : Bool

/-- Steps 1 to 4b. -/
def locateRegions [Crc32c] (replayCapable : Bool) : DevProg Located := do
  let devSize ← DevProg.devSize
  let sig ← devRead 0 8 fsCoreToVhdxError
  Prog.lift (Outcome.rejectIf (sig ≠ fileIdentifierSignature) .notVhdx)
  let (header,slot) ← pickHeader devSize
  Prog.lift (Outcome.rejectIf (header.logVersion ≠ logVersionV0)
    (.unsupported "log version other than 0 (this crate parses only the v0 log format)"))
  Prog.lift (validateLogRegion devSize header)
  let regionsBeforeReplay ← pickRegionTable devSize
  Prog.lift (logRegionClearOfDeclaredRegions regionsBeforeReplay header)
  let (devSize,replayed) ← replayLog devSize header replayCapable
  let regions ← pickRegionTable devSize
  Prog.lift (Outcome.rejectIf regions.unknownRequired.isSome
    (.unsupported ("a region marked Required whose GUID this crate does not recognise — " ++
      "the file may transform its payload in a way reading it raw would ignore")))
  Prog.lift (logRegionClearOfDeclaredRegions regions header)
  return { devSize, header, slot, regions, replayed }

/-- Step 4c: a replayed chain is consumed. -/
def consumeLog [Crc32c] (l : Located) : DevProg (Header × HeaderSlot) :=
  if l.replayed then do
    zeroLogRegion l.header.logOffset.toNat l.header.logLength.toNat
    rewriteHeaderClearLog l.header l.slot
  else return (l.header,l.slot)

structure DiskParameters where
  fileParams : FileParameters
  virtualSize : Nat
  sectorSize : Nat
  physicalSectorSize : Option Nat
  metadata : MetadataTable

def diskParameters (metadata : MetadataTable) : Outcome Error DiskParameters := do
  let fileParamsBytes ← Outcome.okOr (.badMetadata "FileParameters item missing")
    (metadata.itemData ItemIds.fileParameters)
  let fileParams ← FileParameters.parse fileParamsBytes
  let virtualSizeBytes ← Outcome.okOr (.badMetadata "VirtualDiskSize item missing")
    (metadata.itemData ItemIds.virtualDiskSize)
  let virtualSize ← readVirtualDiskSize virtualSizeBytes
  let sectorSizeBytes ← Outcome.okOr (.badMetadata "LogicalSectorSize item missing")
    (metadata.itemData ItemIds.logicalSectorSize)
  let sectorSize ← readSectorSize sectorSizeBytes
  let physicalSectorSize ← match metadata.itemData ItemIds.physicalSectorSize with
    | some bytes => (readSectorSize bytes).toOption
    | none => .ok none
  return { fileParams, virtualSize, sectorSize, physicalSectorSize, metadata }

/-- Step 5, up to the geometry checks. -/
def readMetadata (devSize : Nat) (regions : RegionTable) : DevProg DiskParameters := do
  let entry ← Prog.lift (Outcome.okOr (.corrupt "metadata region missing") (regions.find Guids.metadata))
  let len ← Prog.lift (spanInsideTheFile devSize entry.fileOffset entry.length
    "metadata region reaches past the end of the file")
  let bytes ← devRead entry.fileOffset len fsCoreToVhdxError
  let metadata ← Prog.lift (MetadataTable.parse bytes)
  Prog.lift (diskParameters metadata)

/-- How many entries the disk needs, or why the region cannot hold them. -/
def batRegionCoversTheDisk (regionLen virtualSize blockSize chunkRatio : Nat) : Outcome Error Nat := do
  Outcome.rejectIf (regionLen % batEntrySize ≠ 0)
    (.corrupt "the BAT region's length is not a whole number of 8-byte entries")
  if virtualSize = 0 then return 0
  let lastBlock := (virtualSize + blockSize - 1) / blockSize - 1
  let highestIndex := dataBatIndex lastBlock chunkRatio
  let requiredEntries ← Outcome.okOr (.corrupt "the disk needs more BAT entries than a u64 counts")
    (checkedAdd highestIndex 1)
  Outcome.rejectIf (regionLen / batEntrySize < requiredEntries)
    (.corrupt "the BAT region is too short for the disk it describes")
  return requiredEntries

def decodeBat (bytes : Bytes) : List BatEntry :=
  (List.range (bytes.length / batEntrySize)).map fun i => .fromU64 (ofLE (slice bytes (i * batEntrySize) batEntrySize))

/-- Step 6: the BAT region, and the entries of it that the disk needs. -/
def readBat (devSize : Nat) (regions : RegionTable) (virtualSize blockSize chunkRatio : Nat) :
    DevProg (Nat × List BatEntry) := do
  let entry ← Prog.lift (Outcome.okOr (.corrupt "BAT region missing") (regions.find Guids.bat))
  let _ ← Prog.lift (spanInsideTheFile devSize entry.fileOffset entry.length
    "BAT region reaches past the end of the file")
  let entries ← Prog.lift (batRegionCoversTheDisk entry.length virtualSize blockSize chunkRatio)
  let len ← Prog.lift (Outcome.okOr (.corrupt "the BAT is larger than this platform can hold")
    (checkedMul entries batEntrySize))
  let bytes ← devRead entry.fileOffset len fsCoreToVhdxError
  return (entry.fileOffset,decodeBat bytes)

def finishOpen (devSize : Nat) (header : Header) (slot : HeaderSlot) (regions : RegionTable) (p : DiskParameters)
    (writable : Bool) : DevProg (VhdxReader × ReaderState) :=
  if hpow : ¬ isPowerOfTwo p.fileParams.blockSize then .throw (.corrupt "block_size not a power of two")
  else if hrange : p.fileParams.blockSize < minBlockSize ∨ p.fileParams.blockSize > maxBlockSize then
    .throw (.corrupt "block_size outside [1 MiB, 256 MiB]")
  else if p.sectorSize ≠ 512 ∧ p.sectorSize ≠ 4096 then .throw (.corrupt "sector_size must be 512 or 4096")
  else if p.fileParams.hasParent then
    .throw (.unsupported ("a differencing VHDX (one with a parent chain), which this crate does not " ++
      "implement — the data lives partly in the parent, so reading this file " ++
      "alone would serve zeros for everything the parent still owns"))
  else if p.metadata.unknownRequired.isSome then
    .throw (.unsupported ("a metadata item marked Required whose GUID this crate does not recognise — " ++
      "the file needs something to be read correctly that this crate does not implement"))
  else if hratio : chunkRatio p.fileParams.blockSize p.sectorSize = 0 then .throw (.corrupt "chunk_ratio = 0")
  else do
    let (batRegionOff,bat) ← readBat devSize regions p.virtualSize p.fileParams.blockSize
      (chunkRatio p.fileParams.blockSize p.sectorSize)
    return ({
      virtualSize := p.virtualSize
      blockSize := p.fileParams.blockSize
      sectorSize := p.sectorSize
      physicalSectorSize := p.physicalSectorSize
      chunkRatio := chunkRatio p.fileParams.blockSize p.sectorSize
      batRegionOff, writable
      blockSize_pow := not_not.mp hpow
      blockSize_range := by omega
      chunkRatio_pos := by omega },{ devSize, header, slot, bat })

def openInner [Crc32c] (writable replayCapable : Bool) : DevProg (VhdxReader × ReaderState) := do
  let l ← locateRegions replayCapable
  let (header,slot) ← consumeLog l
  let p ← readMetadata l.devSize l.regions
  finishOpen l.devSize header slot l.regions p writable

/-- Open read-only; a dirty image is replayed in place where the device allows it. -/
def openOnDevice [Crc32c] (d : Device) : DevProg (VhdxReader × ReaderState) := openInner false d.writable

/-- Open read-write. The device must be writable. -/
def openRwOnDevice [Crc32c] (d : Device) : DevProg (VhdxReader × ReaderState) :=
  if ¬ d.writable then .throw .readOnly else openInner true true

theorem openRwOnDevice_of_writable [Crc32c] {d : Device} (h : d.writable = true) :
    openRwOnDevice d = openInner true true :=
  if_neg (not_not.mpr h)

end ImgVhdx
