import ImgVhdx.Log.Chain
import ImgVhdx.Device

/-! Applying a chain: how far it may grow the file, the check of every descriptor before
the first lands, and the writes. -/
namespace ImgVhdx
open Lib

/-- The largest block, and so the most one descriptor's allocation can have grown the file. -/
def descriptorGrowth : Nat := 256 * 1024 * 1024

def zeroChunk : Nat := 1024 * 1024

def allowedExtent (current : Nat) (chain : List LogEntry) : Nat :=
  let descriptors := (chain.map fun entry => entry.descriptors.length).sum
  let ceiling := saturatingAdd current (saturatingMul descriptors descriptorGrowth)
  let claimed := min ((chain.map fun entry => entry.header.lastFileOffset).foldl max 0) ceiling
  max current claimed

def Descriptor.span : Descriptor → Nat × Nat
  | .zero zeroLength fileOffset _ => (fileOffset,zeroLength)
  | .data _ _ fileOffset _ sector => (fileOffset,sector.1.length)

def descriptorsOf (chain : List LogEntry) : List Descriptor := chain.flatMap fun entry => entry.descriptors

def descriptorExtent (chain : List LogEntry) : Nat :=
  ((descriptorsOf chain).map fun d => saturatingAdd d.span.1 d.span.2).foldl max 0

def replayedExtent (current : Nat) (chain : List LogEntry) : Nat :=
  max (allowedExtent current chain) (descriptorExtent chain)

def checkDescriptor (devSize : Nat) (d : Descriptor) : Outcome Error Unit := do
  let (fileOffset,length) := d.span
  let tail ← Outcome.okOr (.logReplay s!"descriptor at {fileOffset} spans {length} bytes, which overflows" none)
    (checkedAdd fileOffset length)
  Outcome.rejectIf (tail > devSize) (.logReplay
    (s!"descriptor writes {length} bytes at {fileOffset}, ending at {tail} " ++
    s!"on a device of {devSize} bytes") none)

def checkDescriptors (devSize : Nat) : List Descriptor → Outcome Error Unit
  | [] => .ok ()
  | d :: rest => do
    checkDescriptor devSize d
    checkDescriptors devSize rest

def writeZeros (f : FsError → Error) (cur remaining : Nat) : DevProg Unit :=
  if remaining = 0 then .done (.ok ())
  else do
    let n := min remaining zeroChunk
    DevProg.devWrite cur (zeros n) f
    writeZeros f (cur + n) (remaining - n)
termination_by remaining
decreasing_by
  have : 0 < zeroChunk := by decide
  omega

def applyDescriptor : Descriptor → DevProg Unit
  | .zero zeroLength fileOffset _ =>
    if zeroLength = 0 then .done (.ok ())
    else writeZeros (fun e => .logReplay "zero write: " (some e)) fileOffset zeroLength
  | .data _ _ fileOffset _ sector => DevProg.devWrite fileOffset sector.1 fun e => .logReplay "data write: " (some e)

def applyEntry (entry : LogEntry) : DevProg Unit := do
  Prog.forEach applyDescriptor entry.descriptors
  DevProg.devFlush fun e => .logReplay "flush after entry: " (some e)

def makeRoom (devSize : Nat) : DevProg Unit := do
  let size ← DevProg.devSize
  if devSize > size then
    .call (.setLen devSize) fun
      | .ok () => .done (.ok ())
      | .error e => do
        let size ← DevProg.devSize
        .throw (.logReplay (s!"the chain describes {devSize} bytes and this device holds {size}, " ++
          "which could not be extended: ") (some e))
  else .done (.ok ())

def applyChain (chain : List LogEntry) : DevProg Unit := do
  let size ← DevProg.devSize
  let devSize := allowedExtent size chain
  Prog.lift (checkDescriptors devSize (descriptorsOf chain))
  makeRoom devSize
  Prog.forEach applyEntry chain

end ImgVhdx
