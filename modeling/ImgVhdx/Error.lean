import Mathlib.Tactic.Common

/-! The errors of the reader and of the block device under it. -/
namespace ImgVhdx

inductive FsError where
  | io (message : String)
  | shortRead (offset want got : Nat)
  | readOnly
  | outOfBounds (offset len size : Nat)
  | custom (message : String)
  deriving DecidableEq, Repr

/-- Everything that can go wrong reading or writing a VHDX. A replay error ends in the
text of the device error behind it, where there is one. -/
inductive Error where
  | io (message : String)
  | notVhdx
  | noValidHeader
  | noValidRegionTable
  | badMetadata (what : String)
  | badChecksum (expected found : Nat) (what : String)
  | corrupt (what : String)
  | unsupported (what : String)
  | outOfBounds (offset len size : Nat)
  | readOnly
  | logNeedsReplay
  | logUnassembled (what : String)
  | logReplay (what : String) (cause : Option FsError)
  deriving DecidableEq, Repr

def fsCoreToVhdxError : FsError → Error
  | .io message => .io message
  | .shortRead offset want got => .io s!"short read at {offset}: wanted {want} got {got}"
  | .readOnly => .readOnly
  | .outOfBounds offset len size => .outOfBounds offset len size
  | .custom message => .logReplay message none

end ImgVhdx
