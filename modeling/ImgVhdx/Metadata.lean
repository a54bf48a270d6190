import ImgVhdx.Endian
import ImgVhdx.Error

/-! The metadata region: a table of items, and the items the reader decodes. -/
namespace ImgVhdx
open Lib

def maxMetadataEntries : Nat := 2047
def metadataHeaderSize : Nat := 32
def metadataEntrySize : Nat := 32
def metadataSignature : Bytes := [0x6D,0x65,0x74,0x61,0x64,0x61,0x74,0x61]
def metadataFlagIsRequired : Nat := 0x4

namespace ItemIds

/-- CAA16737-FA36-4D43-B3B6-33F0AA44E76B -/
def fileParameters : Guid := ⟨[0x37,0x67,0xA1,0xCA,0x36,0xFA,0x43,0x4D,0xB3,0xB6,0x33,0xF0,0xAA,0x44,0xE7,0x6B],rfl⟩

/-- 2FA54224-CD1B-4876-B211-5DBED83BF4B8 -/
def virtualDiskSize : Guid := ⟨[0x24,0x42,0xA5,0x2F,0x1B,0xCD,0x76,0x48,0xB2,0x11,0x5D,0xBE,0xD8,0x3B,0xF4,0xB8],rfl⟩

/-- 8141BF1D-A96F-4709-BA47-F233A8FAAB5F -/
def logicalSectorSize : Guid := ⟨[0x1D,0xBF,0x41,0x81,0x6F,0xA9,0x09,0x47,0xBA,0x47,0xF2,0x33,0xA8,0xFA,0xAB,0x5F],rfl⟩

/-- BECA12AB-B2E6-4523-93EF-C309E000C746 -/
def page83Data : Guid := ⟨[0xAB,0x12,0xCA,0xBE,0xE6,0xB2,0x23,0x45,0x93,0xEF,0xC3,0x09,0xE0,0x00,0xC7,0x46],rfl⟩

/-- CDA348C7-445D-4471-9CC9-E9885251C556 -/
def physicalSectorSize : Guid := ⟨[0xC7,0x48,0xA3,0xCD,0x5D,0x44,0x71,0x44,0x9C,0xC9,0xE9,0x88,0x52,0x51,0xC5,0x56],rfl⟩

end ItemIds

def recognisedItems : List Guid := [ItemIds.fileParameters,ItemIds.virtualDiskSize,ItemIds.page83Data,
  ItemIds.logicalSectorSize,ItemIds.physicalSectorSize]

structure MetadataEntry where
  itemId : Guid
  offset : Nat
  length : Nat
  flags : Nat
  deriving DecidableEq

structure MetadataTable where
  entries : List MetadataEntry
  regionBytes : Bytes

namespace MetadataTable

def parseEntry (bytes : Bytes) (i : Nat) : Outcome Error MetadataEntry := do
  let off := metadataHeaderSize + i * metadataEntrySize
  let itemId ← readGuid bytes off
  let offset ← readU32Le bytes (off + 16)
  let length ← readU32Le bytes (off + 20)
  let flags ← readU32Le bytes (off + 24)
  return { itemId, offset, length, flags }

def parse (bytes : Bytes) : Outcome Error MetadataTable := do
  Outcome.rejectIf (bytes.length < metadataHeaderSize) (.badMetadata "region shorter than 32 bytes")
  let signature ← index bytes 0 8
  Outcome.rejectIf (signature ≠ metadataSignature) (.badMetadata "signature mismatch")
  let entryCount ← readU16Le bytes 10
  Outcome.rejectIf (entryCount > maxMetadataEntries) (.badMetadata "entry_count > 2047")
  let totalEntriesBytes := metadataHeaderSize + entryCount * metadataEntrySize
  Outcome.rejectIf (bytes.length < totalEntriesBytes) (.badMetadata "region truncated mid-entry")
  let entries ← Outcome.collectFrom (parseEntry bytes) 0 entryCount
  return { entries, regionBytes := bytes }

def unknownRequired (t : MetadataTable) : Option MetadataEntry :=
  t.entries.find? fun e => e.flags &&& metadataFlagIsRequired ≠ 0 ∧ e.itemId ∉ recognisedItems

def itemData (t : MetadataTable) (itemId : Guid) : Option Bytes := do
  let entry ← t.entries.find? fun e => e.itemId = itemId
  if entry.offset + entry.length > t.regionBytes.length then none
  else some (slice t.regionBytes entry.offset entry.length)

def entryAt (bytes : Bytes) (i : Nat) : MetadataEntry where
  itemId := guidAt bytes (32 + i * 32)
  offset := ofLE (slice bytes (32 + i * 32 + 16) 4)
  length := ofLE (slice bytes (32 + i * 32 + 20) 4)
  flags := ofLE (slice bytes (32 + i * 32 + 24) 4)

theorem parseEntry_of_le {bytes : Bytes} {i : Nat} (h : 32 + (i + 1) * 32 ≤ bytes.length) :
    parseEntry bytes i = .ok (entryAt bytes i) := by
  unfold parseEntry entryAt metadataHeaderSize metadataEntrySize
  rw [guidAt_of_le (by omega)]
  dsimp only
  rw [readGuid_of_le (by omega),readU32Le_of_le (by omega),readU32Le_of_le (by omega),readU32Le_of_le (by omega)]
  rfl

/-- What the parser makes of a region that holds the header and the entries it counts. -/
theorem parse_of_le {bytes : Bytes} {n : Nat} (hs : slice bytes 0 8 = metadataSignature)
    (hn : ofLE (slice bytes 10 2) = n) (hm : n ≤ maxMetadataEntries) (h : 32 + n * 32 ≤ bytes.length) :
    parse bytes = .ok ⟨(List.range' 0 n).map (entryAt bytes),bytes⟩ := by
  have hl : metadataHeaderSize = 32 := rfl
  have he : metadataEntrySize = 32 := rfl
  unfold parse
  rw [Outcome.rejectIf_of_not _ (by omega),index_of_le (by omega) (by omega),readU16Le_of_le (by omega)]
  simp only [Outcome.ok_bind,Nat.sub_zero,hs,hn]
  rw [Outcome.rejectIf_of_not _ (by simp),Outcome.rejectIf_of_not _ (by omega),
    Outcome.rejectIf_of_not _ (by rw [hl,he]; omega),
    Outcome.collectFrom_eq (g := entryAt bytes) fun j _ hj => parseEntry_of_le (by omega)]
  rfl

end MetadataTable

structure FileParameters where
  blockSize : Nat
  flags : Nat

namespace FileParameters

def parse (bytes : Bytes) : Outcome Error FileParameters := do
  Outcome.rejectIf (bytes.length < 8) (.badMetadata "FileParameters shorter than 8 bytes")
  let blockSize ← readU32Le bytes 0
  let flags ← readU32Le bytes 4
  return { blockSize, flags }

def hasParent (p : FileParameters) : Bool := p.flags &&& 0x2 != 0

end FileParameters

def readVirtualDiskSize (bytes : Bytes) : Outcome Error Nat := do
  Outcome.rejectIf (bytes.length < 8) (.badMetadata "VirtualDiskSize shorter than 8 bytes")
  readU64Le bytes 0

def readSectorSize (bytes : Bytes) : Outcome Error Nat := do
  Outcome.rejectIf (bytes.length < 4) (.badMetadata "sector size shorter than 4 bytes")
  readU32Le bytes 0

end ImgVhdx
