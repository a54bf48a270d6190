import ImgVhdx.Endian
import ImgVhdx.Crc
import ImgVhdx.Error

/-! The region table: where the BAT, the metadata and any other region lie. -/
namespace ImgVhdx
open Lib

def maxRegionEntries : Nat := 2047
def regionTableSize : Nat := 64 * 1024
def regionTable1Offset : Nat := 192 * 1024
def regionTable2Offset : Nat := 256 * 1024
def regionTableSignature : Bytes := [0x72,0x65,0x67,0x69]

namespace Guids

/-- 2DC27766-F623-4200-9D64-115E9BFD4A08 -/
def bat : Guid := ⟨[0x66,0x77,0xC2,0x2D,0x23,0xF6,0x00,0x42,0x9D,0x64,0x11,0x5E,0x9B,0xFD,0x4A,0x08],rfl⟩

/-- 8B7CA206-4790-4B9A-B8FE-575F050F886E -/
def metadata : Guid := ⟨[0x06,0xA2,0x7C,0x8B,0x90,0x47,0x9A,0x4B,0xB8,0xFE,0x57,0x5F,0x05,0x0F,0x88,0x6E],rfl⟩

end Guids

structure RegionEntry where
  guid : Guid
  fileOffset : Nat
  length : Nat
  required : Bool
  deriving DecidableEq

structure RegionTable where
  entries : List RegionEntry
  deriving DecidableEq

namespace RegionTable
variable [Crc32c]

def crc (bytes : Bytes) : Nat := crc32c (splice (slice bytes 0 regionTableSize) 4 (zeros 4))

def computeCrc (bytes : Bytes) : Outcome Error Nat := do
  Outcome.rejectIf (bytes.length < regionTableSize) (.corrupt "region table shorter than 64 KiB")
  return crc bytes

omit [Crc32c] in
def parseEntry (bytes : Bytes) (i : Nat) : Outcome Error RegionEntry := do
  let off := 16 + i * 32
  let guid ← readGuid bytes off
  let fileOffset ← readU64Le bytes (off + 16)
  let length ← readU32Le bytes (off + 24)
  let flags ← readU32Le bytes (off + 28)
  return { guid, fileOffset, length, required := flags &&& 1 != 0 }

def parse (bytes : Bytes) : Outcome Error RegionTable := do
  Outcome.rejectIf (bytes.length < regionTableSize) (.corrupt "region table shorter than 64 KiB")
  let signature ← index bytes 0 4
  Outcome.rejectIf (signature ≠ regionTableSignature) (.corrupt "region-table signature mismatch")
  let storedCrc ← readU32Le bytes 4
  let computed ← computeCrc bytes
  Outcome.rejectIf (storedCrc ≠ computed) (.badChecksum storedCrc computed "region-table")
  let entryCount ← readU32Le bytes 8
  Outcome.rejectIf (entryCount > maxRegionEntries) (.corrupt "region-table entry_count > 2047")
  let entries ← Outcome.collectFrom (parseEntry bytes) 0 entryCount
  return { entries }

omit [Crc32c]

def find (t : RegionTable) (target : Guid) : Option RegionEntry := t.entries.find? fun e => e.guid = target

/-- The first entry marked Required whose GUID is neither of the two known ones. -/
def unknownRequired (t : RegionTable) : Option RegionEntry :=
  t.entries.find? fun e => e.required ∧ e.guid ≠ Guids.bat ∧ e.guid ≠ Guids.metadata

def entryAt (bytes : Bytes) (i : Nat) : RegionEntry where
  guid := guidAt bytes (16 + i * 32)
  fileOffset := ofLE (slice bytes (16 + i * 32 + 16) 8)
  length := ofLE (slice bytes (16 + i * 32 + 24) 4)
  required := ofLE (slice bytes (16 + i * 32 + 28) 4) &&& 1 != 0

theorem parseEntry_of_le {bytes : Bytes} (h : regionTableSize ≤ bytes.length) {i : Nat} (hi : i < maxRegionEntries) :
    parseEntry bytes i = .ok (entryAt bytes i) := by
  have h' : 65536 ≤ bytes.length := h
  have hi' : i < 2047 := hi
  rw [parseEntry,entryAt,guidAt_of_le (by omega)]
  rw [readGuid_of_le (by omega),readU64Le_of_le (by omega),readU32Le_of_le (by omega),readU32Le_of_le (by omega)]
  rfl

/-- What the parser makes of 64 KiB or more, once every read is known to be in range. -/
theorem parse_of_le [Crc32c] {bytes : Bytes} (h : regionTableSize ≤ bytes.length) : parse bytes =
    if slice bytes 0 4 ≠ regionTableSignature then .err (.corrupt "region-table signature mismatch")
    else if ofLE (slice bytes 4 4) ≠ crc bytes then
      .err (.badChecksum (ofLE (slice bytes 4 4)) (crc bytes) "region-table")
    else if ofLE (slice bytes 8 4) > maxRegionEntries then .err (.corrupt "region-table entry_count > 2047")
    else .ok ⟨(List.range' 0 (ofLE (slice bytes 8 4))).map (entryAt bytes)⟩ := by
  have h' : 65536 ≤ bytes.length := h
  unfold parse computeCrc
  rw [Outcome.rejectIf_of_not _ (by omega),index_of_le (by omega) (by omega),readU32Le_of_le (by omega),
    readU32Le_of_le (by omega)]
  simp only [Outcome.ok_bind,Outcome.pure_eq,Outcome.rejectIf]
  split_ifs with hs hc hn <;> simp_all
  rw [Outcome.collectFrom_eq (g := entryAt bytes) fun j _ hj => parseEntry_of_le h (by omega)]
  rfl

theorem mem_of_find {t : RegionTable} {g : Guid} {e : RegionEntry} (h : t.find g = some e) : e ∈ t.entries :=
  List.mem_of_find?_eq_some h

end RegionTable
end ImgVhdx
