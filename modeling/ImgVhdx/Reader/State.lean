import ImgVhdx.Bat
import ImgVhdx.Header
import ImgVhdx.Device

/-! What an open reader holds: the geometry it fixed when it opened, and the state its
calls share. -/
namespace ImgVhdx
open Lib

def oneMib : Nat := 1024 * 1024
def minBlockSize : Nat := 1024 * 1024
def maxBlockSize : Nat := 256 * 1024 * 1024
def batEntrySize : Nat := 8

inductive HeaderSlot where
  | one
  | two
  deriving DecidableEq, Repr

namespace HeaderSlot

def offset : HeaderSlot → Nat
  | .one => header1Offset
  | .two => header2Offset

def other : HeaderSlot → HeaderSlot
  | .one => .two
  | .two => .one

@[simp] theorem other_other (s : HeaderSlot) : s.other.other = s := by cases s <;> rfl

end HeaderSlot

def isPowerOfTwo (n : Nat) : Prop := ∃ k < 32, n = 2^k

instance (n : Nat) : Decidable (isPowerOfTwo n) := inferInstanceAs (Decidable (∃ k < 32, n = 2^k))

/-- The fields no call changes, with what open checked of them. -/
@[ext] structure VhdxReader where
  virtualSize : Nat
  blockSize : Nat
  sectorSize : Nat
  physicalSectorSize : Option Nat
  chunkRatio : Nat
  batRegionOff : Nat
  writable : Bool
  blockSize_pow : isPowerOfTwo blockSize
  blockSize_range : minBlockSize ≤ blockSize ∧ blockSize ≤ maxBlockSize
  chunkRatio_pos : 0 < chunkRatio

/-- The fields behind the reader's mutexes. -/
structure ReaderState where
  devSize : Nat
  header : Header
  slot : HeaderSlot
  bat : List BatEntry

/-- XOR the sequence number over bytes 8..16, and never land on the all-zero sentinel. -/
def stirSequenceIntoGuid (guid : Guid) (seq : UInt64) : Guid :=
  let stirred := guid.1.take 8 ++ List.zipWith (· ^^^ ·) (guid.1.drop 8) (toLE 8 seq.toNat)
  have h : stirred.length = 16 := by simp [stirred]
  if stirred.all (· == 0) then ⟨splice stirred 0 [1],by rw [length_splice (by simp [h]),h]⟩ else ⟨stirred,h⟩

theorem VhdxReader.blockSize_eq (r : VhdxReader) : ∃ k, 20 ≤ k ∧ k ≤ 28 ∧ r.blockSize = 2^k := by
  obtain ⟨k,-,hk⟩ := r.blockSize_pow
  obtain ⟨hlo,hhi⟩ := r.blockSize_range
  have h20 : minBlockSize = 2^20 := rfl
  have h28 : maxBlockSize = 2^28 := rfl
  rw [hk] at hlo hhi
  rw [h20] at hlo
  rw [h28] at hhi
  exact ⟨k,(Nat.pow_le_pow_iff_right (by decide)).mp hlo,(Nat.pow_le_pow_iff_right (by decide)).mp hhi,hk⟩

/-- A block is a whole number of megabytes. -/
theorem VhdxReader.oneMib_dvd (r : VhdxReader) : oneMib ∣ r.blockSize := by
  obtain ⟨k,hlo,-,hk⟩ := r.blockSize_eq
  rw [hk,show oneMib = 2^20 from rfl]
  exact Nat.pow_dvd_pow 2 hlo

/-- A stirred GUID never reads as the all-zero sentinel. -/
theorem stirSequenceIntoGuid_ne_zero (guid : Guid) (seq : UInt64) :
    (stirSequenceIntoGuid guid seq).1.all (· == 0) = false := by
  unfold stirSequenceIntoGuid
  dsimp only
  split_ifs with h
  · simp [splice]
  · simpa using h

end ImgVhdx
