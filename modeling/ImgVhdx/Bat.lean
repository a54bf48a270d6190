import ImgVhdx.Endian
import ImgVhdx.Lib.Words

/-! BAT entries, and which of them describes a virtual block. -/
namespace ImgVhdx
open Lib

inductive PayloadState where
  | notPresent
  | undefined
  | zero
  | unmapped
  | fullyPresent
  | partiallyPresent
  | reserved (v : Nat)
  deriving DecidableEq, Repr

namespace PayloadState

def fromU8 : Nat → PayloadState
  | 0 => .notPresent
  | 1 => .undefined
  | 2 => .zero
  | 3 => .unmapped
  | 6 => .fullyPresent
  | 7 => .partiallyPresent
  | other => .reserved other

def blockOnDisk : PayloadState → Bool
  | .fullyPresent | .partiallyPresent => true
  | _ => false

def zeroFill : PayloadState → Bool
  | .notPresent | .undefined | .zero | .unmapped => true
  | _ => false

end PayloadState

structure BatEntry where
  state : PayloadState
  fileOffset : Nat
  deriving DecidableEq, Repr

def BatEntry.fromU64 (raw : Nat) : BatEntry where
  state := .fromU8 (raw &&& 0x7)
  fileOffset := (raw >>> 20) <<< 20

/-- `(2^23 * sector_size) / block_size` -/
def chunkRatio (blockSize sectorSize : Nat) : Nat := (2^23 * sectorSize) / blockSize

/-- Each chunk holds `chunkRatio` payload entries and then one for the sector bitmap. -/
def dataBatIndex (virtBlockIdx chunkRatio : Nat) : Nat :=
  let chunkIdx := virtBlockIdx / chunkRatio
  let blockInChunk := virtBlockIdx % chunkRatio
  chunkIdx * (chunkRatio + 1) + blockInChunk

theorem BatEntry.fileOffset_fromU64 (raw : Nat) : (BatEntry.fromU64 raw).fileOffset = raw / 2^20 * 2^20 := by
  simp only [BatEntry.fromU64,Nat.shiftRight_eq_div_pow,Nat.shiftLeft_eq]

theorem BatEntry.state_fromU64 (raw : Nat) : (BatEntry.fromU64 raw).state = .fromU8 (raw % 8) := by
  have : raw &&& 7 = raw % 8 := Nat.and_two_pow_sub_one_eq_mod raw 3
  simp only [BatEntry.fromU64,this]

/-- Only the state word 6 decodes to a block that is there in full. -/
theorem PayloadState.fromU8_eq_fullyPresent {v : Nat} : PayloadState.fromU8 v = .fullyPresent ↔ v = 6 := by
  unfold PayloadState.fromU8
  split <;> simp_all

theorem dataBatIndex_mono {r a b : Nat} (hr : 0 < r) (h : a ≤ b) : dataBatIndex a r ≤ dataBatIndex b r := by
  have ha := Nat.div_add_mod a r
  have hb := Nat.div_add_mod b r
  have hm := Nat.mod_lt a hr
  have hd : a / r ≤ b / r := Nat.div_le_div_right h
  simp only [dataBatIndex]
  have e1 : a / r * (r+1) + a % r = a + a / r := by rw [Nat.mul_add,Nat.mul_comm (a/r) r]; omega
  have e2 : b / r * (r+1) + b % r = b + b / r := by rw [Nat.mul_add,Nat.mul_comm (b/r) r]; omega
  omega

/-- The index is the block number plus one bitmap slot for each chunk before it. -/
theorem dataBatIndex_eq {r : Nat} (b : Nat) : dataBatIndex b r = b + b / r := by
  have hb := Nat.div_add_mod b r
  simp only [dataBatIndex]
  rw [Nat.mul_add,Nat.mul_comm (b/r) r]
  omega

theorem dataBatIndex_inj {r a b : Nat} (h : dataBatIndex a r = dataBatIndex b r) : a = b := by
  rw [dataBatIndex_eq,dataBatIndex_eq] at h
  rcases Nat.lt_trichotomy a b with hlt | heq | hgt
  · have := Nat.div_le_div_right (c := r) hlt.le
    omega
  · exact heq
  · have := Nat.div_le_div_right (c := r) hgt.le
    omega

end ImgVhdx
