import ImgVhdx.Lib.Bytes

/-! The `crc32c` crate, which is not part of the repository: a checksum that is
continued piece by piece. Everything is proved for any such checksum. -/
namespace ImgVhdx
open Lib

/-- What the code relies on: `crc32c_append` over two pieces is `crc32c_append`
over their concatenation, and the result is a `u32`. -/
class Crc32c where
  append : Nat → Bytes → Nat
  append_append (c : Nat) (a b : Bytes) : append (append c a) b = append c (a ++ b)
  append_lt (c : Nat) (a : Bytes) : append c a < 2^32

def crc32cAppend [Crc32c] (crc : Nat) (bytes : Bytes) : Nat := Crc32c.append crc bytes

def crc32c [Crc32c] (bytes : Bytes) : Nat := crc32cAppend 0 bytes

namespace Castagnoli

def shift (s : UInt32) : UInt32 := if s &&& 1 = 0 then s >>> 1 else (s >>> 1) ^^^ 0x82F63B78

def step (s : UInt32) (b : UInt8) : UInt32 :=
  shift (shift (shift (shift (shift (shift (shift (shift (s ^^^ b.toUInt32))))))))

def append (crc : Nat) (bytes : Bytes) : Nat := (~~~ (bytes.foldl step (~~~ UInt32.ofNat crc))).toNat

end Castagnoli

/-- CRC-32C itself: the reflected Castagnoli polynomial, complemented on both sides. -/
@[reducible] def castagnoli : Crc32c where
  append := Castagnoli.append
  append_append c a b := by
    unfold Castagnoli.append
    rw [UInt32.ofNat_toNat,UInt32.not_not,List.foldl_append]
  append_lt c a := UInt32.toNat_lt _

/-- The check value CRC-32C is published with. -/
example : @crc32c castagnoli [0x31,0x32,0x33,0x34,0x35,0x36,0x37,0x38,0x39] = 0xE3069283 := by
  decide +kernel

theorem crc32c_lt [Crc32c] (bytes : Bytes) : crc32c bytes < 2^32 := Crc32c.append_lt 0 bytes

theorem crc32cAppend_crc32c [Crc32c] (a b : Bytes) : crc32cAppend (crc32c a) b = crc32c (a ++ b) :=
  Crc32c.append_append 0 a b

end ImgVhdx
