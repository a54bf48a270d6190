import Mathlib.Data.Nat.Bitwise

/-! Arithmetic on 64-bit words held as natural numbers. -/
namespace ImgVhdx.Lib

def checkedAdd (a b : Nat) : Option Nat := if a + b < 2^64 then some (a + b) else none

def checkedMul (a b : Nat) : Option Nat := if a * b < 2^64 then some (a * b) else none

def saturatingAdd (a b : Nat) : Nat := min (a + b) (2^64 - 1)

def saturatingMul (a b : Nat) : Nat := min (a * b) (2^64 - 1)

def clearLow (x n : Nat) : Nat := x &&& ((2^64 - 1) ^^^ (n - 1))

theorem checkedAdd_eq_some {a b c : Nat} : checkedAdd a b = some c ↔ a + b < 2^64 ∧ c = a + b := by
  simp [checkedAdd,eq_comm]

theorem checkedAdd_of_lt {a b : Nat} (h : a + b < 2^64) : checkedAdd a b = some (a + b) := if_pos h

theorem checkedMul_of_lt {a b : Nat} (h : a * b < 2^64) : checkedMul a b = some (a * b) := if_pos h

theorem saturatingAdd_of_lt {a b : Nat} (h : a + b < 2^64) : saturatingAdd a b = a + b := by
  unfold saturatingAdd; omega

theorem clearLow_pow {x k : Nat} (hx : x < 2^64) (hk : k ≤ 64) : clearLow x (2^k) = x / 2^k * 2^k := by
  apply Nat.eq_of_testBit_eq
  intro i
  rw [clearLow,Nat.testBit_and,Nat.testBit_xor,Nat.testBit_two_pow_sub_one,Nat.testBit_two_pow_sub_one,
    Nat.testBit_mul_two_pow,Nat.testBit_div_two_pow]
  rcases Nat.lt_or_ge i k with hi | hi
  · simp [hi,show i < 64 by omega]
  · rw [Nat.sub_add_cancel hi]
    rcases Nat.lt_or_ge i 64 with h64 | h64
    · simp [hi,h64]
    · simp [Nat.testBit_eq_false_of_lt (hx.trans_le (Nat.pow_le_pow_right (by omega) h64))]

/-- Two 32-bit halves put together. -/
theorem shiftLeft_or {hi lo : Nat} (h : lo < 2^32) : hi <<< 32 ||| lo = hi * 2^32 + lo := by
  rw [← Nat.shiftLeft_add_eq_or_of_lt h,Nat.shiftLeft_eq]

end ImgVhdx.Lib
