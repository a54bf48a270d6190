import Mathlib.Data.Nat.Bitwise
import ImgVhdx.Lib.Bytes

/-! XOR: of byte strings as numbers, and of a run of consecutive numbers, which comes back
to zero every four steps. -/
namespace ImgVhdx.Lib

/-- XOR goes byte by byte. -/
theorem ofLE_zipWith_xor {xs ys : Bytes} (h : xs.length = ys.length) :
    ofLE (List.zipWith (· ^^^ ·) xs ys) = ofLE xs ^^^ ofLE ys := by
  induction xs generalizing ys with
  | nil =>
    obtain rfl := List.length_eq_zero_iff.mp h.symm
    rfl
  | cons x xs ih =>
    cases ys with
    | nil => cases h
    | cons y ys =>
      have hx := x.toNat_lt
      have hy := y.toNat_lt
      have hmod := Nat.xor_mod_two_pow (n := 8) (a := x.toNat + 256 * ofLE xs) (b := y.toNat + 256 * ofLE ys)
      have hdiv := Nat.xor_div_two_pow (n := 8) (a := x.toNat + 256 * ofLE xs) (b := y.toNat + 256 * ofLE ys)
      rw [show (x.toNat + 256 * ofLE xs) % 2^8 =
        x.toNat by omega,show (y.toNat + 256 * ofLE ys) % 2^8 = y.toNat by omega] at hmod
      rw [show (x.toNat + 256 * ofLE xs) / 2^8 =
        ofLE xs by omega,show (y.toNat + 256 * ofLE ys) / 2^8 = ofLE ys by omega] at hdiv
      rw [List.zipWith_cons_cons,ofLE,ih (by simpa using h),UInt8.toNat_xor]
      simp only [ofLE]
      omega

/-- `(s+1) ^^^ (s+2) ^^^ …`, `n` of them. -/
def seqXor (s : Nat) : Nat → Nat
  | 0 => 0
  | n+1 => seqXor s n ^^^ (s + (n+1))

def xorUpTo (m : Nat) : Nat := if m % 4 = 0 then m else if m % 4 = 1 then 1 else if m % 4 = 2 then m + 1 else 0

private theorem xorUpTo_succ (m : Nat) : xorUpTo (m+1) = xorUpTo m ^^^ (m+1) := by
  have heven : ∀ k, k % 2 = 0 → k ^^^ (k+1) = 1 := by
    intro k hk
    rw [← Nat.xor_one_of_even (Nat.even_iff.mpr hk),← Nat.xor_assoc,Nat.xor_self,Nat.zero_xor]
  obtain h | h | h | h : m % 4 = 0 ∨ m % 4 = 1 ∨ m % 4 = 2 ∨ m % 4 = 3 := by omega
  · have h1 : (m+1) % 4 = 1 := by omega
    simp [xorUpTo,h,h1,heven m (by omega)]
  · have h1 : (m+1) % 4 = 2 := by omega
    have hx := Nat.xor_one_of_even (Nat.even_iff.mpr (show (m+1) % 2 = 0 by omega))
    simp [xorUpTo,h,h1,← hx,Nat.xor_comm]
  · have h1 : (m+1) % 4 = 3 := by omega
    simp [xorUpTo,h,h1]
  · have h1 : (m+1) % 4 = 0 := by omega
    simp [xorUpTo,h,h1]

private theorem seqXor_eq (s n : Nat) : seqXor s n = xorUpTo s ^^^ xorUpTo (s+n) := by
  induction n with
  | zero => exact (Nat.xor_self _).symm
  | succ n ih => rw [seqXor,ih,← Nat.add_assoc,xorUpTo_succ,Nat.xor_assoc]

/-- A run of consecutive numbers cancels out when it is a whole number of fours after an odd one, or
starts from one and is three long, seven, and so on. -/
theorem seqXor_eq_zero {s n : Nat} (hn : 0 < n) : seqXor s n = 0 ↔ s % 2 = 1 ∧ n % 4 = 0 ∨ s = 0 ∧ n % 4 = 3 := by
  rw [seqXor_eq,Nat.xor_eq_zero_iff]
  unfold xorUpTo
  constructor
  · intro h
    split_ifs at h <;> omega
  · intro h
    split_ifs <;> omega

end ImgVhdx.Lib
