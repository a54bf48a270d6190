import Mathlib.Data.Nat.Digits.Defs
import ImgVhdx.Lib.Words

/-! Positional numerals read from the front into 64 bits, over any alphabet of digits. -/
namespace ImgVhdx.Lib

inductive IntErrorKind where
  | empty
  | invalidDigit
  | posOverflow
  deriving DecidableEq, Repr

section
variable {α : Type} (digit : α → Option Nat) (radix : Nat)

def readDigits : Nat → List α → Except IntErrorKind Nat
  | n, [] => .ok n
  | n, c :: cs =>
    match digit c with
    | none => .error .invalidDigit
    | some x =>
      match checkedMul n radix with
      | none => .error .posOverflow
      | some m =>
        match checkedAdd m x with
        | none => .error .posOverflow
        | some k => readDigits k cs

def numeral (cs : List α) : Nat := Nat.ofDigits radix (cs.reverse.map fun c => (digit c).getD 0)

variable {digit radix} {cs : List α} {n v : Nat}

@[simp] theorem numeral_nil : numeral digit radix [] = 0 := rfl

private theorem numeral_cons {c : α} :
    numeral digit radix (c :: cs) = (digit c).getD 0 * radix^cs.length + numeral digit radix cs := by
  unfold numeral
  rw [List.reverse_cons,List.map_append,Nat.ofDigits_append,List.length_map,List.length_reverse,List.map_cons,List.map_nil,
    Nat.ofDigits_singleton,Nat.mul_comm,Nat.add_comm]

/-- Reading goes well exactly for digits whose number fits. -/
theorem readDigits_eq_ok (hr : 0 < radix) (hn : n < 2^64) : readDigits digit radix n cs = .ok v ↔
    (∀ c ∈ cs, (digit c).isSome) ∧ v = n * radix^cs.length + numeral digit radix cs ∧ v < 2^64 := by
  induction cs generalizing n with
  | nil =>
    simp only [readDigits,Except.ok.injEq,List.not_mem_nil,false_implies,implies_true,true_and,List.length_nil,
      pow_zero,Nat.mul_one,
      numeral_nil,Nat.add_zero]
    constructor
    · rintro rfl
      exact ⟨rfl,hn⟩
    · rintro ⟨rfl,-⟩
      rfl
  | cons c cs ih =>
    rw [readDigits,List.forall_mem_cons,List.length_cons,numeral_cons]
    cases hc : digit c with
    | none => simp
    | some x =>
      have hpow : 0 < radix^cs.length := Nat.pow_pos hr
      have hsum : n * radix^(cs.length+1) + (x * radix^cs.length + numeral digit radix cs) =
          (n * radix + x) * radix^cs.length + numeral digit radix cs := by ring
      -- the numbers only grow on the way, so the last one fits only where they all do
      have hgrow : n * radix + x ≤ (n * radix + x) * radix^cs.length + numeral digit radix cs :=
        (Nat.le_mul_of_pos_right _ hpow).trans (Nat.le_add_right _ _)
      dsimp only [Option.getD_some]
      rw [hsum]
      by_cases hm : n * radix < 2^64
      · rw [checkedMul_of_lt hm]
        dsimp only
        by_cases ha : n * radix + x < 2^64
        · rw [checkedAdd_of_lt ha]
          dsimp only
          rw [ih ha]
          simp
        · rw [checkedAdd,if_neg ha]
          dsimp only
          refine ⟨fun h => (by cases h),fun h => ?_⟩
          omega
      · rw [checkedMul,if_neg hm]
        dsimp only
        refine ⟨fun h => (by cases h),fun h => ?_⟩
        omega

end
end ImgVhdx.Lib
