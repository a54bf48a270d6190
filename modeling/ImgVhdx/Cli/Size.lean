import Mathlib.Data.List.DropRight
import ImgVhdx.Lib.Numerals

/-! Byte counts on the command line: `4096`, `0x1000`, `64K`, `2MiB`, `1G`. What the parser takes for one is its
grammar and, after `0x`, one sign more. -/
namespace ImgVhdx
open Lib

def isWhitespace (c : Char) : Bool :=
  decide (c.toNat ∈ [0x20,0x85,0xA0,0x1680,0x2028,0x2029,0x202F,0x205F,0x3000] ∨ 0x9 ≤ c.toNat ∧ c.toNat ≤ 0xD ∨
    0x2000 ≤ c.toNat ∧ c.toNat ≤ 0x200A)

def trim (text : List Char) : List Char := (text.dropWhile isWhitespace).rdropWhile isWhitespace

def toDigit (radix : Nat) (c : Char) : Option Nat :=
  let value :=
    if c.isDigit then c.toNat - '0'.toNat
    else if c.isLower then c.toNat - 'a'.toNat + 10
    else if c.isUpper then c.toNat - 'A'.toNat + 10
    else radix
  if value < radix then some value else none

def fromStrRadix (src : List Char) (radix : Nat) : Except IntErrorKind Nat :=
  match src with
  | [] => .error .empty
  | ['+'] => .error .invalidDigit
  | ['-'] => .error .invalidDigit
  | '+' :: digits => readDigits (toDigit radix) radix 0 digits
  | digits => readDigits (toDigit radix) radix 0 digits

def IntErrorKind.text : IntErrorKind → String
  | .empty => "cannot parse integer from empty string"
  | .invalidDigit => "invalid digit found in string"
  | .posOverflow => "number too large to fit in target type"

inductive SizeError where
  | number (text : List Char) (kind : IntErrorKind)
  | notAByteCount (text : List Char)
  | unknownSuffix (text suffix : List Char)
  | tooLarge (text : List Char)
  deriving DecidableEq

def SizeError.message (debug : List Char → String) : SizeError → String
  | .number text kind => s!"{debug text}: {IntErrorKind.text kind}"
  | .notAByteCount text => s!"{debug text} is not a byte count (e.g. 4096, 64K, 2M, 1G)"
  | .unknownSuffix text suffix => s!"{debug text}: unknown suffix {debug suffix}; use K, M, G or T (powers of 1024)"
  | .tooLarge text => s!"{debug text} does not fit in 64 bits"

namespace Size

def shiftOf (suffix : String) : Option Nat :=
  match suffix with
  | "" | "b" => some 0
  | "k" | "kb" | "kib" => some 10
  | "m" | "mb" | "mib" => some 20
  | "g" | "gb" | "gib" => some 30
  | "t" | "tb" | "tib" => some 40
  | _ => none

def parseDecimal (text : List Char) : Except SizeError Nat :=
  let digits := text.takeWhile Char.isDigit
  let suffix := text.dropWhile Char.isDigit
  if digits = [] then .error (.notAByteCount text)
  else match fromStrRadix digits 10 with
    | .error kind => .error (.number text kind)
    | .ok n =>
      match shiftOf (String.ofList (suffix.map Char.toLower)) with
      | none => .error (.unknownSuffix text suffix)
      | some shift =>
        match checkedMul n (2^shift) with
        | none => .error (.tooLarge text)
        | some bytes => .ok bytes

def parseHex (text hex : List Char) : Except SizeError Nat :=
  match fromStrRadix hex 16 with
  | .error kind => .error (.number text kind)
  | .ok n => .ok n

def parse (text : String) : Except SizeError Nat :=
  let text := trim text.toList
  match text with
  | '0' :: 'x' :: hex => parseHex text hex
  | '0' :: 'X' :: hex => parseHex text hex
  | _ => parseDecimal text

def suffixes : List (String × Nat) :=
  [("B",0),("K",1),("M",2),("G",3),("T",4),("KB",1),("MB",2),("GB",3),("TB",4),("KiB",1),("MiB",2),("GiB",3),("TiB",4)]

def SameLetters (a b : List Char) : Prop := a.map Char.toLower = b.map Char.toLower

def Spells (radix : Nat) (ds : List Char) (n : Nat) : Prop :=
  ds ≠ [] ∧ (∀ c ∈ ds, (toDigit radix c).isSome) ∧ n = numeral (toDigit radix) radix ds

/-- The documented grammar, and the number each of its texts stands for. -/
inductive Denotes : List Char → Nat → Prop where
  | hex {x : Char} {ds : List Char} {n : Nat} (hx : x = 'x' ∨ x = 'X') (h : Spells 16 ds n) : Denotes ('0' :: x :: ds) n
  | plain {ds : List Char} {n : Nat} (h : Spells 10 ds n) : Denotes ds n
  | suffixed {ds suffix : List Char} {n : Nat} {e : String × Nat} (h : Spells 10 ds n) (he : e ∈ suffixes)
      (hs : SameLetters suffix e.1.toList) : Denotes (ds ++ suffix) (n * 1024^e.2)

/-- Hexadecimal digits with a sign before them, which the grammar does not have. -/
def SignedHex (text : List Char) (n : Nat) : Prop :=
  ∃ x ds, (x = 'x' ∨ x = 'X') ∧ text = '0' :: x :: '+' :: ds ∧ Spells 16 ds n

section grammar
variable {radix n v s : Nat} {c : Char} {text ds src suffix : List Char}

private theorem toDigit_ten : (toDigit 10 c).isSome ↔ c.isDigit = true := by
  unfold toDigit
  dsimp only
  split_ifs with hd hlt hlow hlt hup hlt hlt
  · simp [hd]
  · rw [Char.isDigit_iff_toNat] at hd
    have h0 : '0'.toNat = 48 := rfl
    have h9 : '9'.toNat = 57 := rfl
    omega
  all_goals simp [hd]
  all_goals omega

private theorem toDigit_plus : toDigit radix '+' = none := if_neg (Nat.lt_irrefl radix)

private theorem toDigit_minus : toDigit radix '-' = none := if_neg (Nat.lt_irrefl radix)

private theorem not_spells_sign (h : toDigit radix c = none) : ¬ Spells radix (c :: ds) n := by
  rintro ⟨-,hall,-⟩
  have hc := hall c List.mem_cons_self
  rw [h] at hc
  exact Bool.noConfusion hc

/-- The library's parser takes digits that fit, or the same after a `+`. -/
private theorem fromStrRadix_eq_ok (hr : 0 < radix) : fromStrRadix src radix = .ok n ↔
    (Spells radix src n ∨ ∃ ds, src = '+' :: ds ∧ Spells radix ds n) ∧ n < 2^64 := by
  have hread : ∀ ds : List Char, ds ≠ [] →
      (readDigits (toDigit radix) radix 0 ds = .ok n ↔ Spells radix ds n ∧ n < 2^64) := by
    intro ds hne
    rw [readDigits_eq_ok hr (Nat.two_pow_pos 64)]
    simp [Spells,hne,and_assoc]
  unfold fromStrRadix
  split
  · simp [Spells]
  · have hsign : ¬ Spells radix ['+'] n := not_spells_sign toDigit_plus
    have hnone : ¬ Spells radix [] n := fun h => h.1 rfl
    simp [hsign,hnone]
  · simp [not_spells_sign toDigit_minus]
  · rename_i ds hne
    rw [hread ds fun h => hne (by rw [h])]
    simp [not_spells_sign toDigit_plus]
  · rename_i hnil _ _ hplus
    rw [hread src hnil]
    have hsign : ¬ ∃ ds, src = '+' :: ds ∧ Spells radix ds n := fun ⟨ds,h,_⟩ => hplus ds h
    simp [hsign]

private theorem shiftOf_iff {t : String} : shiftOf t = some s ↔
    (t = "" ∧ s = 0) ∨ ∃ e ∈ suffixes, t = String.ofList (e.1.toList.map Char.toLower) ∧ s = 10 * e.2 := by
  constructor
  · intro h
    unfold shiftOf at h
    split at h
    all_goals cases h
    · exact .inl ⟨rfl,rfl⟩
    all_goals exact .inr (by decide)
  · rintro (⟨rfl,rfl⟩ | ⟨e,he,rfl,rfl⟩)
    · rfl
    · revert e
      decide

private theorem toLower_of_isDigit (h : c.isDigit = true) : c.toLower = c := by
  rw [Char.isDigit,Bool.and_eq_true,decide_eq_true_iff,decide_eq_true_iff] at h
  exact dif_neg fun hu => absurd (UInt32.le_trans hu.1 h.2) (by decide)

/-- No suffix begins with a digit. -/
private theorem not_isDigit_of_sameLetters {e : String × Nat} (he : e ∈ suffixes)
    (h : SameLetters (c :: suffix) e.1.toList) : c.isDigit = false := by
  have hhead : ∀ e ∈ suffixes, (e.1.toList.map Char.toLower).head?.map Char.isDigit = some false := by decide
  have hc := hhead e he
  rw [← h] at hc
  by_contra hd
  rw [Bool.not_eq_false] at hd
  rw [List.map_cons,List.head?_cons,Option.map_some,toLower_of_isDigit hd,hd] at hc
  cases hc

private theorem Spells.isDigit (h : Spells 10 ds n) :
    ∀ c ∈ ds, c.isDigit = true := fun c hc => toDigit_ten.mp (h.2.1 c hc)

/-- A decimal count is the digits in front and a suffix that the table has. -/
private theorem denotes_decimal_iff (hx : ∀ x ds, (x = 'x' ∨ x = 'X') → text ≠ '0' :: x :: ds) : Denotes text v ↔
    ∃ n s, Spells 10 (text.takeWhile Char.isDigit) n ∧
      shiftOf (String.ofList ((text.dropWhile Char.isDigit).map Char.toLower)) = some s ∧ v = n * 2^s := by
  constructor
  · intro h
    cases h with
    | hex hx' h => exact absurd rfl (hx _ _ hx')
    | plain h =>
      refine ⟨v,0,?_,?_,by rw [pow_zero,Nat.mul_one]⟩
      · rwa [List.takeWhile_eq_self_iff.mpr h.isDigit]
      · rw [List.dropWhile_eq_nil_iff.mpr h.isDigit]
        rfl
    | @suffixed ds suffix n e h he hs =>
      have hfront : suffix.takeWhile Char.isDigit = [] ∧ suffix.dropWhile Char.isDigit = suffix := by
        cases suffix with
        | nil => exact ⟨rfl,rfl⟩
        | cons c cs =>
          have hc := not_isDigit_of_sameLetters he hs
          exact ⟨List.takeWhile_cons_of_neg (by simp [hc]),List.dropWhile_cons_of_neg (by simp [hc])⟩
      refine ⟨n,10 * e.2,?_,?_,by rw [pow_mul,show 2^10 = 1024 from rfl]⟩
      · rwa [List.takeWhile_append_of_pos h.isDigit,hfront.1,List.append_nil]
      · rw [List.dropWhile_append_of_pos h.isDigit,hfront.2,shiftOf_iff]
        exact .inr ⟨e,he,congrArg String.ofList hs,rfl⟩
  · rintro ⟨n,s,h,hs,rfl⟩
    rw [shiftOf_iff] at hs
    rcases hs with ⟨hs,rfl⟩ | ⟨e,he,hs,rfl⟩
    · rw [← String.ofList_nil,String.ofList_inj,List.map_eq_nil_iff] at hs
      have happ := List.takeWhile_append_dropWhile (p := Char.isDigit) (l := text)
      rw [hs,List.append_nil] at happ
      rw [happ] at h
      rw [pow_zero,Nat.mul_one]
      exact .plain h
    · have hd : Denotes (text.takeWhile Char.isDigit ++ text.dropWhile Char.isDigit) (n * 1024^e.2) :=
        .suffixed h he (String.ofList_inj.mp hs)
      rwa [List.takeWhile_append_dropWhile,show 1024 = 2^10 from rfl,← pow_mul] at hd

private theorem parseDecimal_eq_ok : parseDecimal text = .ok v ↔
    (∃ n s, Spells 10 (text.takeWhile Char.isDigit) n ∧
      shiftOf (String.ofList ((text.dropWhile Char.isDigit).map Char.toLower)) = some s ∧ v = n * 2^s) ∧ v < 2^64 := by
  have hplus : ¬ ∃ ds, text.takeWhile Char.isDigit = '+' :: ds := by
    rintro ⟨ds,h⟩
    have := List.mem_takeWhile_imp (h ▸ List.mem_cons_self : '+' ∈ text.takeWhile Char.isDigit)
    exact absurd this (by decide)
  have hnum : ∀ n, fromStrRadix (text.takeWhile Char.isDigit) 10 = .ok n ↔ Spells 10 (text.takeWhile Char.isDigit) n ∧
      n < 2^64 := by
    intro n
    rw [fromStrRadix_eq_ok (by decide)]
    refine and_congr_left' (or_iff_left ?_)
    rintro ⟨ds,h,-⟩
    exact hplus ⟨ds,h⟩
  unfold parseDecimal
  dsimp only
  split_ifs with hnil
  · simp [hnil,Spells]
  · cases hn : fromStrRadix (text.takeWhile Char.isDigit) 10 with
    | error kind =>
      -- digits that do not fit before the suffix do not fit after it
      refine ⟨fun h => (by cases h),?_⟩
      rintro ⟨⟨n,s,h,-,rfl⟩,hfit⟩
      have hfits := (hnum n).mpr ⟨h,(Nat.le_mul_of_pos_right n (Nat.two_pow_pos s)).trans_lt hfit⟩
      rw [hn] at hfits
      cases hfits
    | ok n =>
      obtain ⟨hspells,hlt⟩ := (hnum n).mp hn
      dsimp only
      cases hs : shiftOf (String.ofList ((text.dropWhile Char.isDigit).map Char.toLower)) with
      | none => simp
      | some shift =>
        dsimp only
        have hsame : (∃ m s, Spells 10 (text.takeWhile Char.isDigit) m ∧ some shift = some s ∧ v = m * 2^s) ↔
            v = n * 2^shift := by
          constructor
          · rintro ⟨m,s,hm,hss,rfl⟩
            rw [Option.some.inj hss,hm.2.2,← hspells.2.2]
          · exact fun h => ⟨n,shift,hspells,rfl,h⟩
        rw [hsame,checkedMul]
        split_ifs with hfit
        · dsimp only
          rw [Except.ok.injEq]
          constructor
          · rintro rfl
            exact ⟨rfl,hfit⟩
          · exact fun h => h.1.symm
        · refine ⟨fun h => (by cases h),?_⟩
          rintro ⟨rfl,h⟩
          exact absurd h hfit

/-- No suffix begins with an `x`. -/
private theorem not_sameLetters_x {x : Char} (hx : x = 'x' ∨ x = 'X') {e : String × Nat} (he : e ∈ suffixes) :
    ¬ SameLetters (x :: ds) e.1.toList := by
  have hhead : ∀ e ∈ suffixes, (e.1.toList.map Char.toLower).head? ≠ some 'x' := by decide
  intro h
  apply hhead e he
  rw [← h]
  rcases hx with rfl | rfl <;> rfl

/-- After `0x` only hexadecimal digits go on. -/
private theorem denotes_hex_iff {x : Char} (hx : x = 'x' ∨ x = 'X') : Denotes ('0' :: x :: ds) n ↔ Spells 16 ds n := by
  have hxd : x.isDigit = false := by rcases hx with rfl | rfl <;> rfl
  have hlong : ∀ rest m, ¬ Spells 10 ('0' :: x :: rest) m := by
    intro rest m h
    have := h.isDigit x (List.mem_cons_of_mem _ List.mem_cons_self)
    rw [hxd] at this
    exact Bool.noConfusion this
  refine ⟨fun h => ?_,.hex hx⟩
  generalize ht : '0' :: x :: ds = t at h
  cases h with
  | hex hx' h =>
    injection ht with _ ht
    injection ht with _ ht
    rwa [ht]
  | plain h => exact absurd (ht ▸ h) (hlong _ _)
  | @suffixed front suffix n e h he hs =>
    match front,ht,h with
    | [],_,h => exact absurd rfl h.1
    | [c],ht,_ =>
      injection ht with _ ht
      rw [List.append_eq,List.nil_append] at ht
      exact absurd (ht ▸ hs) (not_sameLetters_x hx he)
    | c :: c' :: rest,ht,h =>
      injection ht with hc ht
      injection ht with hc' _
      exact absurd (hc ▸ hc' ▸ h) (hlong _ _)

private theorem signedHex_iff {x : Char} (hx : x = 'x' ∨ x = 'X') :
    SignedHex ('0' :: x :: ds) n ↔ ∃ rest, ds = '+' :: rest ∧ Spells 16 rest n := by
  constructor
  · rintro ⟨y,rest,-,h,hspells⟩
    injection h with _ h
    injection h with _ h
    exact ⟨rest,h,hspells⟩
  · rintro ⟨rest,rfl,hspells⟩
    exact ⟨x,rest,hx,rfl,hspells⟩

private theorem not_denotes_of_signedHex (h : SignedHex text n) : ¬ Denotes text v := by
  obtain ⟨x,ds,hx,rfl,-⟩ := h
  rw [denotes_hex_iff hx]
  exact not_spells_sign toDigit_plus

/-- What is parsed: the grammar, and the signed texts that the library's parser lets through. -/
private theorem parse_eq_ok (text : String) :
    parse text = .ok n ↔ (Denotes (trim text.toList) n ∨ SignedHex (trim text.toList) n) ∧ n < 2^64 := by
  have hhex : ∀ x ds, (x = 'x' ∨ x = 'X') →
      (parseHex ('0' :: x :: ds) ds = .ok n ↔ (Denotes ('0' :: x :: ds) n ∨ SignedHex ('0' :: x :: ds) n) ∧
        n < 2^64) := by
    intro x ds hx
    rw [denotes_hex_iff hx,signedHex_iff hx,← fromStrRadix_eq_ok (by decide)]
    unfold parseHex
    cases fromStrRadix ds 16 <;> simp
  unfold parse
  dsimp only
  split
  · rename_i hex ht
    rw [ht]
    exact hhex 'x' hex (.inl rfl)
  · rename_i hex ht
    rw [ht]
    exact hhex 'X' hex (.inr rfl)
  · rename_i hlow hup
    have hnone : ∀ x ds, (x = 'x' ∨ x = 'X') → trim text.toList ≠ '0' :: x :: ds := by
      rintro x ds (rfl | rfl)
      · exact hlow ds
      · exact hup ds
    have hsigned : ¬ SignedHex (trim text.toList) n := fun ⟨x,ds,hx,h,_⟩ => hnone x _ hx h
    rw [or_iff_left hsigned,denotes_decimal_iff hnone,parseDecimal_eq_ok]

/-- The parser takes what the grammar has where no signed text is given. -/
theorem parse_iff_denotes (text : String) : (∀ n, parse text = .ok n ↔ Denotes (trim text.toList) n ∧ n < 2^64) ↔
    ¬ ∃ n < 2^64, SignedHex (trim text.toList) n := by
  simp only [parse_eq_ok]
  constructor
  · rintro h ⟨n,hn,hs⟩
    exact not_denotes_of_signedHex hs ((h n).mp ⟨.inr hs,hn⟩).1
  · intro h n
    refine and_congr_left fun hn => or_iff_left fun hs => h ⟨n,hn,hs⟩

/-- `0x+10` is sixteen to the parser and nothing to the grammar. -/
theorem parse_signed :
    parse "0x+10" = .ok 16 ∧ ¬ ∀ n, parse "0x+10" = .ok n ↔ Denotes (trim "0x+10".toList) n ∧ n < 2^64 := by
  have hparse : parse "0x+10" = .ok 16 := by decide
  refine ⟨hparse,fun h => ?_⟩
  have hdigits : ∀ c ∈ ['1','0'], (toDigit 16 c).isSome := by
    intro c hc
    rcases List.mem_pair.mp hc with rfl | rfl
    · rfl
    · rfl
  have hsigned : SignedHex (trim "0x+10".toList) 16 :=
    ⟨'x',['1','0'],.inl rfl,by decide,List.cons_ne_nil _ _,hdigits,rfl⟩
  exact not_denotes_of_signedHex hsigned ((h 16).mp hparse).1

end grammar
end Size
end ImgVhdx
