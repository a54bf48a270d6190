import Mathlib.Tactic.Ring
import Mathlib.Data.List.Basic
import ImgVhdx.Lib.Outcome

/-! Byte strings: slices, overwriting a span, and little-endian numbers. -/
namespace ImgVhdx.Lib

abbrev Bytes := List UInt8

@[irreducible] def zeros (n : Nat) : Bytes := List.replicate n 0

def slice (bs : Bytes) (off len : Nat) : Bytes := (bs.drop off).take len

def splice (bs : Bytes) (off : Nat) (src : Bytes) : Bytes :=
  bs.take off ++ src ++ bs.drop (off + src.length)

/-- `&bs[lo..hi]`, which panics out of range. -/
def index {ε : Type} (bs : Bytes) (lo hi : Nat) : Outcome ε Bytes :=
  if lo ≤ hi ∧ hi ≤ bs.length then .ok (slice bs lo (hi - lo)) else .panic

def copyFromSlice {ε : Type} (bs : Bytes) (lo hi : Nat) (src : Bytes) : Outcome ε Bytes :=
  if lo + src.length = hi ∧ hi ≤ bs.length then .ok (splice bs lo src) else .panic

def toLE : Nat → Nat → Bytes
  | 0, _ => []
  | w+1, n => UInt8.ofNat (n % 256) :: toLE w (n / 256)

def ofLE : Bytes → Nat
  | [] => 0
  | b :: bs => b.toNat + 256 * ofLE bs

@[simp] theorem length_zeros (n : Nat) : (zeros n).length = n := by simp [zeros]

@[simp] theorem zeros_zero : zeros 0 = [] := by simp [zeros]

theorem zeros_add (m n : Nat) : zeros (m+n) = zeros m ++ zeros n := by simp [zeros]

@[simp] theorem ofLE_zeros (n : Nat) : ofLE (zeros n) = 0 := by
  induction n with
  | zero => simp [ofLE]
  | succ n ih =>
    have : zeros (n+1) = 0 :: zeros n := by simp [zeros,List.replicate_succ]
    rw [this,ofLE,ih]
    rfl

theorem getElem?_zeros {n i : Nat} (h : i < n) : (zeros n)[i]? = some 0 := by simp [zeros,h]

theorem length_slice_le (bs : Bytes) (off len : Nat) : (slice bs off len).length ≤ len := by
  simp [slice]

theorem length_slice {bs : Bytes} {o len : Nat} (h : o + len ≤ bs.length) :
    (slice bs o len).length = len := by
  simp only [slice,List.length_take,List.length_drop]
  omega

theorem getElem?_slice (bs : Bytes) (off len i : Nat) :
    (slice bs off len)[i]? = if i < len then bs[off+i]? else none := by
  unfold slice
  split
  · rw [List.getElem?_take_of_lt ‹_›,List.getElem?_drop]
  · exact List.getElem?_eq_none (by simp; omega)

/-- Two strings with the same slice have the same bytes there. -/
theorem getElem?_of_slice {a b : Bytes} {off len k : Nat} (h : slice a off len = slice b off len) (ho : off ≤ k)
    (hk : k < off + len) :
    a[k]? = b[k]? := by
  have := congrArg (·[k - off]?) h
  simp only [getElem?_slice] at this
  rwa [if_pos (by omega),if_pos (by omega),Nat.add_sub_cancel' ho] at this

theorem slice_slice {bs : Bytes} {a n b m : Nat} (h : b + m ≤ n) :
    slice (slice bs a n) b m = slice bs (a+b) m := by
  apply List.ext_getElem?
  intro i
  simp only [getElem?_slice]
  split_ifs <;> first | rfl | omega | (congr 1; omega)

theorem slice_add (bs : Bytes) (off m n : Nat) :
    slice bs off (m+n) = slice bs off m ++ slice bs (off+m) n := by
  simp only [slice,List.take_add,List.drop_drop]

@[simp] theorem slice_zero_length (bs : Bytes) (off : Nat) : slice bs off 0 = [] := by simp [slice]

theorem slice_all (bs : Bytes) : slice bs 0 bs.length = bs := by simp [slice]

theorem slice_eq_self {bs : Bytes} {n : Nat} (h : bs.length = n) : slice bs 0 n = bs := h ▸ slice_all bs

theorem slice_append_left {a b : Bytes} {off len : Nat} (h : off + len ≤ a.length) :
    slice (a ++ b) off len = slice a off len := by
  apply List.ext_getElem?
  intro i
  simp only [getElem?_slice]
  split_ifs
  · exact List.getElem?_append_left (by omega)
  · rfl

theorem slice_append_right {a b : Bytes} {off len : Nat} (h : a.length ≤ off) :
    slice (a ++ b) off len = slice b (off - a.length) len := by
  apply List.ext_getElem?
  intro i
  simp only [getElem?_slice]
  split_ifs
  · rw [List.getElem?_append_right (by omega)]
    congr 1; omega
  · rfl

/-- The slice that is exactly the middle part of a concatenation. -/
theorem slice_middle {a b c : Bytes} {off len : Nat} (ho : off = a.length) (hl : len = b.length) :
    slice (a ++ b ++ c) off len = b := by
  subst ho hl
  rw [List.append_assoc,slice_append_right le_rfl,Nat.sub_self,slice_append_left (by simp),slice_all]

theorem slice_zeros {n off len : Nat} (h : off + len ≤ n) : slice (zeros n) off len = zeros len := by
  apply List.ext_getElem?
  intro i
  rw [getElem?_slice]
  split_ifs with hi
  · rw [getElem?_zeros (by omega),getElem?_zeros hi]
  · exact (List.getElem?_eq_none (by simpa using hi)).symm

theorem length_splice {bs src : Bytes} {off : Nat} (h : off + src.length ≤ bs.length) :
    (splice bs off src).length = bs.length := by
  simp only [splice,List.length_append,List.length_take,List.length_drop]
  omega

theorem length_le_splice (bs src : Bytes) (off : Nat) : bs.length ≤ (splice bs off src).length := by
  simp only [splice,List.length_append,List.length_take,List.length_drop]
  omega

theorem getElem?_splice {bs src : Bytes} {off : Nat} (h : off + src.length ≤ bs.length) (i : Nat) :
    (splice bs off src)[i]? = if off ≤ i ∧ i < off + src.length then src[i-off]? else bs[i]? := by
  have ht : (bs.take off).length = off := by rw [List.length_take]; omega
  unfold splice
  split_ifs with hi
  · rw [List.append_assoc,List.getElem?_append_right (by omega),List.getElem?_append_left (by omega),ht]
  · rcases Nat.lt_or_ge i off with hlt | hge
    · rw [List.append_assoc,List.getElem?_append_left (by omega),List.getElem?_take_of_lt hlt]
    · rw [List.getElem?_append_right (by simp [ht]; omega),List.getElem?_drop]
      congr 1
      simp only [List.length_append,ht]
      omega

theorem slice_splice_same {bs src : Bytes} {off len : Nat} (h : off + src.length ≤ bs.length)
    (hl : len = src.length) : slice (splice bs off src) off len = src := by
  apply slice_middle
  · rw [List.length_take]; omega
  · exact hl

theorem slice_splice_of_disjoint {bs src : Bytes} {off a n : Nat} (h : off + src.length ≤ bs.length)
    (hd : a + n ≤ off ∨ off + src.length ≤ a) : slice (splice bs off src) a n = slice bs a n := by
  apply List.ext_getElem?
  intro i
  simp only [getElem?_slice]
  split_ifs
  · rw [getElem?_splice h,if_neg (by omega)]
  · rfl

/-- Two overwrites end to end are one. -/
theorem splice_splice_append {bs x y : Bytes} {off k : Nat} (hn : k = off + x.length)
    (h : off + x.length + y.length ≤ bs.length) : splice (splice bs off x) k y = splice bs off (x ++ y) := by
  subst hn
  have hlen : (splice bs off x).length = bs.length := length_splice (by omega)
  apply List.ext_getElem?
  intro i
  rw [getElem?_splice (by omega),getElem?_splice (by omega),getElem?_splice (by rw [List.length_append]; omega),
    List.length_append]
  split_ifs <;> first | rfl | omega | skip
  · rw [List.getElem?_append_right (by omega)]
    congr 1; omega
  · rw [List.getElem?_append_left (by omega)]

/-- Overwriting part of what was just written. -/
theorem splice_splice_within {bs s t : Bytes} {a k b : Nat} (hat : b = a + k) (ht : k + t.length ≤ s.length)
    (h : a + s.length ≤ bs.length) : splice (splice bs a s) b t = splice bs a (splice s k t) := by
  subst hat
  have hlen : (splice bs a s).length = bs.length := length_splice h
  have hs : (splice s k t).length = s.length := length_splice ht
  apply List.ext_getElem?
  intro i
  rw [getElem?_splice (by omega),getElem?_splice h,getElem?_splice (by omega),hs]
  split_ifs <;> first | rfl | omega | skip
  · rw [getElem?_splice ht,if_pos (by omega)]
    congr 1; omega
  · rw [getElem?_splice ht,if_neg (by omega)]

/-- Overwrites of two parts that do not overlap, in either order. -/
theorem splice_splice_of_disjoint {bs x y : Bytes} {a b : Nat} (hab : a + x.length ≤ b) (h : b + y.length ≤ bs.length) :
    splice (splice bs a x) b y = splice (splice bs b y) a x := by
  have hx : (splice bs a x).length = bs.length := length_splice (by omega)
  have hy : (splice bs b y).length = bs.length := length_splice h
  apply List.ext_getElem?
  intro i
  rw [getElem?_splice (by omega),getElem?_splice (by omega),getElem?_splice (by omega),getElem?_splice (by omega)]
  split_ifs <;> first | rfl | omega

theorem splice_zero_of_length {s t : Bytes} (h : t.length = s.length) : splice s 0 t = t := by
  simp [splice,h]

/-- Only the second of two overwrites of one span is seen. -/
theorem splice_splice_same {bs x y : Bytes} {off : Nat} (h : off + x.length ≤ bs.length) (hy : y.length = x.length) :
    splice (splice bs off x) off y = splice bs off y := by
  rw [splice_splice_within (k := 0) (Nat.add_zero off).symm (by omega) h,splice_zero_of_length hy]

/-- Overwriting a span with what is there. -/
theorem splice_slice {bs : Bytes} {off n : Nat} (h : off + n ≤ bs.length) : splice bs off (slice bs off n) = bs := by
  unfold splice slice
  rw [List.length_take,List.length_drop,min_eq_left (by omega),List.append_assoc,← List.drop_drop,List.take_append_drop,
    List.take_append_drop]

/-- Overwriting the middle part of a concatenation. -/
theorem splice_middle {a b c src : Bytes} {off : Nat} (ho : off = a.length) (hl : src.length = b.length) :
    splice (a ++ b ++ c) off src = a ++ src ++ c := by
  subst ho
  simp [splice,hl,List.append_assoc]

/-- Filling a zeroed buffer from the front to the back. -/
theorem splice_zeros {a src : Bytes} {n off : Nat} (h : a.length ≤ off) (hn : off + src.length ≤ a.length + n) :
    splice (a ++ zeros n) off src =
      a ++ (zeros (off - a.length) ++ src) ++ zeros (a.length + n - off - src.length) := by
  obtain ⟨k,rfl⟩ := Nat.exists_eq_add_of_le h
  have hz : zeros n = zeros k ++ zeros src.length ++ zeros (n - k - src.length) := by
    rw [← zeros_add,← zeros_add]
    congr 1; omega
  rw [hz,show a ++ (zeros k ++ zeros src.length ++ zeros (n - k - src.length)) =
    (a ++ zeros k) ++ zeros src.length ++ zeros (n - k - src.length) by simp only [List.append_assoc],
    splice_middle (by simp) (by simp),Nat.add_sub_cancel_left,
    show a.length + n - (a.length + k) = n - k by omega]
  simp only [List.append_assoc]

/-- One part of a byte string laid out part by part. -/
theorem slice_flatten {parts : List Bytes} {i off len : Nat} {p : Bytes} (hp : parts[i]? = some p)
    (ho : off = (parts.take i).flatten.length) (hl : len = p.length) :
    slice parts.flatten off len = p := by
  obtain ⟨hi,rfl⟩ := List.getElem?_eq_some_iff.mp hp
  have h : parts.flatten = (parts.take i).flatten ++ parts[i] ++ (parts.drop (i+1)).flatten := by
    calc
      _ = (parts.take i ++ parts.drop i).flatten := by rw [List.take_append_drop]
      _ = _ := by
        rw [List.drop_eq_getElem_cons hi]
        simp only [List.flatten_append,List.flatten_cons,List.append_assoc]
  rw [h]
  exact slice_middle ho hl

theorem index_of_le {ε : Type} {bs : Bytes} {lo hi : Nat} (h : lo ≤ hi) (hb : hi ≤ bs.length) :
    (index bs lo hi : Outcome ε Bytes) = .ok (slice bs lo (hi - lo)) := if_pos ⟨h,hb⟩

theorem copyFromSlice_of_le {ε : Type} {bs src : Bytes} {lo hi : Nat} (h : lo + src.length = hi)
    (hb : hi ≤ bs.length) : (copyFromSlice bs lo hi src : Outcome ε Bytes) = .ok (splice bs lo src) :=
  if_pos ⟨h,hb⟩

@[simp] theorem length_toLE (w n : Nat) : (toLE w n).length = w := by
  induction w generalizing n with
  | zero => rfl
  | succ w ih => simp [toLE,ih]

theorem ofLE_lt (bs : Bytes) : ofLE bs < 256^bs.length := by
  induction bs with
  | nil => simp [ofLE]
  | cons b bs ih =>
    have hb := b.toNat_lt
    rw [ofLE,List.length_cons,pow_succ]
    omega

theorem ofLE_toLE {w n : Nat} (h : n < 256^w) : ofLE (toLE w n) = n := by
  induction w generalizing n with
  | zero => simp only [pow_zero] at h; simp [toLE,ofLE]; omega
  | succ w ih =>
    rw [toLE,ofLE,ih (by rw [Nat.div_lt_iff_lt_mul (by omega)]; rwa [pow_succ] at h)]
    have : (UInt8.ofNat (n % 256)).toNat = n % 256 := by simp
    omega

theorem toLE_ofLE (bs : Bytes) : toLE bs.length (ofLE bs) = bs := by
  induction bs with
  | nil => rfl
  | cons b bs ih =>
    have hb : b.toNat < 256 := b.toNat_lt
    rw [List.length_cons,ofLE,toLE,Nat.add_mul_mod_self_left,Nat.mod_eq_of_lt hb,
      Nat.add_mul_div_left _ _ (by omega),Nat.div_eq_of_lt hb,Nat.zero_add,ih]
    simp

end ImgVhdx.Lib
