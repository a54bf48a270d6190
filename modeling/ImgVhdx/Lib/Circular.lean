import ImgVhdx.Lib.Bytes

/-! A byte string read and written round its end. -/
namespace ImgVhdx.Lib

def wrap (len x : Nat) : Nat := if x < len then x else x - len

def around (len start x : Nat) : Nat := if start ≤ x then x - start else x + len - start

/-- The `len` bytes from `pos` on, continued at the front past the end. -/
def circSlice (bs : Bytes) (pos len : Nat) : Bytes := slice bs pos len ++ slice bs 0 (pos + len - bs.length)

/-- `bs` with the bytes from `pos` on overwritten by `src`, round the end. -/
def circSplice (bs : Bytes) (pos : Nat) (src : Bytes) : Bytes :=
  splice (splice bs pos (src.take (bs.length - pos))) 0 (src.drop (bs.length - pos))

/-- Several strings written one after the other from `pos` on. -/
def circLay (bs : Bytes) : Nat → List Bytes → Bytes
  | _, [] => bs
  | pos, src :: rest => circLay (circSplice bs pos src) (wrap bs.length (pos + src.length)) rest

variable {bs src : Bytes} {pos len : Nat}

theorem wrap_lt {n x : Nat} (h : x < 2 * n) : wrap n x < n := by
  unfold wrap; split <;> omega

theorem wrap_eq_mod {n x : Nat} (h : x < 2 * n) : wrap n x = x % n := by
  unfold wrap
  split
  · exact (Nat.mod_eq_of_lt ‹_›).symm
  · rw [Nat.mod_eq_sub_mod (by omega),Nat.mod_eq_of_lt (by omega)]

theorem wrap_of_lt {n x : Nat} (h : x < n) : wrap n x = x := if_pos h

theorem circSlice_of_le (h : pos + len ≤ bs.length) : circSlice bs pos len = slice bs pos len := by
  rw [circSlice,Nat.sub_eq_zero_of_le h,slice_zero_length,List.append_nil]

theorem length_circSlice {p : Nat} (hp : p ≤ bs.length) (hl : len ≤ bs.length) : (circSlice bs p len).length = len := by
  rcases Nat.le_total (p + len) bs.length with h | h
  · rw [circSlice_of_le h,length_slice h]
  · rw [circSlice,List.length_append,length_slice (o := 0) (by omega)]
    simp only [slice,List.length_take,List.length_drop]
    omega

private theorem getElem?_circSlice (hp : pos < bs.length) (i : Nat) :
    (circSlice bs pos len)[i]? = if i < len then bs[wrap bs.length (pos+i)]? else none := by
  have hlen : (slice bs pos len).length = min len (bs.length - pos) := by
    simp only [slice,List.length_take,List.length_drop]
  rcases Nat.lt_or_ge i (min len (bs.length - pos)) with hi | hi
  · rw [circSlice,List.getElem?_append_left (by omega),getElem?_slice,wrap_of_lt (by omega)]
  · rw [circSlice,List.getElem?_append_right (by omega),getElem?_slice,hlen]
    by_cases h : i < len
    · rw [if_pos (by omega),if_pos h,wrap,if_neg (by omega)]
      congr 1
      omega
    · rw [if_neg (by omega),if_neg h]

/-- A span of a circular slice that is not itself cut by the end. -/
theorem slice_circSlice_wrap {off n : Nat} (hp : pos < bs.length) (h : off + n ≤ len)
    (hb : wrap bs.length (pos+off) + n ≤ bs.length) :
    slice (circSlice bs pos len) off n = slice bs (wrap bs.length (pos+off)) n := by
  apply List.ext_getElem?
  intro i
  rw [getElem?_slice,getElem?_slice,getElem?_circSlice hp]
  split_ifs with hi ho
  · congr 1
    unfold wrap at *
    split_ifs at * <;> omega
  · omega
  · rfl

theorem slice_circSlice {off n : Nat} (hp : pos < bs.length) (h : off + n ≤ len)
    (hb : pos + off + n ≤ bs.length) (hn : 0 < n) : slice (circSlice bs pos len) off n = slice bs (pos+off) n := by
  have hw : wrap bs.length (pos+off) = pos + off := wrap_of_lt (by omega)
  rw [slice_circSlice_wrap hp h (by omega),hw]

theorem circSplice_of_le (h : pos + src.length ≤ bs.length) : circSplice bs pos src = splice bs pos src := by
  rw [circSplice,List.take_of_length_le (by omega),List.drop_eq_nil_of_le (by omega)]
  simp [splice]

private theorem length_circSplice {x : Bytes} (hp : pos ≤ bs.length) (hl : x.length ≤ bs.length) :
    (circSplice bs pos x).length = bs.length := by
  have h : (splice bs pos (x.take (bs.length - pos))).length = bs.length :=
    length_splice (by rw [List.length_take]; omega)
  rw [circSplice,length_splice (by rw [h,List.length_drop]; omega),h]

private theorem getElem?_circSplice (hp : pos < bs.length) (hl : src.length ≤ bs.length) {j : Nat}
    (hj : j < bs.length) :
    (circSplice bs pos src)[j]? =
      if around bs.length pos j < src.length then src[around bs.length pos j]? else bs[j]? := by
  have ht : (src.take (bs.length - pos)).length = min (bs.length - pos) src.length := List.length_take
  have hd : (src.drop (bs.length - pos)).length = src.length - (bs.length - pos) := List.length_drop
  have h : (splice bs pos (src.take (bs.length - pos))).length = bs.length := length_splice (by omega)
  rw [circSplice,getElem?_splice (by omega),getElem?_splice (by omega),ht,hd]
  unfold around
  rcases Nat.lt_or_ge j pos with hlt | hge
  · rw [if_neg (show ¬ (pos ≤ j ∧ _) by omega),if_neg (show ¬ pos ≤ j by omega)]
    by_cases hc : j + bs.length - pos < src.length
    · rw [if_pos (by omega),if_pos hc,List.getElem?_drop]
      congr 1
      omega
    · rw [if_neg (by omega),if_neg hc]
  · rw [if_neg (show ¬ (0 ≤ j ∧ _) by omega),if_pos hge]
    by_cases hc : j - pos < src.length
    · rw [if_pos (by omega),if_pos hc,List.getElem?_take_of_lt (by omega)]
    · rw [if_neg (by omega),if_neg hc]

/-- What was written round the end is read back round the end. -/
private theorem circSlice_circSplice_same (hp : pos < bs.length) (hl : src.length ≤ bs.length) :
    circSlice (circSplice bs pos src) pos src.length = src := by
  have hlen := length_circSplice hp.le hl
  apply List.ext_getElem?
  intro i
  rw [getElem?_circSlice (by omega),hlen]
  split_ifs with hi
  · rw [getElem?_circSplice hp hl (wrap_lt (by omega))]
    have : around bs.length pos (wrap bs.length (pos+i)) = i := by
      unfold around wrap; split_ifs <;> omega
    rw [this,if_pos hi]
  · exact (List.getElem?_eq_none (by omega)).symm

/-- A write leaves alone what lies past its end, counted round from its start. -/
private theorem circSlice_circSplice_of_disjoint {a n : Nat} (hp : pos < bs.length) (hl : src.length ≤ bs.length)
    (ha : a < bs.length) (hn : src.length ≤ around bs.length pos a) (hc : around bs.length pos a + n ≤ bs.length) :
    circSlice (circSplice bs pos src) a n = circSlice bs a n := by
  have hlen := length_circSplice hp.le hl
  apply List.ext_getElem?
  intro i
  rw [getElem?_circSlice (by omega),getElem?_circSlice ha,hlen]
  split_ifs with hi
  · rw [getElem?_circSplice hp hl (wrap_lt (by omega)),if_neg]
    unfold around wrap at *
    split_ifs at * <;> omega
  · rfl

theorem around_wrap {n start x : Nat} (hs : start < n) (hx : x < n) {k : Nat} (hk : around n start x + k < n) :
    around n start (wrap n (x+k)) = around n start x + k := by
  unfold around wrap at *
  split_ifs at * <;> omega

theorem around_lt {n start x : Nat} (hs : start < n) (hx : x < n) : around n start x < n := by
  unfold around; split <;> omega

@[simp] theorem around_self (n start : Nat) : around n start start = 0 := by simp [around]

def circOffsets (len : Nat) : Nat → List Bytes → List Nat
  | _, [] => []
  | pos, src :: rest => pos :: circOffsets len (wrap len (pos + src.length)) rest

theorem length_circLay {b : Bytes} {x : List Bytes} (hp : pos < b.length) (hl : x.flatten.length ≤ b.length) :
    (circLay b pos x).length = b.length := by
  induction x generalizing b pos with
  | nil => rfl
  | cons src rest ih =>
    rw [List.flatten_cons,List.length_append] at hl
    have h := length_circSplice (x := src) hp.le (by omega)
    rw [circLay,ih (by rw [h]; exact wrap_lt (by omega)) (by omega),h]

/-- A lay leaves alone what lies past its end, counted round from its start. -/
theorem circSlice_circLay_of_disjoint {srcs : List Bytes} {a n : Nat} (hp : pos < bs.length) (ha : a < bs.length)
    (hn : srcs.flatten.length ≤ around bs.length pos a) (hc : around bs.length pos a + n ≤ bs.length) :
    circSlice (circLay bs pos srcs) a n = circSlice bs a n := by
  induction srcs generalizing bs pos with
  | nil => rfl
  | cons src rest ih =>
    rw [List.flatten_cons,List.length_append] at hn
    have hlt := around_lt hp ha
    have h := length_circSplice (x := src) hp.le (by omega)
    have haround : around bs.length (wrap bs.length (pos + src.length)) a = around bs.length pos a - src.length := by
      unfold around wrap at *
      split_ifs at * <;> omega
    rw [circLay,ih (by rw [h]; exact wrap_lt (by omega)) (by omega) (by rw [h,haround]; omega)
      (by rw [h,haround]; omega)]
    exact circSlice_circSplice_of_disjoint hp (by omega) ha (by omega) hc

/-- Every string of a lay is read back whole. -/
theorem circLay_parts {b : Bytes} {p : Nat} {x : List Bytes} (hp : p < b.length) (hl : x.flatten.length ≤ b.length) :
    List.Forall₂ (fun off src => circSlice (circLay b p x) off src.length = src)
      (circOffsets b.length p x) x := by
  induction x generalizing b p with
  | nil => exact List.Forall₂.nil
  | cons src rest ih =>
    rw [List.flatten_cons,List.length_append] at hl
    have h := length_circSplice (x := src) hp.le (by omega)
    have hnext : wrap b.length (p + src.length) < b.length := wrap_lt (by omega)
    refine List.Forall₂.cons ?_ ?_
    · have haround : around b.length (wrap b.length (p + src.length)) p + src.length = b.length ∨
          around b.length (wrap b.length (p + src.length)) p = 0 ∧ (src.length = 0 ∨ src.length = b.length) := by
        unfold around wrap
        split_ifs <;> omega
      by_cases h0 : src.length = 0
      · have hlen := length_circLay (x := src :: rest) hp (by rwa [List.flatten_cons,List.length_append])
        rw [h0,circSlice_of_le (by omega),slice_zero_length,List.length_eq_zero_iff.mp h0]
      rw [circLay,circSlice_circLay_of_disjoint (by rwa [h]) (by rwa [h]) (by rw [h]; omega) (by rw [h]; omega)]
      exact circSlice_circSplice_same hp (by omega)
    · have hrest := ih (b := circSplice b p src) (p := wrap b.length (p + src.length)) (by rwa [h]) (by omega)
      rwa [h] at hrest

end ImgVhdx.Lib
