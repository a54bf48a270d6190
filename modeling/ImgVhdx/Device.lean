import ImgVhdx.Lib.Bytes
import ImgVhdx.Lib.Prog
import ImgVhdx.Error

/-! The block device under a reader: bytes with an end that a read or a write may not
pass, and that moves only when it is asked to. -/
namespace ImgVhdx
open Lib

@[ext] structure Device where
  size : Nat
  byte : Nat → UInt8
  writable : Bool
  growable : Bool
  /-- Nothing lies past the end, so a device that grows reads as zeros there. -/
  blank : ∀ i, size ≤ i → byte i = 0

namespace Device
variable (d : Device)

/-- The bytes at `off`, whether or not they are inside the device. -/
def bytes (off len : Nat) : Bytes := (List.range len).map fun i => d.byte (off + i)

/-- A write of which only some 512-byte sectors landed. -/
def putSome (off : Nat) (bs : Bytes) (landed : Nat → Bool) : Device where
  size := d.size
  byte i := if off ≤ i ∧ i < off + bs.length ∧ i < d.size ∧ landed (i / 512) then bs.getD (i - off) 0 else d.byte i
  writable := d.writable
  growable := d.growable
  blank i hi := by rw [if_neg (by omega),d.blank i hi]

def put (off : Nat) (bs : Bytes) : Device := d.putSome off bs fun _ => true

def putAll (d : Device) (parts : List (Nat × Bytes)) : Device := parts.foldl (fun d p => d.put p.1 p.2) d

def resize (n : Nat) : Device where
  size := n
  byte i := if i < n then d.byte i else 0
  writable := d.writable
  growable := d.growable
  blank i hi := if_neg (by omega)

def readAt (off len : Nat) : Except FsError Bytes :=
  if off + len ≤ d.size then .ok (d.bytes off len) else .error (.outOfBounds off len d.size)

def writeAt (off : Nat) (bs : Bytes) : Except FsError Unit × Device :=
  if ¬ d.writable then (.error .readOnly,d)
  else if off + bs.length ≤ d.size then (.ok (),d.put off bs)
  else (.error (.outOfBounds off bs.length d.size),d)

def setLen (n : Nat) : Except FsError Unit × Device :=
  if d.growable then (.ok (),d.resize n) else (.error .readOnly,d)

end Device

/-- The calls of a `BlockDevice`. -/
inductive DevOp where
  | size
  | read (off len : Nat)
  | write (off : Nat) (bs : Bytes)
  | setLen (n : Nat)
  | flush

@[reducible] def DevOp.Reply : DevOp → Type
  | .size => Nat
  | .read _ _ => Except FsError Bytes
  | .write _ _ => Except FsError Unit
  | .setLen _ => Except FsError Unit
  | .flush => Except FsError Unit

abbrev DevProg (α : Type) := Prog DevOp DevOp.Reply Error α

namespace DevProg
variable {α : Type}

def ofReply (f : FsError → Error) : Except FsError α → DevProg α
  | .ok a => .done (.ok a)
  | .error e => .done (.err (f e))

def devSize : DevProg Nat := .call .size fun n => .done (.ok n)
def devRead (off len : Nat) (f : FsError → Error) : DevProg Bytes := .call (.read off len) (ofReply f)
def devWrite (off : Nat) (bs : Bytes) (f : FsError → Error) : DevProg Unit := .call (.write off bs) (ofReply f)
def devFlush (f : FsError → Error) : DevProg Unit := .call .flush (ofReply f)

end DevProg

def Device.handle : (op : DevOp) → Device → op.Reply × Device
  | .size, d => (d.size,d)
  | .read off len, d => (d.readAt off len,d)
  | .write off bs, d => d.writeAt off bs
  | .setLen n, d => d.setLen n
  | .flush, d => (.ok (),d)

namespace Device
variable {d : Device} {off len : Nat} {bs : Bytes}

@[simp] theorem length_bytes : (d.bytes off len).length = len := by simp [bytes]

theorem getElem?_bytes (i : Nat) : (d.bytes off len)[i]? = if i < len then some (d.byte (off+i)) else none := by
  rw [bytes,List.getElem?_map]
  split_ifs with h
  · rw [List.getElem?_range h]
    rfl
  · rw [List.getElem?_eq_none (by simpa using h)]
    rfl

/-- Two devices that agree on a span read the same there. -/
theorem bytes_congr {d' : Device} (h : ∀ i, off ≤ i → i < off + len → d'.byte i = d.byte i) :
    d'.bytes off len = d.bytes off len := by
  apply List.ext_getElem?
  intro i
  rw [getElem?_bytes,getElem?_bytes]
  split_ifs with hi
  · rw [h _ (by omega) (by omega)]
  · rfl

theorem byte_of_bytes {d' : Device} (h : d'.bytes off len = d.bytes off len) {i : Nat} (hlo : off ≤ i)
    (hhi : i < off + len) :
    d'.byte i = d.byte i := by
  have := congrArg (·[i - off]?) h
  simp only [getElem?_bytes] at this
  rw [if_pos (by omega),if_pos (by omega),show off + (i - off) = i by omega] at this
  exact Option.some.inj this

theorem bytes_add (a m n : Nat) : d.bytes a (m + n) = d.bytes a m ++ d.bytes (a + m) n := by
  simp only [bytes,List.range_add,List.map_append,List.map_map]
  congr 2
  funext i
  exact congrArg d.byte (Nat.add_assoc ..).symm

theorem slice_bytes {a n : Nat} (h : a + n ≤ len) : slice (d.bytes off len) a n = d.bytes (off+a) n := by
  apply List.ext_getElem?
  intro i
  rw [getElem?_slice,getElem?_bytes,getElem?_bytes]
  split_ifs
  · rw [Nat.add_assoc]
  · omega
  · rfl

theorem slice_bytes_front {n : Nat} (h : n ≤ len) : slice (d.bytes off len) 0 n = d.bytes off n := by
  rw [slice_bytes (by omega),Nat.add_zero]

theorem bytes_eq_iff {src : Bytes} (h : src.length = len) :
    d.bytes off len = src ↔ ∀ i, (hi : i < src.length) → d.byte (off+i) = src[i] := by
  constructor
  · rintro rfl i hi
    simp [bytes]
  · intro hall
    apply List.ext_getElem?
    intro i
    rw [getElem?_bytes]
    split_ifs with hi
    · rw [List.getElem?_eq_getElem (by omega),hall i (by omega)]
    · exact (List.getElem?_eq_none (by omega)).symm

@[simp] theorem size_putSome (landed : Nat → Bool) : (d.putSome off bs landed).size = d.size := rfl
@[simp] theorem size_put : (d.put off bs).size = d.size := rfl
@[simp] theorem writable_put : (d.put off bs).writable = d.writable := rfl
@[simp] theorem growable_put : (d.put off bs).growable = d.growable := rfl
@[simp] theorem size_resize (n : Nat) : (d.resize n).size = n := rfl
@[simp] theorem writable_resize (n : Nat) : (d.resize n).writable = d.writable := rfl
@[simp] theorem growable_resize (n : Nat) : (d.resize n).growable = d.growable := rfl

theorem byte_putSome_of_outside {landed : Nat → Bool} {i : Nat} (h : i < off ∨ off + bs.length ≤ i) :
    (d.putSome off bs landed).byte i = d.byte i := if_neg (by omega)

theorem byte_put_of_outside {i : Nat} (h : i < off ∨ off + bs.length ≤ i) : (d.put off bs).byte i = d.byte i :=
  byte_putSome_of_outside h

theorem byte_put_inside (h : off + bs.length ≤ d.size) {k : Nat} (hk : k < bs.length) :
    (d.put off bs).byte (off + k) = bs[k] := by
  refine (if_pos ⟨by omega,by omega,by omega,rfl⟩).trans ?_
  rw [Nat.add_sub_cancel_left,List.getD_eq_getElem?_getD,List.getElem?_eq_getElem hk]
  rfl

/-- A sector landed or it did not. -/
theorem byte_putSome (landed : Nat → Bool) (i : Nat) : (d.putSome off bs landed).byte i =
    if landed (i / 512) then (d.put off bs).byte i else d.byte i := by
  simp only [put,putSome]
  by_cases h : landed (i / 512) <;> simp [h]

theorem bytes_put_same {o : Nat} {b : Bytes} (h : o + b.length ≤ d.size) : (d.put o b).bytes o b.length = b :=
  (bytes_eq_iff rfl).mpr fun _ hi => byte_put_inside h hi

theorem bytes_put_of_disjoint {a n : Nat} (h : a + n ≤ off ∨ off + bs.length ≤ a) :
    (d.put off bs).bytes a n = d.bytes a n :=
  bytes_congr fun i hlo hhi => byte_put_of_outside (by omega)

theorem bytes_put_within {a k n : Nat} (hk : k + bs.length ≤ n) (h : a + n ≤ d.size) :
    (d.put (a+k) bs).bytes a n = splice (d.bytes a n) k bs := by
  apply List.ext_getElem?
  intro i
  rw [getElem?_splice (by rwa [length_bytes]),getElem?_bytes,getElem?_bytes]
  by_cases hi : k ≤ i ∧ i < k + bs.length
  · obtain ⟨j,rfl⟩ := Nat.exists_eq_add_of_le hi.1
    rw [if_pos hi,if_pos (by omega),← Nat.add_assoc,byte_put_inside (by omega) (show j < bs.length by omega),
      Nat.add_sub_cancel_left,List.getElem?_eq_getElem (by omega)]
  · rw [if_neg hi]
    split_ifs
    · rw [byte_put_of_outside (by omega)]
    · rfl

@[simp] theorem put_nil : d.put off [] = d := by
  refine Device.ext rfl (funext fun i => byte_put_of_outside ?_) rfl rfl
  rw [List.length_nil]
  omega

/-- Bytes that are there already. -/
theorem put_of_bytes (h : d.bytes off bs.length = bs) : d.put off bs = d := by
  refine Device.ext rfl (funext fun i => ?_) rfl rfl
  change (if _ then _ else _) = _
  split_ifs with hi
  · obtain ⟨hlo,hhi,-⟩ := hi
    have hb : bs[i - off]? = some (d.byte i) := by
      rw [← h,getElem?_bytes,if_pos (by omega),Nat.add_sub_cancel' hlo]
    rw [List.getD_eq_getElem?_getD,hb]
    rfl
  · rfl

/-- Two writes end to end are one. -/
theorem put_put_append {o : Nat} {a b : Bytes} : (d.put o a).put (o + a.length) b = d.put o (a ++ b) := by
  refine Device.ext rfl (funext fun i => ?_) rfl rfl
  simp only [put,putSome,List.length_append,and_true]
  by_cases hb : o + a.length ≤ i ∧ i < o + a.length + b.length ∧ i < d.size
  · rw [if_pos hb,if_pos (by omega),List.getD_eq_getElem?_getD,List.getD_eq_getElem?_getD,
      List.getElem?_append_right (by omega)]
    congr 2
    omega
  · rw [if_neg hb]
    by_cases ha : o ≤ i ∧ i < o + a.length ∧ i < d.size
    · rw [if_pos ha,if_pos (by omega),List.getD_eq_getElem?_getD,List.getD_eq_getElem?_getD,
        List.getElem?_append_left (by omega)]
    · rw [if_neg ha,if_neg (by omega)]

section putAll
variable {parts : List (Nat × Bytes)}

@[simp] theorem putAll_nil : d.putAll [] = d := rfl
@[simp] theorem putAll_cons {p : Nat × Bytes} : d.putAll (p :: parts) = (d.put p.1 p.2).putAll parts := rfl

theorem putAll_append {a b : List (Nat × Bytes)} : d.putAll (a ++ b) = (d.putAll a).putAll b := List.foldl_append

@[simp] theorem size_putAll : (d.putAll parts).size = d.size := by
  induction parts generalizing d with
  | nil => rfl
  | cons p parts ih => exact ih.trans size_put

@[simp] theorem writable_putAll : (d.putAll parts).writable = d.writable := by
  induction parts generalizing d with
  | nil => rfl
  | cons p parts ih => exact ih.trans writable_put

@[simp] theorem growable_putAll : (d.putAll parts).growable = d.growable := by
  induction parts generalizing d with
  | nil => rfl
  | cons p parts ih => exact ih.trans growable_put

theorem byte_putAll_of_outside {i : Nat} (h : ∀ p ∈ parts, i < p.1 ∨ p.1 + p.2.length ≤ i) :
    (d.putAll parts).byte i = d.byte i := by
  induction parts generalizing d with
  | nil => rfl
  | cons p parts ih =>
    exact (ih fun q hq => h q (List.mem_cons_of_mem _ hq)).trans (byte_put_of_outside (h p List.mem_cons_self))

theorem bytes_putAll_of_disjoint {a n : Nat} (h : ∀ p ∈ parts, a + n ≤ p.1 ∨ p.1 + p.2.length ≤ a) :
    (d.putAll parts).bytes a n = d.bytes a n :=
  bytes_congr fun i hlo hhi => byte_putAll_of_outside fun p hp => (by have := h p hp; omega)

end putAll

@[simp] theorem resize_self : d.resize d.size = d := by
  refine Device.ext rfl (funext fun i => ?_) rfl rfl
  by_cases hi : i < d.size
  · exact if_pos hi
  · exact (if_neg hi).trans (d.blank i (by omega)).symm

/-- Growing moves the end and no byte. -/
theorem byte_resize_of_le {n : Nat} (h : d.size ≤ n) (i : Nat) : (d.resize n).byte i = d.byte i := by
  by_cases hi : i < n
  · exact if_pos hi
  · rw [d.blank i (by omega)]
    exact if_neg hi

theorem bytes_resize_of_le {n : Nat} (h : d.size ≤ n) : (d.resize n).bytes off len = d.bytes off len :=
  bytes_congr fun i _ _ => byte_resize_of_le h i

theorem readAt_of_le (h : off + len ≤ d.size) : d.readAt off len = .ok (d.bytes off len) := if_pos h

theorem readAt_eq_ok {b : Bytes} : d.readAt off len = .ok b ↔ off + len ≤ d.size ∧ b = d.bytes off len := by
  unfold readAt
  split_ifs with h <;> simp [h,eq_comm]

theorem writeAt_of_le (hw : d.writable) (h : off + bs.length ≤ d.size) : d.writeAt off bs = (.ok (),d.put off bs) := by
  simp [writeAt,hw,h]

/-- A write lands whole or changes nothing. -/
theorem writeAt_cases (d : Device) (off : Nat) (bs : Bytes) :
    (∃ e, d.writeAt off bs = (.error e,d)) ∨
    (d.writable = true ∧ off + bs.length ≤ d.size ∧ d.writeAt off bs = (.ok (),d.put off bs)) := by
  unfold writeAt
  split_ifs with hw h
  · exact .inr ⟨hw,h,rfl⟩
  · exact .inl ⟨_,rfl⟩
  · exact .inl ⟨_,rfl⟩

theorem setLen_cases (d : Device) (n : Nat) :
    (d.growable = false ∧ d.setLen n = (.error .readOnly,d)) ∨
    (d.growable = true ∧ d.setLen n = (.ok (),d.resize n)) := by
  unfold setLen
  cases hg : d.growable <;> simp

end Device

namespace DevProg
variable {α β : Type} {d d' : Device} {f : FsError → Error}

abbrev on (p : DevProg α) (d : Device) : Outcome Error α × Device := p.run Device.handle d

/-- The device as the first `n` calls of a program leave it. -/
abbrev cutOn (n : Nat) (p : DevProg α) (d : Device) : Device := p.cut Device.handle n d

@[simp] theorem on_devSize : devSize.on d = (.ok d.size,d) := rfl

theorem on_devRead {off len : Nat} (h : off + len ≤ d.size) : (devRead off len f).on d = (.ok (d.bytes off len),d) := by
  change (ofReply f (d.readAt off len)).run _ d = _
  rw [Device.readAt_of_le h]
  rfl

theorem on_devRead_eq_ok {off len : Nat} {b : Bytes} :
    (devRead off len f).on d = (.ok b,d') ↔ off + len ≤ d.size ∧ b = d.bytes off len ∧ d' = d := by
  change (ofReply f (d.readAt off len)).run _ d = _ ↔ _
  by_cases h : off + len ≤ d.size
  · rw [Device.readAt_of_le h]
    simp [ofReply,h,eq_comm]
  · simp [Device.readAt,h,ofReply]

theorem on_devWrite {off : Nat} {bs : Bytes} (hw : d.writable) (h : off + bs.length ≤ d.size) :
    (devWrite off bs f).on d = (.ok (),d.put off bs) := by
  change (ofReply f (d.writeAt off bs).1).run _ (d.writeAt off bs).2 = _
  rw [Device.writeAt_of_le hw h]
  rfl

theorem on_devWrite_eq_ok {off : Nat} {bs : Bytes} : (devWrite off bs f).on d = (.ok (),d') ↔
    d.writable = true ∧ off + bs.length ≤ d.size ∧ d' = d.put off bs := by
  change (ofReply f (d.writeAt off bs).1).run _ (d.writeAt off bs).2 = _ ↔ _
  rcases d.writeAt_cases off bs with ⟨e,h⟩ | ⟨hw,hb,h⟩
  · rw [h]
    simp only [ofReply,Prog.run_done,Prod.mk.injEq,reduceCtorEq,false_and,false_iff]
    rintro ⟨hw,hb,-⟩
    rw [Device.writeAt_of_le hw hb] at h
    cases h
  · rw [h]
    simp [ofReply,hw,hb,eq_comm]

@[simp] theorem on_devFlush : (devFlush f).on d = (.ok (),d) := rfl

end DevProg
end ImgVhdx
