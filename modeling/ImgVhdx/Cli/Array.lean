import ImgVhdx.Cli.Overlay
import ImgVhdx.Lib.Calls

/-! The overlay against what it stands for: a byte array that grows. Whatever is asked of either, in whatever order,
the answers are the same, and the file underneath is never written. -/
namespace ImgVhdx
open Lib

structure GrowArray where
  bytes : Bytes

namespace GrowArray
variable (a : GrowArray)

def size : Nat := a.bytes.length

def readAt (off len : Nat) : Except FsError Bytes :=
  if off + len ≤ a.size then .ok (slice a.bytes off len) else .error (.outOfBounds off len a.size)

def writeAt (off : Nat) (buf : Bytes) : Except FsError Unit × GrowArray :=
  if off + buf.length ≤ a.size then (.ok (),⟨splice a.bytes off buf⟩) else
    (.error (.outOfBounds off buf.length a.size),a)

def setLen (n : Nat) : Except FsError Unit × GrowArray :=
  if a.size ≤ n then (.ok (),⟨a.bytes ++ zeros (n - a.size)⟩)
  else (.error (.custom s!"the in-memory view of the image does not shrink ({a.size} to {n} bytes)"),a)

def handle : (op : DevOp) → GrowArray → op.Reply × GrowArray
  | .size, a => (a.size,a)
  | .read off len, a => (a.readAt off len,a)
  | .write off bs, a => a.writeAt off bs
  | .setLen n, a => a.setLen n
  | .flush, a => (.ok (),a)

end GrowArray

namespace DevOp

def Fits (len : Nat) : DevOp → Prop
  | .read off n => off + n ≤ len
  | .write off bs => off + bs.length ≤ len
  | .setLen n => len ≤ n
  | _ => True

def Succeeds : (op : DevOp) → op.Reply → Prop
  | .size, _ => True
  | .read _ _, r => ∃ b, r = .ok b
  | .write _ _, r => r = .ok ()
  | .setLen _, r => r = .ok ()
  | .flush, r => r = .ok ()

def InWords : DevOp → Prop
  | .setLen n => n < 2^64
  | _ => True

end DevOp

namespace GrowArray
variable {op : DevOp} {a : GrowArray}

/-- A call on the array goes well exactly inside it. -/
private theorem succeeds_iff : op.Succeeds (handle op a).1 ↔ op.Fits a.size := by
  cases op with
  | size => exact Iff.rfl
  | flush => exact ⟨fun _ => trivial,fun _ => rfl⟩
  | read off n =>
    change (∃ b, a.readAt off n = .ok b) ↔ off + n ≤ a.size
    unfold readAt
    split_ifs with h <;> simp [h]
  | write off bs =>
    change (a.writeAt off bs).1 = .ok () ↔ off + bs.length ≤ a.size
    unfold writeAt
    split_ifs with h <;> simp [h]
  | setLen n =>
    change (a.setLen n).1 = .ok () ↔ a.size ≤ n
    unfold setLen
    split_ifs with h <;> simp [h]

end GrowArray

section contents
variable {d : Device} {off n : Nat} {bs : Bytes}

private theorem Device.bytes_past (h : d.size ≤ off) : d.bytes off n = zeros n := by
  apply List.ext_getElem?
  intro i
  rw [Device.getElem?_bytes]
  split_ifs with hi
  · rw [getElem?_zeros hi,d.blank (off + i) (by omega)]
  · rw [List.getElem?_eq_none (by rw [length_zeros]; omega)]

/-- A write inside a device, as a write into the bytes it holds. -/
private theorem Device.contents_put (h : off + bs.length ≤ d.size) :
    (d.put off bs).bytes 0 d.size = splice (d.bytes 0 d.size) off bs := by
  have hput : (d.put (0 + off) bs).bytes 0 d.size = splice (d.bytes 0 d.size) off bs :=
    Device.bytes_put_within h (by omega)
  rwa [Nat.zero_add] at hput

private theorem Device.contents_resize (h : d.size ≤ n) :
    (d.resize n).bytes 0 n = d.bytes 0 d.size ++ zeros (n - d.size) := by
  rw [Device.bytes_resize_of_le h]
  conv_lhs => rw [← Nat.add_sub_cancel' h]
  rw [Device.bytes_add,Nat.zero_add,Device.bytes_past le_rfl]

end contents

namespace Overlay
variable {o : Overlay} {base : Device} {a : GrowArray} {op : DevOp}

def Holds (base : Device) (o : Overlay) (a : GrowArray) :
    Prop := o.base = base ∧ ∃ d, o.Shows d ∧ a.bytes = d.bytes 0 d.size

theorem Holds.len (h : o.Holds base a) : o.len = a.size := by
  obtain ⟨-,d,hd,ha⟩ := h
  rw [hd.len,GrowArray.size,ha,Device.length_bytes]

private theorem holds_new (h : base.size < 2^64) :
    (new base).Holds base ⟨base.bytes 0 base.size⟩ := ⟨rfl,_,shows_new h,rfl⟩

/-- One call, answered alike and keeping the two together. -/
theorem Holds.handle (h : o.Holds base a) (hop : op.InWords) :
    (handle op o).1 = (GrowArray.handle op a).1 ∧ (Overlay.handle op o).2.Holds base (GrowArray.handle op a).2 := by
  have hlen := h.len
  obtain ⟨hbase,d,hd,ha⟩ := h
  have hsize : a.size = d.size := by rw [← hlen,hd.len]
  cases op with
  | size => exact ⟨hlen,hbase,d,hd,ha⟩
  | flush => exact ⟨rfl,hbase,d,hd,ha⟩
  | read off n =>
    refine ⟨?_,hbase,d,hd,ha⟩
    change o.readAt off n = a.readAt off n
    rw [hd.readAt,Device.readAt,GrowArray.readAt,hsize,ha]
    split_ifs with hin
    · rw [Device.slice_bytes hin,Nat.zero_add]
    · rfl
  | write off bs =>
    change (o.writeAt off bs).1 = (a.writeAt off bs).1 ∧ (o.writeAt off bs).2.Holds base (a.writeAt off bs).2
    unfold GrowArray.writeAt
    rw [hsize]
    split_ifs with hin
    · obtain ⟨o',hrun,hkeep,hshows⟩ := hd.writeAt_of_le hin
      rw [hrun]
      refine ⟨rfl,hkeep.trans hbase,d.put off bs,hshows.mark true,?_⟩
      change splice a.bytes off bs = (d.put off bs).bytes 0 d.size
      rw [Device.contents_put hin,ha]
    · rw [(hd.writeAt_of_gt hin).1]
      exact ⟨rfl,hbase,d,hd,ha⟩
  | setLen n =>
    change (o.setLen n).1 = (a.setLen n).1 ∧ (o.setLen n).2.Holds base (a.setLen n).2
    unfold GrowArray.setLen
    rw [hsize]
    split_ifs with hle
    · obtain ⟨hset,hshows⟩ := hd.setLen hle hop
      rw [hset]
      refine ⟨rfl,hbase,d.resize n,hshows,?_⟩
      change a.bytes ++ zeros (n - d.size) = (d.resize n).bytes 0 n
      rw [Device.contents_resize hle,ha]
    · have hrefused : o.setLen n = (.error
        (.custom s!"the in-memory view of the image does not shrink ({o.len} to {n} bytes)"),o) :=
        if_pos (by rw [hd.len]; omega)
      rw [hrefused,hd.len]
      exact ⟨rfl,hbase,d,hd,ha⟩

/-- A refused call changes nothing. -/
private theorem Holds.handle_of_not_fits (h : o.Holds base a) (hop : ¬ op.Fits a.size) :
    (Overlay.handle op o).2 = o := by
  rw [← h.len] at hop
  obtain ⟨-,d,hd,-⟩ := h
  cases op with
  | size => rfl
  | flush => rfl
  | read off n => rfl
  | write off bs =>
    rw [hd.len] at hop
    exact congrArg Prod.snd (hd.writeAt_of_gt hop).1
  | setLen n => exact congrArg Prod.snd (if_pos (Nat.lt_of_not_le hop))

/-- Over a file of any length and after any calls, the overlay is the array those calls have made of the file: a call
is answered as the array answers it, goes well exactly where it fits, and leaves everything as it was where it does not. -/
theorem refines_array {base : Device} (hbase : base.size < 2^64) (ops : List DevOp) (hops : ∀ op ∈ ops, op.InWords) :
    let o := Prog.after Overlay.handle ops (new base)
    let a := Prog.after GrowArray.handle ops ⟨base.bytes 0 base.size⟩
    o.base = base ∧ o.len = a.size ∧ ∀ op : DevOp, op.InWords → (Overlay.handle op o).1 = (GrowArray.handle op a).1 ∧
      (op.Succeeds (Overlay.handle op o).1 ↔ op.Fits a.size) ∧ (¬ op.Fits a.size → (Overlay.handle op o).2 = o) := by
  intro o a
  have hrun : o.Holds base a := Prog.after_related (fun _ _ _ hop h => (h.handle hop).2) hops (holds_new hbase)
  refine ⟨hrun.1,hrun.len,fun op hop => ?_⟩
  obtain ⟨hreply,-⟩ := hrun.handle hop
  refine ⟨hreply,?_,hrun.handle_of_not_fits⟩
  rw [hreply]
  exact GrowArray.succeeds_iff

def oddFile : Device where
  size := 5000
  byte i := if i < 5000 then 7 else 0
  blank _ hi := if_neg (Nat.not_lt.mpr hi)
  writable := false
  growable := false

/-- A write over two pages of it and growth past its end. -/
theorem refines_array_oddFile :
    let ops := [DevOp.write 4095 [1,2],.setLen 6000]
    let o := Prog.after Overlay.handle ops (new oddFile)
    let a := Prog.after GrowArray.handle ops ⟨oddFile.bytes 0 5000⟩
    o.base = oddFile ∧ o.len = a.size ∧ (Overlay.handle (.read 4090 1910) o).1 =
      (GrowArray.handle (.read 4090 1910) a).1 := by
  intro ops o a
  have hops : ∀ op ∈ ops, op.InWords := by
    intro op hop
    rcases List.mem_pair.mp hop with rfl | rfl
    · trivial
    · change 6000 < 2^64
      decide
  have hsize : oddFile.size < 2^64 := show 5000 < 2^64 by decide
  obtain ⟨hbase,hlen,hcalls⟩ := refines_array hsize ops hops
  exact ⟨hbase,hlen,(hcalls (.read 4090 1910) trivial).1⟩

end Overlay
end ImgVhdx
