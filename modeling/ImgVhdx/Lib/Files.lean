import ImgVhdx.Lib.Bytes

/-! A file written front to back from a position of its own, with runs of zeros passed over: the bytes between its end
and a later write, or a later length, read as zeros. -/
namespace ImgVhdx.Lib

structure OpenFile where
  bytes : Bytes
  pos : Nat

namespace OpenFile

def empty : OpenFile := ⟨[],0⟩

variable (f : OpenFile)

def reaching (n : Nat) : Bytes := f.bytes ++ zeros (n - f.bytes.length)

def write (bs : Bytes) : OpenFile :=
  if bs = [] then f else ⟨splice (f.reaching (f.pos + bs.length)) f.pos bs,f.pos + bs.length⟩

def skip (n : Nat) : OpenFile := { f with pos := f.pos + n }

def setLen (n : Nat) : OpenFile := { f with bytes := (f.reaching n).take n }

structure Stands (done : Bytes) : Prop where
  le : f.bytes.length ≤ f.pos
  eq : f.reaching f.pos = done

variable {f} {done : Bytes}

theorem stands_empty : empty.Stands [] := ⟨le_rfl,List.nil_append _ |>.trans zeros_zero⟩

theorem Stands.pos (h : f.Stands done) : f.pos = done.length := by
  rw [← h.eq,reaching,List.length_append,length_zeros,Nat.add_sub_cancel' h.le]

private theorem Stands.reaching_add (h : f.Stands done) (n : Nat) : f.reaching (f.pos + n) = done ++ zeros n := by
  rw [reaching,Nat.sub_add_comm h.le,zeros_add,← List.append_assoc]
  exact congrArg (· ++ zeros n) h.eq

theorem Stands.skip (h : f.Stands done) (n : Nat) : (f.skip n).Stands (done ++ zeros n) :=
  ⟨h.le.trans (Nat.le_add_right f.pos n),h.reaching_add n⟩

theorem Stands.write (h : f.Stands done) (bs : Bytes) : (f.write bs).Stands (done ++ bs) := by
  unfold OpenFile.write
  split_ifs with hbs
  · rwa [hbs,List.append_nil]
  have hmid := splice_middle (a := done) (b := zeros bs.length) (c := []) h.pos (length_zeros bs.length).symm
  rw [List.append_nil,List.append_nil] at hmid
  rw [h.reaching_add,hmid,h.pos]
  refine ⟨by rw [List.length_append],?_⟩
  change done ++ bs ++ zeros (done.length + bs.length - (done ++ bs).length) = done ++ bs
  rw [List.length_append,Nat.sub_self,zeros_zero,List.append_nil]

/-- The length set at the end makes the file what stands. -/
theorem Stands.setLen (h : f.Stands done) : (f.setLen done.length).bytes = done := by
  change (f.reaching done.length).take done.length = done
  rw [← h.pos,h.eq,h.pos,List.take_length]

end OpenFile
end ImgVhdx.Lib
