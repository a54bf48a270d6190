import ImgVhdx.Lib.Bytes

/-! Fixed-width little-endian fields of a byte slice. Every read panics past the end. -/
namespace ImgVhdx
open Lib

variable {ε : Type}

def readLe (w : Nat) (b : Bytes) (off : Nat) : Outcome ε Nat := do
  let field ← index b off (off+w)
  return ofLE field

def readU16Le (b : Bytes) (off : Nat) : Outcome ε Nat := readLe 2 b off
def readU32Le (b : Bytes) (off : Nat) : Outcome ε Nat := readLe 4 b off
def readU64Le (b : Bytes) (off : Nat) : Outcome ε Nat := readLe 8 b off

/-- Sixteen bytes, as they stand on disk. -/
abbrev Guid := { bs : Bytes // bs.length = 16 }

@[simp] theorem Guid.length (g : Guid) : g.1.length = 16 := g.2

def Guid.zero : Guid := ⟨zeros 16,by simp⟩

def readGuid (b : Bytes) (off : Nat) : Outcome ε Guid :=
  if h : off + 16 ≤ b.length then .ok ⟨slice b off 16,length_slice h⟩ else .panic

/-- The GUID at `off`, zero where the bytes end before it. -/
def guidAt (b : Bytes) (off : Nat) :
    Guid := if h : off + 16 ≤ b.length then ⟨slice b off 16,length_slice h⟩ else Guid.zero

private theorem readLe_of_le {w off : Nat} {b : Bytes} (h : off + w ≤ b.length) :
    (readLe w b off : Outcome ε Nat) = .ok (ofLE (slice b off w)) := by
  rw [readLe,index_of_le (by omega) h,Nat.add_sub_cancel_left]
  rfl

theorem readU16Le_of_le {off : Nat} {b : Bytes} (h : off + 2 ≤ b.length) :
    (readU16Le b off : Outcome ε Nat) = .ok (ofLE (slice b off 2)) := readLe_of_le h
theorem readU32Le_of_le {off : Nat} {b : Bytes} (h : off + 4 ≤ b.length) :
    (readU32Le b off : Outcome ε Nat) = .ok (ofLE (slice b off 4)) := readLe_of_le h
theorem readU64Le_of_le {off : Nat} {b : Bytes} (h : off + 8 ≤ b.length) :
    (readU64Le b off : Outcome ε Nat) = .ok (ofLE (slice b off 8)) := readLe_of_le h

theorem readGuid_of_le {off : Nat} {b : Bytes} (h : off + 16 ≤ b.length) :
    (readGuid b off : Outcome ε Guid) = .ok ⟨slice b off 16,length_slice h⟩ := dif_pos h

theorem guidAt_of_le {off : Nat} {b : Bytes} (h : off + 16 ≤ b.length) :
    guidAt b off = ⟨slice b off 16,length_slice h⟩ :=
  dif_pos h

theorem guidAt_of_slice {off : Nat} {b : Bytes} {g : Guid} (h : slice b off 16 = g.1) : guidAt b off = g := by
  have hl : off + 16 ≤ b.length := by
    have := congrArg List.length h
    rw [g.2,slice,List.length_take,List.length_drop] at this
    omega
  rw [guidAt_of_le hl]
  exact Subtype.ext h

theorem ofLE_slice_lt (b : Bytes) (off w : Nat) : ofLE (slice b off w) < 256^w :=
  (ofLE_lt _).trans_le (Nat.pow_le_pow_right (by omega) (length_slice_le b off w))

@[simp] theorem ofLE_toLE_u64 (x : UInt64) : ofLE (toLE 8 x.toNat) = x.toNat := ofLE_toLE x.toNat_lt
@[simp] theorem ofLE_toLE_u32 (x : UInt32) : ofLE (toLE 4 x.toNat) = x.toNat := ofLE_toLE x.toNat_lt
@[simp] theorem ofLE_toLE_u16 (x : UInt16) : ofLE (toLE 2 x.toNat) = x.toNat := ofLE_toLE x.toNat_lt

end ImgVhdx
