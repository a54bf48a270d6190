import ImgVhdx.Lib.Xor
import ImgVhdx.Reader.Journal

/-! The GUIDs a rotation stirs the sequence number into: where a run of rotations takes them,
and when it takes one back to where it was. -/
namespace ImgVhdx
open Lib

def Guid.low (g : Guid) : Bytes := g.1.take 8

def Guid.high (g : Guid) : Nat := ofLE (g.1.drop 8)

section
variable {g g' : Guid} {s : UInt64}

@[simp] theorem Guid.length_low : g.low.length = 8 := by simp [Guid.low]

theorem Guid.ext_iff_halves : g = g' ↔ g.low = g'.low ∧ g.high = g'.high := by
  refine ⟨fun h => by rw [h]; exact ⟨rfl,rfl⟩,fun ⟨hl,hh⟩ => Subtype.ext ?_⟩
  have hd : g.1.drop 8 = g'.1.drop 8 := by
    have h1 := toLE_ofLE (g.1.drop 8)
    have h2 := toLE_ofLE (g'.1.drop 8)
    rw [← h1,← h2,List.length_drop,List.length_drop,g.2,g'.2]
    exact congrArg _ hh
  calc
    g.1 = g.low ++ g.1.drop 8 := (List.take_append_drop 8 g.1).symm
    _ = g'.low ++ g'.1.drop 8 := by rw [hl,hd]
    _ = g'.1 := List.take_append_drop 8 g'.1

theorem all_zero_iff {b : Bytes} {n : Nat} (h : b.length = n) : b.all (· == 0) = true ↔ b = zeros n := by
  rw [zeros,List.eq_replicate_iff]
  simp [h]

theorem ofLE_eq_zero {b : Bytes} {n : Nat} (h : b.length = n) : ofLE b = 0 ↔ b = zeros n := by
  refine ⟨fun h0 => ?_,fun hb => by rw [hb,ofLE_zeros]⟩
  rw [← toLE_ofLE b,← toLE_ofLE (zeros n),ofLE_zeros,h0,h,length_zeros]

/-- The two halves of a stirred GUID. -/
theorem stirSequenceIntoGuid_halves (g : Guid) (s : UInt64) :
    (stirSequenceIntoGuid g s).high = g.high ^^^ s.toNat ∧
    (stirSequenceIntoGuid g s).low = if g.low = zeros 8 ∧ g.high = s.toNat then 1 :: zeros 7 else g.low := by
  have hx : ofLE (List.zipWith (· ^^^ ·) (g.1.drop 8) (toLE 8 s.toNat)) = _ := ofLE_zipWith_xor (by simp)
  rw [ofLE_toLE_u64] at hx
  have hlow : (g.1.take 8).length = 8 := g.length_low
  have hlen : (List.zipWith (· ^^^ ·) (g.1.drop 8) (toLE 8 s.toNat)).length = 8 := by simp
  have hraw : (stirSequenceIntoGuid g s).1 =
      if (g.1.take 8 ++ List.zipWith (· ^^^ ·) (g.1.drop 8) (toLE 8 s.toNat)).all (· == 0) then
        splice (g.1.take 8 ++ List.zipWith (· ^^^ ·) (g.1.drop 8) (toLE 8 s.toNat)) 0 [1]
      else g.1.take 8 ++ List.zipWith (· ^^^ ·) (g.1.drop 8) (toLE 8 s.toNat) := by
    unfold stirSequenceIntoGuid
    dsimp only
    split_ifs <;> rfl
  unfold Guid.high Guid.low
  rw [hraw]
  generalize List.zipWith (· ^^^ ·) (g.1.drop 8) (toLE 8 s.toNat) = z at *
  have hall : (g.1.take 8 ++ z).all (· == 0) = true ↔ g.1.take 8 = zeros 8 ∧ ofLE (g.1.drop 8) = s.toNat := by
    rw [List.all_append,Bool.and_eq_true,all_zero_iff hlow,all_zero_iff hlen,← ofLE_eq_zero hlen,hx,Nat.xor_eq_zero_iff]
  split_ifs with h1 h2 h2
  · have hs : splice (g.1.take 8 ++ z) 0 [1] = (1 :: zeros 7) ++ z := by
      rw [h2.1]
      simp [splice,zeros,List.replicate_succ]
    rw [hs,List.drop_left' (by simp),List.take_left' (by simp)]
    exact ⟨hx,rfl⟩
  · exact absurd (hall.mp h1) h2
  · exact absurd (hall.mpr ‹_›) h1
  · rw [List.drop_left' hlow,List.take_left' hlow]
    exact ⟨hx,rfl⟩

end

/-- A GUID of the header that every rotation stirs the new sequence number into. -/
def Stirred (f : Header → Guid) : Prop := ∀ h, f (rotatedHeader h) = stirSequenceIntoGuid (f h) (h.sequenceNumber + 1)

section rotations
variable {f : Header → Guid} {h : Header} {n : Nat}

theorem sequenceNumber_rotated (hn : h.sequenceNumber.toNat + n < 2^64) :
    (rotatedHeader^[n] h).sequenceNumber.toNat = h.sequenceNumber.toNat + n := by
  induction n with
  | zero => rfl
  | succ n ih =>
    have hi := ih (by omega)
    rw [Function.iterate_succ_apply']
    exact (toNat_succ_seq (by rw [hi]; omega)).trans (by rw [hi,Nat.add_assoc])

/-- The half that is stirred takes up the XOR of the whole run. -/
private theorem high_rotated (hf : Stirred f) (hn : h.sequenceNumber.toNat + n < 2^64) :
    (f (rotatedHeader^[n] h)).high = (f h).high ^^^ seqXor h.sequenceNumber.toNat n := by
  induction n with
  | zero => exact (Nat.xor_zero _).symm
  | succ n ih =>
    have hi := sequenceNumber_rotated (h := h) (n := n) (by omega)
    rw [Function.iterate_succ_apply',hf,(stirSequenceIntoGuid_halves _ _).1,ih (by omega),
      toNat_succ_seq (by rw [hi]; omega),hi,
      Nat.xor_assoc]
    rfl

def MeetsZero (g : Guid) (s n : Nat) : Prop := g.low = zeros 8 ∧ ∃ k < n, seqXor s (k+1) = g.high

instance (g : Guid) (s n : Nat) : Decidable (MeetsZero g s n) := inferInstanceAs (Decidable (_ ∧ _))

private theorem one_zeros_ne : (1 :: zeros 7 : Bytes) ≠ zeros 8 := by simp [zeros,List.replicate_succ]

/-- The other half moves once, and only then. -/
private theorem low_rotated (hf : Stirred f) (hn : h.sequenceNumber.toNat + n < 2^64) :
    (f (rotatedHeader^[n] h)).low = if MeetsZero (f h) h.sequenceNumber.toNat n then 1 :: zeros 7 else (f h).low := by
  induction n with
  | zero => exact (if_neg fun ⟨_,k,hk,_⟩ => by omega).symm
  | succ n ih =>
    have hi := sequenceNumber_rotated (h := h) (n := n) (by omega)
    have hhigh := high_rotated hf (h := h) (n := n) (by omega)
    rw [Function.iterate_succ_apply',hf,(stirSequenceIntoGuid_halves _ _).2,ih (by omega),hhigh,
      toNat_succ_seq (by rw [hi]; omega),hi]
    have hx : (f h).high ^^^ seqXor h.sequenceNumber.toNat n = h.sequenceNumber.toNat + n + 1 ↔
        seqXor h.sequenceNumber.toNat (n+1) = (f h).high := by
      rw [seqXor,← Nat.add_assoc]
      constructor
      · intro hc
        rw [← hc,Nat.xor_comm (f h).high,← Nat.xor_assoc,Nat.xor_self,Nat.zero_xor]
      · intro hc
        rw [← hc,Nat.xor_comm (seqXor _ _),Nat.xor_assoc,Nat.xor_self,Nat.xor_zero]
    -- zero is met at this step, or was met before it
    have hsucc : MeetsZero (f h) h.sequenceNumber.toNat (n+1) ↔ MeetsZero (f h) h.sequenceNumber.toNat n ∨
        (f h).low = zeros 8 ∧ seqXor h.sequenceNumber.toNat (n+1) = (f h).high := by
      unfold MeetsZero
      rw [← and_or_left,Nat.exists_lt_succ_right]
    simp only [hx]
    by_cases hm : MeetsZero (f h) h.sequenceNumber.toNat n
    · rw [if_pos hm,if_pos (hsucc.mpr (.inl hm)),if_neg fun hc => one_zeros_ne hc.1]
    · rw [if_neg hm]
      exact if_congr (hsucc.trans (or_iff_right hm)).symm rfl rfl

def ComesBack (g : Guid) (s n : Nat) : Prop := (s % 2 = 1 ∧ n % 4 = 0 ∨ s = 0 ∧ n % 4 = 3) ∧ ¬ MeetsZero g s n

instance (g : Guid) (s n : Nat) : Decidable (ComesBack g s n) := inferInstanceAs (Decidable (_ ∧ _))

theorem rotated_eq_iff (hf : Stirred f) (h0 : 0 < n) (hn : h.sequenceNumber.toNat + n < 2^64) :
    f (rotatedHeader^[n] h) = f h ↔ ComesBack (f h) h.sequenceNumber.toNat n := by
  rw [Guid.ext_iff_halves,low_rotated hf hn,high_rotated hf hn,ComesBack,← seqXor_eq_zero h0]
  have hxor : (f h).high ^^^ seqXor h.sequenceNumber.toNat n = (f h).high ↔ seqXor h.sequenceNumber.toNat n = 0 := by
    constructor
    · intro hc
      have := congrArg ((f h).high ^^^ ·) hc
      rwa [← Nat.xor_assoc,Nat.xor_self,Nat.zero_xor] at this
    · intro hc
      rw [hc,Nat.xor_zero]
  rw [hxor]
  by_cases hm : MeetsZero (f h) h.sequenceNumber.toNat n
  · rw [if_pos hm]
    exact ⟨fun ⟨hl,_⟩ => absurd (hl.trans hm.1) one_zeros_ne,fun ⟨_,hc⟩ => absurd hm hc⟩
  · rw [if_neg hm]
    exact ⟨fun ⟨_,hc⟩ => ⟨hc,hm⟩,fun ⟨hc,_⟩ => ⟨rfl,hc⟩⟩

private theorem rotated_ne_zero (hf : Stirred f) (h0 : 0 < n) : isZeroGuid (f (rotatedHeader^[n] h)) = false := by
  obtain ⟨k,rfl⟩ := Nat.exists_eq_add_of_le' h0
  rw [Function.iterate_succ_apply',hf]
  exact stirSequenceIntoGuid_ne_zero _ _

end rotations

/-- What is the same before and after a step that is not a rotation. -/
def SameHeader (a b : World) : Prop := b.header = a.header

def writeGuids : List (Header → Guid) := [Header.fileWriteGuid,Header.dataWriteGuid,Header.logGuid]

private theorem stirred_of_mem {f : Header → Guid} (hf : f ∈ writeGuids) : Stirred f := by
  simp only [writeGuids,List.mem_cons,List.not_mem_nil,or_false] at hf
  rcases hf with rfl | rfl | rfl <;> exact fun _ => rfl

/-- After any run of journalled writes that does not wrap the sequence number, the GUIDs are new and
none is zero just when the run does not bring one back. -/
theorem write_guids_new_iff [Crc32c] {w w' : World} {n : Nat} (h : Journals SameHeader w n w') (h0 : 0 < n)
    (hn : w.header.sequenceNumber.toNat + n < 2^64) :
    (∀ f ∈ writeGuids, f w'.header ≠ f w.header ∧ isZeroGuid (f w'.header) = false) ↔
      ∀ f ∈ writeGuids, ¬ ComesBack (f w.header) w.header.sequenceNumber.toNat n := by
  rw [h.header fun _ _ hb => hb]
  refine forall₂_congr fun f hf => ?_
  rw [ne_eq,rotated_eq_iff (stirred_of_mem hf) h0 hn]
  exact and_iff_left (rotated_ne_zero (stirred_of_mem hf) h0)

/-- Six writes from a first sequence number of five. -/
theorem write_guids_new_oneLogged :
    letI := castagnoli
    ∃ w', Journals SameHeader ((oneLoggedState 5).start (oneLogged 5).device) 6 w' ∧
      ∀ f ∈ writeGuids, f w'.header ≠ f (oneLogged 5).header ∧ isZeroGuid (f w'.header) = false := by
  let := castagnoli
  obtain ⟨w',h⟩ := oneLogged_journals SameHeader 5 6
  refine ⟨w',h,(write_guids_new_iff h (by decide) (by decide)).mpr fun f _ hc => ?_⟩
  exact absurd hc.1 (show ¬ (5 % 2 = 1 ∧ 6 % 4 = 0 ∨ 5 = 0 ∧ 6 % 4 = 3) by decide)

/-- An image with the sequence number zero opens, three journalled writes take it to three, and the GUIDs
by which a reader tells that the file has changed are the ones it opened with. -/
theorem write_guids_come_back :
    letI := castagnoli
    OpensAs (oneLogged 0).device (oneLogged 0).reader (oneLoggedState 0) (oneLogged 0).device (oneLoggedLayout 0) ∧
    ∃ w', Journals SameHeader ((oneLoggedState 0).start (oneLogged 0).device) 3 w' ∧
      w'.header.sequenceNumber = 3 ∧
      w'.header.fileWriteGuid = (oneLogged 0).header.fileWriteGuid ∧
      w'.header.dataWriteGuid = (oneLogged 0).header.dataWriteGuid := by
  let := castagnoli
  obtain ⟨w',h⟩ := oneLogged_journals SameHeader 0 3
  refine ⟨oneLogged_opensAs 0,w',h,?_⟩
  rw [h.header fun _ _ hb => hb]
  have hback : ∀ g : Guid, g.1 = 1 :: zeros 15 → ComesBack g 0 3 := by
    intro g hg
    refine ⟨.inr ⟨rfl,rfl⟩,fun hc => ?_⟩
    have hl := hc.1
    rw [Guid.low,hg] at hl
    simp [zeros,List.replicate_succ] at hl
  exact ⟨rfl,(rotated_eq_iff (f := Header.fileWriteGuid) (fun _ => rfl) (by decide) (by decide)).mpr (hback _ rfl),
    (rotated_eq_iff (f := Header.dataWriteGuid) (fun _ => rfl) (by decide) (by decide)).mpr (hback _ rfl)⟩

end ImgVhdx
