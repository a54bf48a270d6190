import ImgVhdx.Reader.Chunks
import ImgVhdx.Reader.Layout

/-! The layout writes rely on, and the virtual disk that a reader over it stands for. -/
namespace ImgVhdx
open Lib

structure Layout where
  log : Span
  metadata : Span
  bat : Span

def Layout.parts (l : Layout) : List Span := [headerSection,l.log,l.metadata,l.bat]

def Layout.Clear (l : Layout) (s : Span) : Prop := ∀ part ∈ l.parts, s.Apart part

def blockSpan (r : VhdxReader) (off : Nat) : Span := ⟨off,r.blockSize⟩

/-- The blocks that are there lie inside the file, clear of its other parts and of each other. -/
structure SoundBat (r : VhdxReader) (l : Layout) (size : Nat) (bat : List BatEntry) : Prop where
  inside : ∀ e ∈ bat, e.state.blockOnDisk = true → e.fileOffset + r.blockSize ≤ size
  clear : ∀ e ∈ bat, e.state.blockOnDisk = true → l.Clear (blockSpan r e.fileOffset)
  apart : ∀ (i j : Nat) (e f : BatEntry), bat[i]? = some e → bat[j]? = some f → i ≠ j → e.state.blockOnDisk = true →
    f.state.blockOnDisk = true →
    (blockSpan r e.fileOffset).Apart (blockSpan r f.fileOffset)

section sound
variable {r : VhdxReader} {l : Layout} {bat : List BatEntry} {m n i off : Nat}

theorem SoundBat.mono (h : SoundBat r l m bat) (hmn : m ≤ n) : SoundBat r l n bat :=
  { h with inside := fun e he hd => (h.inside e he hd).trans hmn }

/-- One more block inside the file, clear of its other parts and of the rest. -/
theorem SoundBat.set (h : SoundBat r l n bat) (hin : off + r.blockSize ≤ n) (hclear : l.Clear (blockSpan r off))
    (hapart : ∀ e ∈ bat, e.state.blockOnDisk = true → (blockSpan r e.fileOffset).Apart (blockSpan r off)) :
    SoundBat r l n (bat.set i ⟨.fullyPresent,off⟩) where
  inside e he hd := by
    rcases List.mem_or_eq_of_mem_set he with he | rfl
    · exact h.inside e he hd
    · exact hin
  clear e he hd := by
    rcases List.mem_or_eq_of_mem_set he with he | rfl
    · exact h.clear e he hd
    · exact hclear
  apart a b e f ha hb hne hd hd' := by
    rcases eq_or_ne i a with rfl | hia
    · rw [List.getElem?_set_ne hne] at hb
      obtain ⟨hlt,rfl⟩ := List.getElem?_eq_some_iff.mp ha
      rw [List.getElem_set_self]
      exact (hapart f (List.mem_of_getElem? hb) hd').symm
    · rw [List.getElem?_set_ne hia] at ha
      rcases eq_or_ne i b with rfl | hib
      · obtain ⟨hlt,rfl⟩ := List.getElem?_eq_some_iff.mp hb
        rw [List.getElem_set_self]
        exact hapart e (List.mem_of_getElem? ha) hd
      · rw [List.getElem?_set_ne hib] at hb
        exact h.apart a b e f ha hb hne hd hd'

end sound

namespace World

def blockByte (w : World) (i k : Nat) : UInt8 :=
  match w.bat[i]? with
  | some e => if e.state = .fullyPresent then w.dev.byte (e.fileOffset + k) else 0
  | none => 0

def disk (r : VhdxReader) (w : World) (v : Nat) : UInt8 := w.blockByte (batIdxOf r v) (v % r.blockSize)

def Absent (w : World) (i : Nat) : Prop := ∃ e, w.bat[i]? = some e ∧ e.state.zeroFill = true

def Present (w : World) (i off : Nat) : Prop := w.bat[i]? = some ⟨.fullyPresent,off⟩

theorem Present.blockByte {w : World} {i off : Nat} (h : w.Present i off) (k : Nat) :
    w.blockByte i k = w.dev.byte (off + k) := by
  rw [World.blockByte,h]
  rfl

theorem Absent.blockByte {w : World} {i : Nat} (h : w.Absent i) (k : Nat) : w.blockByte i k = 0 := by
  obtain ⟨e,he,hz⟩ := h
  rw [World.blockByte,he]
  refine if_neg fun hf => ?_
  rw [hf] at hz
  cases hz

theorem Absent.not_present {w : World} {i off : Nat} (ha : w.Absent i) : ¬ w.Present i off := by
  intro hp
  obtain ⟨e,he,hz⟩ := ha
  obtain rfl := Option.some.inj (he.symm.trans hp)
  cases hz

end World

theorem PayloadState.not_zeroFill_of_blockOnDisk {s : PayloadState} (h : s.blockOnDisk = true) :
    s.zeroFill = false := by
  cases s <;> simp_all [PayloadState.blockOnDisk,PayloadState.zeroFill]

section arithmetic
variable {r : VhdxReader} {n off : Nat}

/-- The tail is the size rounded up to a whole block. -/
theorem tailOffset_spec (h : n + (r.blockSize - 1) < 2^64) :
    n ≤ tailOffset r n ∧ r.blockSize ∣ tailOffset r n ∧ (0 < n → r.blockSize ≤ tailOffset r n) := by
  obtain ⟨k,hlo,hhi,hk⟩ := r.blockSize_eq
  have hb := r.blockSize_pos
  have he : tailOffset r n = (n + (r.blockSize - 1)) / r.blockSize * r.blockSize := by
    rw [tailOffset,hk,clearLow_pow (by rwa [hk] at h) (by omega)]
  have hd := Nat.div_add_mod (n + (r.blockSize - 1)) r.blockSize
  have hm := Nat.mod_lt (n + (r.blockSize - 1)) hb
  rw [Nat.mul_comm] at hd
  refine ⟨by omega,he ▸ Nat.dvd_mul_left _ _,fun hn => ?_⟩
  have : 1 ≤ (n + (r.blockSize - 1)) / r.blockSize := (Nat.one_le_div_iff hb).mpr (by omega)
  rw [he]
  exact Nat.le_mul_of_pos_left _ (by omega)

private theorem presentRaw_eq (h : oneMib ∣ off) (hlt : off < 2^64) : presentRaw off = off + 6 := by
  obtain ⟨k,hk⟩ : 2^20 ∣ off := h
  have hc : clearLow off (2^20) = k <<< 20 := by
    rw [clearLow_pow hlt (by omega),hk,Nat.mul_div_cancel_left _ (by decide),Nat.shiftLeft_eq]
  rw [presentRaw,hc,← Nat.shiftLeft_add_eq_or_of_lt (by decide),Nat.shiftLeft_eq,hk,Nat.mul_comm]

/-- The entry written for a fresh block says what it should. -/
theorem fromU64_presentRaw (h : oneMib ∣ off) (hlt : off < 2^64) :
    BatEntry.fromU64 (presentRaw off) = ⟨.fullyPresent,off⟩ := by
  have hraw := presentRaw_eq h hlt
  obtain ⟨k,hk⟩ : 2^20 ∣ off := h
  have hs : (BatEntry.fromU64 (presentRaw off)).state = .fullyPresent := by
    rw [BatEntry.state_fromU64,hraw,PayloadState.fromU8_eq_fullyPresent]
    omega
  have ho : (BatEntry.fromU64 (presentRaw off)).fileOffset = off := by
    rw [BatEntry.fileOffset_fromU64,hraw]
    omega
  have he : BatEntry.fromU64 (presentRaw off) =
    ⟨(BatEntry.fromU64 (presentRaw off)).state,(BatEntry.fromU64 (presentRaw off)).fileOffset⟩ := rfl
  rw [he,hs,ho]

theorem presentRaw_lt (h : oneMib ∣ off) (hlt : off < 2^64) : presentRaw off < 256^8 := by
  have hraw := presentRaw_eq h hlt
  obtain ⟨k,hk⟩ : 2^20 ∣ off := h
  omega

theorem sectorOffset_spec {i : Nat} (h : entryOffset r i < 2^64) :
    sectorOffset r i ≤ entryOffset r i ∧ entryOffset r i < sectorOffset r i + 4096 ∧ 4096 ∣ sectorOffset r i := by
  have he : sectorOffset r i = entryOffset r i / 4096 * 4096 := clearLow_pow (k := 12) h (by omega)
  rw [he]
  exact ⟨by omega,by omega,Nat.dvd_mul_left _ _⟩

end arithmetic
end ImgVhdx
