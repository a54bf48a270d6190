import ImgVhdx.Lib.Calls
import ImgVhdx.Reader.Start

/-! Which BAT entry a virtual byte has, with every step taken as the machine takes it: the sums and
products fit 64 bits, and the entries that open loads are the ones transfers ask for. -/
namespace ImgVhdx
open Lib ReaderProg

namespace Checked

def chunkRatio (blockSize sectorSize : Nat) : Outcome Error Nat := do
  let product ← Outcome.u64 (2^23 * sectorSize)
  Outcome.div product blockSize

def dataBatIndex (virtBlockIdx chunkRatio : Nat) : Outcome Error Nat := do
  let chunkIdx ← Outcome.div virtBlockIdx chunkRatio
  let blockInChunk ← Outcome.rem virtBlockIdx chunkRatio
  let stride ← Outcome.u64 (chunkRatio + 1)
  let first ← Outcome.u64 (chunkIdx * stride)
  Outcome.u64 (first + blockInChunk)

def divCeil (a b : Nat) : Outcome Error Nat := do
  let d ← Outcome.div a b
  let r ← Outcome.rem a b
  if r > 0 then Outcome.u64 (d + 1) else return d

def batRegionCoversTheDisk (regionLen virtualSize blockSize chunkRatio : Nat) : Outcome Error Nat := do
  Outcome.rejectIf (regionLen % batEntrySize ≠ 0)
    (.corrupt "the BAT region's length is not a whole number of 8-byte entries")
  if virtualSize = 0 then return 0
  let blocks ← divCeil virtualSize blockSize
  let lastBlock ← Outcome.sub blocks 1
  let highestIndex ← dataBatIndex lastBlock chunkRatio
  let requiredEntries ← Outcome.okOr (.corrupt "the disk needs more BAT entries than a u64 counts")
    (checkedAdd highestIndex 1)
  Outcome.rejectIf (regionLen / batEntrySize < requiredEntries)
    (.corrupt "the BAT region is too short for the disk it describes")
  return requiredEntries

end Checked

section index
variable {ratio b c : Nat}

private theorem dataBatIndex_lt (hr : 0 < ratio) (h : b < c) : dataBatIndex b ratio < dataBatIndex c ratio :=
  Nat.lt_of_le_of_ne (dataBatIndex_mono hr h.le) fun he => absurd (dataBatIndex_inj he) h.ne

/-- No payload entry lies in the slot of a sector bitmap. -/
private theorem dataBatIndex_mod (hr : 0 < ratio) (b : Nat) : dataBatIndex b ratio % (ratio + 1) = b % ratio := by
  have hlt := Nat.mod_lt b hr
  simp only [dataBatIndex]
  rw [Nat.mul_comm,Nat.mul_add_mod,Nat.mod_eq_of_lt (by omega)]

private theorem checked_dataBatIndex (hr : 0 < ratio) (hratio : ratio < 2^16) (hb : b < 2^44) :
    Checked.dataBatIndex b ratio = .ok (dataBatIndex b ratio) := by
  have hle : b / ratio ≤ b := Nat.div_le_self b ratio
  have hidx : dataBatIndex b ratio = b + b / ratio := dataBatIndex_eq b
  have hfirst : b / ratio * (ratio + 1) ≤ dataBatIndex b ratio := Nat.le_add_right _ _
  unfold Checked.dataBatIndex
  rw [Outcome.div_of_pos hr,Outcome.rem_of_pos hr]
  simp only [Outcome.ok_bind]
  rw [Outcome.u64_of_lt (by omega)]
  simp only [Outcome.ok_bind]
  rw [Outcome.u64_of_lt (by omega)]
  exact Outcome.u64_of_lt (show dataBatIndex b ratio < 2^64 by omega)

private theorem checked_divCeil {a : Nat} (h2 : 2 ≤ b) (ha : a < 2^64) :
    Checked.divCeil a b = .ok ((a + b - 1) / b) := by
  have hb : 0 < b := by omega
  have hle : a / b ≤ a / 2 := Nat.div_le_div_left h2 (by decide)
  have hd := Nat.div_add_mod a b
  have hm := Nat.mod_lt a hb
  unfold Checked.divCeil
  rw [Outcome.div_of_pos hb,Outcome.rem_of_pos hb]
  simp only [Outcome.ok_bind]
  have hup : (a + b - 1) / b = if a % b > 0 then a / b + 1 else a / b := by
    have hlast := Nat.div_eq_of_lt (show b - 1 < b by omega)
    generalize hq : a / b = q at *
    generalize hr : a % b = m at *
    split_ifs with h
    · have hsum : a + b - 1 = b * (q + 1) + (m - 1) := by
        rw [Nat.mul_add,Nat.mul_one]
        omega
      rw [hsum,Nat.mul_add_div hb,Nat.div_eq_of_lt (by omega),Nat.add_zero]
    · rw [show a + b - 1 = b * q + (b - 1) by omega,Nat.mul_add_div hb,hlast,Nat.add_zero]
  rw [hup]
  split_ifs
  · exact Outcome.u64_of_lt (by omega)
  · rfl

end index

/-- What open accepts of a geometry: a block of 1 to 256 MiB, and one of the two sector sizes. -/
structure Geometry (blockSize sectorSize : Nat) : Prop where
  block : ∃ k, 20 ≤ k ∧ k ≤ 28 ∧ blockSize = 2^k
  sector : sectorSize = 512 ∨ sectorSize = 4096

section geometry
variable {blockSize sectorSize virtualSize regionLen : Nat}

theorem Geometry.ratio (h : Geometry blockSize sectorSize) :
    Checked.chunkRatio blockSize sectorSize = .ok (chunkRatio blockSize sectorSize) ∧
      0 < chunkRatio blockSize sectorSize ∧ chunkRatio blockSize sectorSize < 2^16 := by
  obtain ⟨⟨k,hlo,hhi,rfl⟩,hs⟩ := h
  have hfits : 2^23 * sectorSize < 2^64 := by omega
  refine ⟨?_,?_⟩
  · unfold Checked.chunkRatio
    rw [Outcome.u64_of_lt hfits]
    exact Outcome.div_of_pos (Nat.two_pow_pos k)
  · -- a power of two again: the quotient of two of them
    obtain ⟨j,hj,rfl⟩ : ∃ j, (j = 9 ∨ j = 12) ∧ sectorSize = 2^j := hs.elim (fun h => ⟨9,.inl rfl,h⟩) fun h =>
      ⟨12,.inr rfl,h⟩
    have hpow : chunkRatio (2^k) (2^j) = 2^(23 + j - k) := by
      rw [chunkRatio,← Nat.pow_add,Nat.pow_div (by omega) (by decide)]
    rw [hpow]
    exact ⟨Nat.two_pow_pos _,Nat.pow_lt_pow_right (by decide) (by omega)⟩

theorem Geometry.pos (h : Geometry blockSize sectorSize) : 2^20 ≤ blockSize := by
  obtain ⟨⟨k,hlo,-,rfl⟩,-⟩ := h
  exact Nat.pow_le_pow_right (by decide) hlo

/-- The block of the disk's last byte is the last block. -/
private theorem lastBlock_eq (hb : 0 < blockSize) (hv : virtualSize ≠ 0) :
    (virtualSize + blockSize - 1) / blockSize = (virtualSize - 1) / blockSize + 1 := by
  rw [show virtualSize + blockSize - 1 = virtualSize - 1 + blockSize by omega,Nat.add_div_right _ hb]

/-- How many entries the disk needs: none, or all up to the one of its last block. -/
def entriesNeeded (blockSize sectorSize virtualSize : Nat) : Nat :=
  if virtualSize = 0 then 0 else dataBatIndex ((virtualSize - 1) / blockSize) (chunkRatio blockSize sectorSize) + 1

private theorem Geometry.block_lt (h : Geometry blockSize sectorSize) {off : Nat} (ho : off < 2^64) :
    off / blockSize < 2^44 := by
  rw [Nat.div_lt_iff_lt_mul (Nat.lt_of_lt_of_le (by decide) h.pos)]
  calc off < 2^44 * 2^20 := ho
    _ ≤ 2^44 * blockSize := Nat.mul_le_mul_left _ h.pos

theorem Geometry.checked_index (h : Geometry blockSize sectorSize) {off : Nat} (ho : off < 2^64) :
    Checked.dataBatIndex (off / blockSize) (chunkRatio blockSize sectorSize) =
      .ok (dataBatIndex (off / blockSize) (chunkRatio blockSize sectorSize)) :=
  checked_dataBatIndex h.ratio.2.1 h.ratio.2.2 (h.block_lt ho)

/-- The check at open: what it comes to on a machine of 64 bits. -/
private theorem Geometry.checked_covers (h : Geometry blockSize sectorSize) (hv : virtualSize < 2^64) :
    Checked.batRegionCoversTheDisk regionLen virtualSize blockSize (chunkRatio blockSize sectorSize) =
      if regionLen % 8 ≠ 0 then .err (.corrupt "the BAT region's length is not a whole number of 8-byte entries")
      else if regionLen / 8 < entriesNeeded blockSize sectorSize virtualSize then
        .err (.corrupt "the BAT region is too short for the disk it describes")
      else .ok (entriesNeeded blockSize sectorSize virtualSize) := by
  have hpos := h.pos
  have h8 : batEntrySize = 8 := rfl
  unfold Checked.batRegionCoversTheDisk entriesNeeded
  rw [h8]
  by_cases hlen : regionLen % 8 ≠ 0
  · rw [if_pos hlen,Outcome.rejectIf_of _ hlen]
    rfl
  rw [if_neg hlen,Outcome.rejectIf_of_not _ hlen]
  simp only [Outcome.ok_bind]
  by_cases h0 : virtualSize = 0
  · rw [if_pos h0,if_pos h0,if_neg (Nat.not_lt_zero _)]
    rfl
  have hidx := h.checked_index (show virtualSize - 1 < 2^64 by omega)
  have hsmall : dataBatIndex ((virtualSize - 1) / blockSize) (chunkRatio blockSize sectorSize) + 1 < 2^64 := by
    have hlt := h.block_lt (show virtualSize - 1 < 2^64 by omega)
    have hle : (virtualSize - 1) / blockSize / chunkRatio blockSize sectorSize ≤ (virtualSize - 1) / blockSize :=
      Nat.div_le_self _ _
    rw [dataBatIndex_eq]
    omega
  rw [if_neg h0,if_neg h0,checked_divCeil (by omega) hv,lastBlock_eq (by omega) h0]
  simp only [Outcome.ok_bind]
  rw [Outcome.sub_of_le (Nat.le_add_left 1 _),Nat.add_sub_cancel]
  simp only [Outcome.ok_bind]
  rw [hidx]
  simp only [Outcome.ok_bind]
  rw [checkedAdd_of_lt hsmall]
  simp only [Outcome.okOr_some,Outcome.ok_bind]
  by_cases hroom : regionLen / 8 < dataBatIndex ((virtualSize - 1) / blockSize) (chunkRatio blockSize sectorSize) + 1
  · rw [if_pos hroom,Outcome.rejectIf_of _ hroom]
    rfl
  · rw [if_neg hroom,Outcome.rejectIf_of_not _ hroom]
    rfl

/-- And the check is the one the reader makes. -/
private theorem Geometry.checked_covers_eq (h : Geometry blockSize sectorSize) (hv : virtualSize < 2^64) :
    Checked.batRegionCoversTheDisk regionLen virtualSize blockSize (chunkRatio blockSize sectorSize) =
      batRegionCoversTheDisk regionLen virtualSize blockSize (chunkRatio blockSize sectorSize) := by
  have hpos := h.pos
  unfold Checked.batRegionCoversTheDisk batRegionCoversTheDisk
  refine congrArg _ (funext fun _ => ?_)
  split_ifs with h0
  · rfl
  · have hlast := lastBlock_eq (show 0 < blockSize by omega) h0
    rw [checked_divCeil (by omega) hv,hlast]
    simp only [Outcome.ok_bind]
    rw [Outcome.sub_of_le (Nat.le_add_left 1 _),Nat.add_sub_cancel]
    simp only [Outcome.ok_bind]
    rw [h.checked_index (by omega)]
    rfl

end geometry

section transfers
variable {α β : Type} {n : Nat} {r : VhdxReader}

def Holds (n : Nat) : (op : ReaderOp) → op.Reply → Prop
  | .loadBat i, e => i < n → e.isSome = true
  | _, _ => True

def OtherError (e : Error) : Prop := e ≠ .corrupt "BAT index out of range"

abbrev Finds (n : Nat) (p : ReaderProg α) : Prop := p.Yields (Holds n) (Prog.Ends (fun _ => True) OtherError True)

theorem Finds.bind {p : ReaderProg α} {f : α → ReaderProg β} (hp : Finds n p) (hf : ∀ a, Finds n (f a)) :
    Finds n (p >>= f) :=
  Prog.Yields.bind hp fun a _ => hf a

private theorem finds_lift {o : Outcome Error α} (h : ∀ e, o = .err e → OtherError e) : Finds n (Prog.lift o) := by
  cases o with
  | ok a => trivial
  | err e => exact h e rfl
  | panic => trivial

private theorem finds_okOr {o : Option α} {e : Error} (h : OtherError e) : Finds n (Prog.lift (Outcome.okOr e o)) := by
  cases o with
  | some a => trivial
  | none => exact h

private theorem finds_rejectIf {c : Prop} [Decidable c] {e : Error} (h : OtherError e) :
    Finds n (Prog.lift (Outcome.rejectIf c e)) := by
  by_cases hc : c
  · rw [Outcome.rejectIf_of _ hc]
    exact h
  · rw [Outcome.rejectIf_of_not _ hc]
    trivial

private theorem otherError_device (e : FsError) : OtherError (fsCoreToVhdxError e) := by
  cases e <;> exact nofun

private theorem finds_devRead {off len : Nat} : Finds n (devRead off len) := fun x _ => by
  cases x with
  | ok b => trivial
  | error e => exact otherError_device e

private theorem finds_devWrite {off : Nat} {bs : Bytes} : Finds n (devWrite off bs) := fun x _ => by
  rcases x with e | ⟨⟩
  · exact otherError_device e
  · trivial

private theorem finds_devSetLen {m : Nat} : Finds n (devSetLen m) := fun x _ => by
  rcases x with e | ⟨⟩
  · exact otherError_device e
  · trivial

private theorem finds_devFlush : Finds n devFlush := fun x _ => by
  rcases x with e | ⟨⟩
  · exact otherError_device e
  · trivial

private theorem finds_perform {op : ReaderOp} : Finds n (Prog.perform op) := fun _ _ => trivial

private theorem finds_batEntryAt {i : Nat} (h : i < n) : Finds n (batEntryAt i) := by
  intro e he
  obtain ⟨x,rfl⟩ := Option.isSome_iff_exists.mp (he h)
  trivial

private theorem finds_hostOffset {off inBlock len : Nat} : Finds n (hostOffset off inBlock len) := by
  have hmessage : OtherError (.corrupt "BAT entry names an offset past the file") := by simp [OtherError]
  exact Finds.bind finds_perform fun _ => Finds.bind (finds_okOr hmessage) fun _ => Finds.bind (finds_okOr hmessage) fun _ =>
    Finds.bind (finds_rejectIf hmessage) fun _ => trivial

private theorem otherError_unsupported (what : String) : OtherError (.unsupported what) := nofun

private theorem finds_readChunk {c : BlockChunk} (h : c.batIdx < n) : Finds n (readChunk c) := by
  refine Finds.bind (finds_batEntryAt h) fun e => ?_
  cases e.state with
  | fullyPresent => exact finds_hostOffset.bind fun _ => finds_devRead
  | notPresent => trivial
  | undefined => trivial
  | zero => trivial
  | unmapped => trivial
  | partiallyPresent => exact otherError_unsupported _
  | reserved v => exact otherError_unsupported _

private theorem finds_readChunks {cs : List BlockChunk} (h : ∀ c ∈ cs, c.batIdx < n) : Finds n (readChunks cs) := by
  induction cs with
  | nil => trivial
  | cons c cs ih =>
    exact (finds_readChunk (h c List.mem_cons_self)).bind fun _ =>
      Finds.bind (ih fun x hx => h x (List.mem_cons_of_mem _ hx)) fun _ => trivial

variable [Crc32c]

private theorem finds_journalSectorWrite {off : Nat} {sector : Bytes} : Finds n (journalSectorWrite off sector) := by
  unfold journalSectorWrite
  split_ifs
  · refine Finds.bind finds_perform fun ⟨header,slot⟩ => ?_
    dsimp only
    split_ifs
    · exact finds_perform
    · refine Finds.bind finds_perform fun size => ?_
      split_ifs
      · exact finds_perform
      · exact Finds.bind (Prog.Yields.releasing
          (finds_devWrite.bind fun _ => finds_devFlush.bind fun _ => finds_devWrite.bind fun _ => finds_devFlush)
          finds_perform) fun _ => finds_perform
  · trivial

private theorem finds_allocateBlockFor {i : Nat} : Finds n (allocateBlockFor r i) := by
  have hsum : ∀ m : Nat, Finds n (Prog.lift (Outcome.u64 m)) := fun m => finds_lift fun e he => by
    unfold Outcome.u64 at he
    split_ifs at he
  have hcopy : ∀ (b : Bytes) (lo hi : Nat) (src : Bytes), Finds n (Prog.lift (copyFromSlice b lo hi src)) :=
    fun b lo hi src =>
    finds_lift fun e he => by
      unfold copyFromSlice at he
      split_ifs at he
  refine Finds.bind finds_perform fun sz => (hsum _).bind fun _ => (hsum _).bind fun _ =>
    Finds.bind (Prog.Yields.releasing finds_devSetLen finds_perform) fun _ => Finds.bind finds_perform fun _ =>
      finds_devWrite.bind fun _ =>
      finds_devFlush.bind fun _ => (hsum _).bind fun _ => (hsum _).bind fun _ => finds_devRead.bind fun _ =>
        (hcopy _ _ _ _).bind fun _ =>
        finds_journalSectorWrite.bind fun _ => finds_devWrite.bind fun _ => finds_devFlush.bind fun _ =>
          Finds.bind finds_perform fun inside => ?_
  split_ifs <;> trivial

private theorem finds_writeChunk {buf : Bytes} {c : BlockChunk} (h : c.batIdx < n) : Finds n (writeChunk r buf c) := by
  have hindex : Finds n (Prog.lift (index buf c.bufPos (c.bufPos + c.chunkLen))) := finds_lift fun e he => by
    unfold index at he
    split_ifs at he
  have hrest : ∀ off (src : Bytes), Finds n
    (hostOffset off c.inBlock src.length >>= fun hostOff => devWrite hostOff src) :=
    fun off src => finds_hostOffset.bind fun _ => finds_devWrite
  refine hindex.bind fun src => Finds.bind (finds_batEntryAt h) fun e => ?_
  cases e.state with
  | fullyPresent => exact hrest _ _
  | notPresent => exact finds_allocateBlockFor.bind fun _ => hrest _ _
  | undefined => exact finds_allocateBlockFor.bind fun _ => hrest _ _
  | zero => exact finds_allocateBlockFor.bind fun _ => hrest _ _
  | unmapped => exact finds_allocateBlockFor.bind fun _ => hrest _ _
  | partiallyPresent => exact otherError_unsupported _
  | reserved v => exact otherError_unsupported _

omit [Crc32c] in
/-- A piece of a range starts at a byte of it. -/
private theorem chunk_start {stop u b : Nat} {c : BlockChunk} (hc : c ∈ blockChunksFrom r stop u b) :
    ∃ v < stop, c.batIdx = batIdxOf r v := by
  induction hk : stop - u using Nat.strongRecOn generalizing u b with
  | ind k ih =>
    by_cases h : u < stop
    · rw [blockChunksFrom_of_lt h] at hc
      have hpos := firstChunk_pos (r := r) (b := b) h
      rcases List.mem_cons.mp hc with rfl | hc
      · exact ⟨u,h,rfl⟩
      · exact ih _ (by omega) hc rfl
    · rw [blockChunksFrom_of_le (by omega)] at hc
      cases hc

omit [Crc32c] in
private theorem transferEnd_cases (r : VhdxReader) (offset len : Nat) :
    (∃ e, OtherError e ∧ transferEnd r offset len = .err e) ∨ transferEnd r offset len = .ok none ∨
      ∃ stop ≤ r.virtualSize, transferEnd r offset len = .ok (some stop) := by
  by_cases h0 : len = 0
  · exact .inr (.inl (if_pos h0))
  unfold transferEnd
  rw [if_neg h0]
  by_cases h64 : offset + len < 2^64
  · rw [checkedAdd_of_lt h64,Outcome.okOr_some,Outcome.ok_bind]
    by_cases hin : offset + len > r.virtualSize
    · rw [Outcome.rejectIf_of _ hin]
      exact .inl ⟨.outOfBounds offset len r.virtualSize,nofun,rfl⟩
    · rw [Outcome.rejectIf_of_not _ hin]
      exact .inr (.inr ⟨_,by omega,rfl⟩)
  · rw [checkedAdd,if_neg h64]
    exact .inl ⟨_,by simp [OtherError],rfl⟩

omit [Crc32c] in
private theorem finds_readAt (hcovers : ∀ v < r.virtualSize, batIdxOf r v < n) (offset len : Nat) :
    Finds n (readAt r offset len) := by
  unfold readAt
  rcases transferEnd_cases r offset len with ⟨e,he,ht⟩ | ht | ⟨stop,hstop,ht⟩
  · rw [ht]
    exact he
  · rw [ht]
    trivial
  · rw [ht]
    refine finds_readChunks fun c hc => ?_
    obtain ⟨v,hv,hidx⟩ := chunk_start hc
    rw [hidx]
    exact hcovers v (by omega)

private theorem finds_writeAt (hcovers : ∀ v < r.virtualSize, batIdxOf r v < n) (offset : Nat) (buf : Bytes) :
    Finds n (writeAt r offset buf) := by
  unfold writeAt
  split_ifs
  · rcases transferEnd_cases r offset buf.length with ⟨e,he,ht⟩ | ht | ⟨stop,hstop,ht⟩
    · rw [ht]
      exact he
    · rw [ht]
      trivial
    · rw [ht]
      change Finds n (Prog.forEach (writeChunk r buf) (blockChunks r offset stop) >>= fun _ => devFlush)
      refine Finds.bind (Prog.Yields.forEach fun c hc => finds_writeChunk ?_) fun _ => finds_devFlush
      obtain ⟨v,hv,hidx⟩ := chunk_start hc
      rw [hidx]
      exact hcovers v (by omega)
  · exact nofun

omit [Crc32c] in
/-- Over a table of `n` entries such a program does not fail for want of one. -/
theorem Finds.run {p : ReaderProg α} (hp : Finds n p) {w : World} (hw : w.bat.length = n) :
    (p.run World.handle w).1 ≠ .err (.corrupt "BAT index out of range") := by
  have hends := Prog.Yields.run (h := World.handle) (I := fun w => w.bat.length = n) hp (fun op w hw => ?_) hw
  · intro he
    rw [he] at hends
    exact hends rfl
  · cases op with
    | loadBat i =>
      refine ⟨fun hi => ?_,hw⟩
      change (w.bat[i]?).isSome = true
      rw [List.getElem?_eq_getElem (by omega)]
      rfl
    | storeBat i e => exact ⟨trivial,(List.length_set ..).trans hw⟩
    | dev op => exact ⟨trivial,hw⟩
    | lockSize => exact ⟨trivial,hw⟩
    | unlockSize m => exact ⟨trivial,hw⟩
    | loadSize => exact ⟨trivial,hw⟩
    | lockHeader => exact ⟨trivial,hw⟩
    | unlockHeader k x => exact ⟨trivial,hw⟩

/-- A reader that opened has an entry for every block of the disk. -/
private theorem opened_covers {writable rc : Bool} {d d' : Device} {s : ReaderState}
    (h : (openInner writable rc).on d = (.ok (r,s),d')) :
    ∀ v < r.virtualSize, batIdxOf r v < s.bat.length := by
  obtain ⟨l,d1,header,slot,d2,p,d3,-,-,-,hf⟩ := openInner_eq_ok h
  obtain ⟨-,-,-,-,-,-,-,-,-,hbat⟩ := finishOpen_eq_ok hf
  obtain ⟨b,entries,-,-,-,-,hentries,-,hdecode,-⟩ := readBat_eq_ok hbat
  obtain ⟨-,hcovers⟩ := batRegionCoversTheDisk_eq_ok hentries r.chunkRatio_pos r.blockSize_pos
  rw [hdecode,length_decodeBat Device.length_bytes]
  exact hcovers

end transfers

/-- Of every geometry and every size of disk: open takes the region exactly when it is whole entries and has one for
every block, every byte's entry is among those, blocks have their entries in their order and none in a bitmap's slot,
and nothing overflows on the way. So no transfer fails for want of an entry. -/
theorem bat_addressing_exact [Crc32c] {blockSize sectorSize virtualSize : Nat} (h : Geometry blockSize sectorSize)
    (hv : virtualSize < 2^64) :
    (Checked.chunkRatio blockSize sectorSize = .ok (chunkRatio blockSize sectorSize) ∧
      0 < chunkRatio blockSize sectorSize) ∧
    (∀ regionLen, Checked.batRegionCoversTheDisk regionLen virtualSize blockSize (chunkRatio blockSize sectorSize) =
        batRegionCoversTheDisk regionLen virtualSize blockSize (chunkRatio blockSize sectorSize) ∧
      batRegionCoversTheDisk regionLen virtualSize blockSize (chunkRatio blockSize sectorSize) ≠ .panic ∧
      ∀ n, batRegionCoversTheDisk regionLen virtualSize blockSize (chunkRatio blockSize sectorSize) = .ok n ↔
        8 ∣ regionLen ∧ n * 8 ≤ regionLen ∧ n = if virtualSize = 0 then 0 else
          dataBatIndex ((virtualSize - 1) / blockSize) (chunkRatio blockSize sectorSize) + 1) ∧
    (∀ off < virtualSize, Checked.dataBatIndex (off / blockSize) (chunkRatio blockSize sectorSize) =
        .ok (dataBatIndex (off / blockSize) (chunkRatio blockSize sectorSize)) ∧
      dataBatIndex (off / blockSize) (chunkRatio blockSize sectorSize) <
      entriesNeeded blockSize sectorSize virtualSize ∧
      dataBatIndex (off / blockSize) (chunkRatio blockSize sectorSize) % (chunkRatio blockSize sectorSize + 1) ≠
      chunkRatio blockSize sectorSize) ∧
    (∀ b c, b < c → dataBatIndex b (chunkRatio blockSize sectorSize) <
      dataBatIndex c (chunkRatio blockSize sectorSize)) ∧
    ∀ writable rc d r s d', (openInner writable rc).on d = (.ok (r,s),d') → ∀ w : World, w.bat.length = s.bat.length → ∀ offset,
      (∀ len, ((readAt r offset len).run World.handle w).1 ≠ .err (.corrupt "BAT index out of range")) ∧
      ∀ buf, ((writeAt r offset buf).run World.handle w).1 ≠ .err (.corrupt "BAT index out of range") := by
  obtain ⟨hratio,hpos,-⟩ := h.ratio
  refine ⟨⟨hratio,hpos⟩,fun regionLen => ?_,fun off hoff => ?_,fun b c hlt => dataBatIndex_lt hpos hlt,?_⟩
  · have hcovers : batRegionCoversTheDisk regionLen virtualSize blockSize (chunkRatio blockSize sectorSize) = _ :=
      (h.checked_covers_eq hv).symm.trans (h.checked_covers hv)
    refine ⟨h.checked_covers_eq hv,?_,fun n => ?_⟩
    · rw [hcovers]
      split_ifs <;> exact nofun
    · rw [hcovers]
      change _ ↔ 8 ∣ regionLen ∧ n * 8 ≤ regionLen ∧ n = entriesNeeded blockSize sectorSize virtualSize
      split_ifs with hlen hroom
      · exact ⟨nofun,fun hn => by omega⟩
      · exact ⟨nofun,fun hn => by omega⟩
      · rw [Outcome.ok.injEq]
        omega
  · refine ⟨h.checked_index (hoff.trans hv),?_,?_⟩
    · have hle : off / blockSize ≤ (virtualSize - 1) / blockSize := Nat.div_le_div_right (by omega)
      have hmono := dataBatIndex_mono hpos hle
      unfold entriesNeeded
      rw [if_neg (by omega)]
      omega
    · rw [dataBatIndex_mod hpos]
      exact (Nat.mod_lt _ hpos).ne
  · intro writable rc d r s d' hopen w hw offset
    have hcovers := opened_covers hopen
    exact ⟨fun len => (finds_readAt hcovers offset len).run hw,fun buf => (finds_writeAt hcovers offset buf).run hw⟩

/-- A disk of 8 GiB in the smallest blocks: two chunks, the first with its bitmap's slot inside the table. -/
theorem bat_addressing_exact_two_chunks : batRegionCoversTheDisk 65544 (2^33) (2^20) 4096 = .ok 8193 ∧
    dataBatIndex ((2^33 - 1) / 2^20) 4096 % 4097 ≠ 4096 := by
  let := castagnoli
  have hgeometry : Geometry (2^20) 512 := ⟨⟨20,le_rfl,by decide,rfl⟩,.inl rfl⟩
  have hratio : chunkRatio (2^20) 512 = 4096 := by decide
  obtain ⟨-,hcovers,hindex,-⟩ := bat_addressing_exact hgeometry (show 2^33 < 2^64 by decide)
  rw [hratio] at hcovers hindex
  exact ⟨((hcovers 65544).2.2 8193).mpr (by decide),(hindex (2^33 - 1) (by decide)).2.2⟩

end ImgVhdx
