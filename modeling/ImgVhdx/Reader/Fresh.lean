import ImgVhdx.Reader.Reached

/-! Whose the block is that an allocation hands out. -/
namespace ImgVhdx
open Lib ReaderProg

section
variable [Crc32c] {r : VhdxReader} {w : World} {i : Nat}

private theorem World.dev_named (off : Nat) (hi : entryOffset r i < 2^64) (hf : EntryFits r i) :
    ∃ d : Device, d.size = w.dev.size ∧
    (w.named r i off).dev = d.put (sectorOffset r i)
    (spliceEntry r i off (w.dev.bytes (sectorOffset r i) logSectorSize)) := by
  rw [World.named,dif_pos (length_spliceEntry hi hf Device.length_bytes)]
  exact ⟨_,World.size_logEntry,rfl⟩

omit [Crc32c] in
/-- An entry reads back out of the sector it was spliced into. -/
private theorem slice_spliceEntry {off : Nat} {b : Bytes} (hi : entryOffset r i < 2^64) (hf : EntryFits r i)
    (hb : b.length = logSectorSize) :
    slice (spliceEntry r i off b) (entryOffset r i - sectorOffset r i) batEntrySize = toLE 8 (presentRaw off) := by
  refine slice_splice_same ?_ (length_toLE ..).symm
  rw [length_toLE,hb,entryOffset_sub hi]
  exact hf

/-- The word on disk for a fresh block. -/
theorem World.word_granted (h : w.Ready r) (hg : w.Grants r i) (hi : i < w.bat.length) :
    (w.granted r i).dev.bytes (entryOffset r i) batEntrySize = toLE 8 (presentRaw (tailOffset r w.devSize)) := by
  have hentry : entryOffset r i < 2^64 := by
    have := h.bat i hi
    have := h.small
    omega
  have hsector := sector_le_tail (h.bat i hi) hg.pads
  obtain ⟨hlo,-,-⟩ := sectorOffset_spec hentry
  obtain ⟨d,hd,hdev⟩ := World.dev_named (w := w.extended r) (tailOffset r w.devSize) hentry hg.fits
  have hb : ((w.extended r).dev.bytes (sectorOffset r i) logSectorSize).length = logSectorSize := Device.length_bytes
  have hlen : (spliceEntry r i (tailOffset r w.devSize)
    ((w.extended r).dev.bytes (sectorOffset r i) logSectorSize)).length = logSectorSize :=
    length_spliceEntry hentry hg.fits hb
  have hin : entryOffset r i - sectorOffset r i + batEntrySize ≤ logSectorSize := by
    rw [entryOffset_sub hentry]
    exact hg.fits
  have hsize : d.size = tailOffset r w.devSize + r.blockSize := hd
  have hput := Device.bytes_put_same (d := d) (o := sectorOffset r i)
    (b := spliceEntry r i (tailOffset r w.devSize) ((w.extended r).dev.bytes (sectorOffset r i) logSectorSize)) (by omega)
  rw [hlen] at hput
  calc
    _ = (w.granted r i).dev.bytes (sectorOffset r i + (entryOffset r i - sectorOffset r i)) batEntrySize := by
      rw [Nat.add_sub_cancel' hlo]
    _ = slice ((w.granted r i).dev.bytes (sectorOffset r i) logSectorSize) (entryOffset r i - sectorOffset r i)
      batEntrySize :=
      (Device.slice_bytes hin).symm
    _ = _ := by
      rw [World.granted,hdev,hput]
      exact slice_spliceEntry hentry hg.fits hb

structure World.Grown (r : VhdxReader) (s : ReaderState) (w : World) : Prop where
  kept : ∀ (j : Nat) (e : BatEntry), s.bat[j]? = some e → e.state.blockOnDisk = true → w.bat[j]? = some e
  allocated : ∀ (j : Nat) (e : BatEntry), w.bat[j]? = some e → e.state.blockOnDisk = true → s.bat[j]? = some e ∨
    e.fileOffset + r.blockSize ≤ w.devSize

/-- A block is allocated only where none was there. -/
theorem World.Grown.keptByPieces {s : ReaderState} : KeptByPieces r (World.Grown r s) := by
  rintro w c src hready hw (⟨off,hp,-⟩ | ⟨ha,hg⟩) hi
  · rw [hp.wrote_eq]
    exact ⟨hw.kept,hw.allocated⟩
  · have hbat := ha.bat_wrote hready hg hi src
    obtain ⟨hle,-,-⟩ := tailOffset_spec hg.pads
    refine ⟨fun j e hj hd => ?_,fun j e hj hd => ?_⟩
    · have hwj := hw.kept j e hj hd
      have hne : c.batIdx ≠ j := by
        rintro rfl
        obtain ⟨f,hf,hz⟩ := ha
        obtain rfl := Option.some.inj (hwj.symm.trans hf)
        rw [PayloadState.not_zeroFill_of_blockOnDisk hd] at hz
        cases hz
      exact (congrArg (·[j]?) hbat).trans ((List.getElem?_set_ne hne).trans hwj)
    · have hj' := (congrArg (·[j]?) hbat).symm.trans hj
      rw [ha.devSize_wrote]
      by_cases hne : c.batIdx = j
      · subst hne
        rw [List.getElem?_set_self hi] at hj'
        obtain rfl := Option.some.inj hj'
        exact .inr le_rfl
      · rw [List.getElem?_set_ne hne] at hj'
        rcases hw.allocated j e hj' hd with hs | hin
        · exact .inl hs
        · exact .inr (by omega)

/-- Of the payload blocks that are there, the one at `i` apart, none has a range that meets a block at `off`. -/
def ClearOfOthers (r : VhdxReader) (bat : List BatEntry) (i off : Nat) : Prop :=
  ∀ (block : Nat) (e : BatEntry), dataBatIndex block r.chunkRatio ≠ i → bat[dataBatIndex block r.chunkRatio]? = some e →
    e.state.blockOnDisk = true → (blockSpan r off).Apart (blockSpan r e.fileOffset)

omit [Crc32c] in
/-- The block at the tail is clear of what was allocated, so only what the image came with is in question. -/
private theorem World.Grown.clearOfOthers {s : ReaderState} (hw : w.Grown r s)
    (hn : w.devSize + (r.blockSize - 1) < 2^64) :
    ClearOfOthers r w.bat i (tailOffset r w.devSize) ↔ ClearOfOthers r s.bat i (tailOffset r w.devSize) := by
  constructor
  · intro h block e hne hs hd
    exact h block e hne (hw.kept _ e hs hd) hd
  · intro h block e hne hj hd
    rcases hw.allocated _ e hj hd with hs | hin
    · exact h block e hne hs hd
    · exact (min_le_right _ _).trans (le_max_of_le_left (hin.trans (tailOffset_spec hn).1))

omit [Crc32c] in
private theorem clearOfOthers_set {bat : List BatEntry} {off : Nat} {f : BatEntry} :
    ClearOfOthers r (bat.set i f) i off ↔ ClearOfOthers r bat i off := by
  refine forall_congr' fun block => forall_congr' fun e => imp_congr_right fun hne => ?_
  rw [List.getElem?_set_ne hne.symm]

variable {d d' : Device} {s : ReaderState}

/-- In every state that writes reach, in the middle of one or between two, a block that is handed out is a whole block
of zeros inside the file, named on disk and in memory; and nobody else's exactly where no block the image came with
has a range that meets the one past the file's end. -/
theorem fresh_block_iff {w' : World} {off : Nat} (hopen : (openRwOnDevice d).on d = (.ok (r,s),d'))
    (hsmall : d.size < 2^64) (hreach : UnderWay r (s.start d') w) (hi : i < w.bat.length)
    (hrun : (allocateBlockFor r i).run World.handle w = (.ok off,w')) :
    r.blockSize ∣ off ∧ off + r.blockSize ≤ w'.dev.size ∧ (∀ k < r.blockSize, w'.dev.byte (off + k) = 0) ∧
    BatEntry.fromU64 (ofLE (w'.dev.bytes (entryOffset r i) batEntrySize)) = ⟨.fullyPresent,off⟩ ∧
    w'.bat[i]? = some ⟨.fullyPresent,off⟩ ∧
    (ClearOfOthers r w'.bat i off ↔ ClearOfOthers r s.bat i (tailOffset r w.devSize)) := by
  have hstart : (s.start d').Grown r s := ⟨fun _ _ h _ => h,fun _ _ h _ => .inl h⟩
  obtain ⟨hw,hgrown⟩ := hreach.invariant (ready_of_opened hopen hsmall) hstart World.Grown.keptByPieces
  rcases allocateBlockFor_cases hw.ready hi with ⟨-,e,he⟩ | ⟨⟨v,hp,-⟩,-⟩ | ⟨hg,hok⟩
  · cases (Prod.mk.inj (hrun.symm.trans he)).1
  · cases (Prod.mk.inj (hrun.symm.trans hp)).1
  obtain ⟨ho,rfl⟩ := Prod.mk.inj (hrun.symm.trans hok)
  obtain rfl := Outcome.ok.inj ho
  obtain ⟨-,hdvd,-⟩ := tailOffset_spec hg.pads
  have hmib : oneMib ∣ tailOffset r w.devSize := r.oneMib_dvd.trans hdvd
  have hlt : tailOffset r w.devSize < 2^64 := lt_of_le_of_lt (Nat.le_add_right _ _) hg.room
  have hbat := World.bat_granted hw.ready hg hi
  refine ⟨hdvd,?_,fun k hk => World.byte_granted hw.ready hg hi hk,?_,?_,?_⟩
  · rw [(hw.ready.granted hg).size,World.devSize_granted]
  · rw [World.word_granted hw.ready hg hi,ofLE_toLE (presentRaw_lt hmib hlt),fromU64_presentRaw hmib hlt]
  · rw [hbat,List.getElem?_set_self hi]
  · rw [hbat,clearOfOthers_set,hgrown.clearOfOthers hg.pads]

/-- Between two calls none of the next one is written. -/
private theorem Reached.underWay {w0 : World} (h : Reached r w0 w) : UnderWay r w0 w := by
  have hnone : blockChunks r 0 (0 + ([] : Bytes).length) = [] ++ [] := blockChunksFrom_of_le le_rfl
  exact .pieces h (.inl rfl) hnone rfl

end

def twoBlocks (first second : Nat) : Build where
  size := 3 * 1024 * 1024
  header := ⟨1,Guid.zero,Guid.zero,Guid.zero,logVersionV0,headerVersion,0,0⟩
  batOffset := 2 * 1024 * 1024
  batLen := 16
  metaOffset := oneMib
  virtualSize := 2 * 1024 * 1024
  body := [(2 * 1024 * 1024,toLE 8 first ++ toLE 8 second)]

section twoBlocks
variable [Crc32c] {first second : Nat}

omit [Crc32c] in
theorem twoBlocks_valid : (twoBlocks first second).Valid 2 where
  body := by simp [twoBlocks,oneMib]
  meta_low := le_refl oneMib
  meta_high := show oneMib + metadataRegionSize ≤ 3145728 by decide
  bat_high := show 2097152 + 16 ≤ 3145728 by decide
  bat_len := show 16 < 2^32 by decide
  size := show 3145728 < 2^64 by decide
  virtualSize := show 2097152 < 2^64 by decide
  version := rfl
  logVersion := rfl
  logRegion := rfl
  clear := rfl
  covers := show batRegionCoversTheDisk 16 2097152 oneMib 4096 = .ok 2 by decide
  entries := show 2 * batEntrySize ≤ 16 by decide

theorem twoBlocks_bat (h1 : first < 256^8) (h2 : second < 256^8) :
    decodeBat ((twoBlocks first second).device.bytes (twoBlocks first second).batOffset (2 * batEntrySize)) =
      [.fromU64 first,.fromU64 second] := by
  exact Build.bat_two rfl (show oneMib ≤ 2097152 by decide) (show oneMib + metadataRegionSize ≤ 2097152 by decide)
    (show 2097152 + 16 ≤ 3145728 by decide) h1 h2

def twoBlocksState (first second : Nat) : ReaderState :=
  ⟨3145728,(twoBlocks first second).header,.one,[.fromU64 first,.fromU64 second]⟩

theorem twoBlocks_opens (first second : Nat) (h1 : first < 256^8) (h2 : second < 256^8) :
    (openRwOnDevice (twoBlocks first second).device).on
    (twoBlocks first second).device =
    (.ok ((twoBlocks first second).reader,twoBlocksState first second),(twoBlocks first second).device) := by
  have := (twoBlocks_valid.opensAs (b := twoBlocks first second) (by simp [isZeroGuid,twoBlocks,Guid.zero,zeros])).opens
  rwa [twoBlocks_bat h1 h2] at this

theorem twoBlocks_writable (first second : Nat) (h1 : first < 256^8) (h2 : second < 256^8) :
    ((twoBlocksState first second).start (twoBlocks first second).device).Writable (twoBlocks first second).reader :=
  ready_of_opened (twoBlocks_opens first second h1 h2) (by rw [Build.size_device]; exact (by decide : 3145728 < 2^64))

private theorem twoBlocks_tail : tailOffset (twoBlocks first second).reader
    ((twoBlocksState first second).start (twoBlocks first second).device).devSize = 3145728 :=
  (by decide : clearLow (3145728 + (oneMib - 1)) oneMib = 3145728)

theorem twoBlocks_grants (first second : Nat) :
    ((twoBlocksState first second).start (twoBlocks first second).device).Grants (twoBlocks first second).reader 0 where
  growable := by simp [ReaderState.start,Build.device,Device.zeroed]
  pads := (by decide : 3145728 + (oneMib - 1) < 2^64)
  room := twoBlocks_tail.symm ▸ (by decide : 3145728 + oneMib < 2^64)
  fits := (by decide : (2097152 + 0 * batEntrySize) % logSectorSize + 8 ≤ logSectorSize)

/-- Its first block is allocated at the end of the file. -/
private theorem twoBlocks_allocates (second : Nat) (h2 : second < 256^8) :
    ∃ w', (allocateBlockFor (twoBlocks 0 second).reader 0).run World.handle
      ((twoBlocksState 0 second).start (twoBlocks 0 second).device) = (.ok 3145728,w') ∧
    w'.bat = [⟨.fullyPresent,3145728⟩,.fromU64 second] := by
  have hready := (twoBlocks_writable 0 second (by decide) h2).ready
  have hg := twoBlocks_grants 0 second
  rcases allocateBlockFor_cases hready (i := 0) (Nat.succ_pos 1) with ⟨hno,-⟩ | ⟨-,hover⟩ | ⟨-,hok⟩
  · rw [hg.growable] at hno
    cases hno
  · exact absurd hg (World.Overruns.not_grants hover)
  · rw [twoBlocks_tail] at hok
    refine ⟨_,hok,?_⟩
    rw [World.bat_granted hready hg (Nat.succ_pos 1),twoBlocks_tail]
    rfl

end twoBlocks

/-- The first of two blocks, where the second is at the end of the file. -/
theorem fresh_block_halfStored :
    letI := castagnoli
    ∃ w', (allocateBlockFor halfStored.reader 0).run World.handle (halfStoredState.start halfStored.device) =
      (.ok 4194304,w') ∧
      w'.bat = [⟨.fullyPresent,4194304⟩,⟨.fullyPresent,3145728⟩] ∧ ClearOfOthers halfStored.reader w'.bat 0 4194304 := by
  let := castagnoli
  have hw : halfStored.device.writable = true := by simp [Build.device,Device.zeroed]
  have hg : halfStored.device.growable = true := by simp [Build.device,Device.zeroed]
  have hrun : (allocateBlockFor halfStored.reader 0).Runs World.handle World.free
      ⟨halfStored.device,4194304,false,halfStored.header,.one,false,halfStoredState.bat⟩ (.ok 4194304) _ :=
    runs_allocateBlockFor (.inl rfl) hw hg (by decide) (by decide) (by decide) ⟨512,rfl⟩ (by decide) (by decide)
  refine ⟨_,hrun.run_eq,rfl,(fresh_block_iff halfStored_opensAs.opens (by rw [Build.size_device]; decide)
    Reached.start.underWay
    (by decide) hrun.run_eq).2.2.2.2.2.mpr ?_⟩
  have htail : tailOffset halfStored.reader (halfStoredState.start halfStored.device).devSize = 4194304 :=
    (by decide : tailOffset halfStored.reader 4194304 = 4194304)
  rw [htail]
  -- what is there of the image as it was opened is the second block
  intro block e hne he hd
  have hall : ∀ x ∈ halfStoredState.bat, x.state.blockOnDisk = true → (blockSpan halfStored.reader 4194304).Apart
      (blockSpan halfStored.reader x.fileOffset) := by decide
  exact hall e (List.mem_of_getElem? he) hd

/-- The first, where the image says the second lies past the end of the file. -/
theorem fresh_block_not_alone :
    letI := castagnoli
    ∃ w', (openRwOnDevice (twoBlocks 0 (presentRaw 3145728)).device).on (twoBlocks 0 (presentRaw 3145728)).device =
        (.ok ((twoBlocks 0 (presentRaw 3145728)).reader,twoBlocksState 0 (presentRaw 3145728)),
          (twoBlocks 0 (presentRaw 3145728)).device) ∧
      (allocateBlockFor (twoBlocks 0 (presentRaw 3145728)).reader 0).run World.handle
        ((twoBlocksState 0 (presentRaw 3145728)).start (twoBlocks 0 (presentRaw 3145728)).device) = (.ok 3145728,w') ∧
      w'.bat = [⟨.fullyPresent,3145728⟩,⟨.fullyPresent,3145728⟩] ∧
      ¬ ClearOfOthers (twoBlocks 0 (presentRaw 3145728)).reader w'.bat 0 3145728 := by
  let := castagnoli
  obtain ⟨w',hrun,hbat⟩ := twoBlocks_allocates (presentRaw 3145728) (by decide)
  rw [show BatEntry.fromU64 (presentRaw 3145728) = ⟨.fullyPresent,3145728⟩ by decide] at hbat
  refine ⟨w',twoBlocks_opens _ _ (by decide) (by decide),hrun,hbat,fun hclear => ?_⟩
  have hshared := hclear 1 ⟨.fullyPresent,3145728⟩ (by decide) (by rw [hbat]; rfl) rfl
  revert hshared
  decide

end ImgVhdx
