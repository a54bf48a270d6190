import ImgVhdx.Reader.Guids
import ImgVhdx.Reader.Landing

/-! How a write announces itself: the data-write GUID in the header that is picked after it. -/
namespace ImgVhdx
open Lib ReaderProg

section slots
variable {r : VhdxReader} {w : World} {i : Nat} {c : BlockChunk}

/-- No piece is laid over a header slot. -/
def World.SparesHeaders (r : VhdxReader) (w : World) (cs : List BlockChunk) : Prop :=
  ∀ c ∈ cs, ∀ x : HeaderSlot, (w.target r c).Apart ⟨x.offset,headerSize⟩

/-- Header slots are whole sectors. -/
theorem HeaderSlot.whole (x : HeaderSlot) :
    logSectorSize ∣ x.offset ∧ logSectorSize ∣ headerSize := by cases x <;> decide

end slots

section rotations
variable [Crc32c] {r : VhdxReader} {w : World} {c : BlockChunk}

omit [Crc32c] in
theorem noJournal_rotated (h : Header) (n : Nat) : noJournal (rotatedHeader^[n] h) ↔ noJournal h := by
  induction n with
  | zero => rfl
  | succ n ih =>
    rw [Function.iterate_succ_apply']
    exact ih

omit [Crc32c] in
private theorem World.rotations_cons (w : World) (c : BlockChunk) (rest : List BlockChunk) :
    w.rotations (c :: rest) = w.rotations [c] + w.rotations rest := by
  unfold World.rotations
  split_ifs
  · rfl
  · rw [List.countP_cons,List.countP_singleton,Nat.add_comm]

omit [Crc32c] in
theorem World.rotations_present (h : ¬ (w.Absent c.batIdx ∧ ¬ noJournal w.header)) : w.rotations [c] = 0 := by
  unfold World.rotations
  split_ifs with hn
  · rfl
  · have ha : ¬ w.Absent c.batIdx := fun ha => h ⟨ha,hn⟩
    rw [List.countP_singleton,if_neg (by simpa using ha)]

omit [Crc32c] in
theorem World.rotations_absent (ha : w.Absent c.batIdx) (hn : ¬ noJournal w.header) : w.rotations [c] = 1 := by
  unfold World.rotations
  rw [if_neg hn,List.countP_singleton,if_pos (by simpa using ha)]

omit [Crc32c] in
/-- The room for a block is past the slots. -/
theorem World.Ready.slotsKept_extended (h : w.Ready r) (hn : w.devSize + (r.blockSize - 1) < 2^64) :
    SlotsKept w (w.extended r) where
  header := rfl
  slot := rfl
  size := by
    rw [h.size]
    exact (tailOffset_spec hn).1.trans (Nat.le_add_right _ _)
  bytes x := by
    have hx := x.offset_le
    have hslots := h.slots
    exact Device.bytes_congr fun k _ hhi => World.byte_extended_of_lt h hn (by omega)

/-- A piece that spares the slots moves the header on where it is journalled, and the new one is picked. -/
theorem World.Headed.wrote (hh : w.Headed) (h : w.Ready r) (ht : w.Takes r c) (hi : c.batIdx < w.bat.length)
    {src : Bytes} (hlen : src.length = c.chunkLen)
    (hclear : ∀ x : HeaderSlot, (w.target r c).Apart ⟨x.offset,headerSize⟩)
    (hseq : w.header.sequenceNumber.toNat + w.rotations [c] < 2^64) :
    (w.wrote r c src).Headed ∧ (w.wrote r c src).header = rotatedHeader^[w.rotations [c]] w.header := by
  by_cases hrot : w.Absent c.batIdx ∧ ¬ noJournal w.header
  swap
  · obtain ⟨hheader,hslot⟩ := World.header_wrote_of_skip (r := r) ht hrot src
    rw [World.rotations_present hrot]
    refine ⟨hh.kept ⟨hheader,hslot,?_,fun x => ?_⟩,hheader⟩
    · rw [h.size,(h.wrote ht).size]
      exact World.devSize_le_wrote ht src
    · exact h.bytes_wrote ht hi hlen (by rw [← h.size]; exact hh.slots x) (hclear x) fun ha hn => absurd ⟨ha,hn⟩ hrot
  · obtain ⟨ha,hn⟩ := hrot
    have hg := ha.grants ht
    have hentry := h.entry_lt hi
    rw [World.rotations_absent ha hn] at hseq ⊢
    obtain ⟨s,-,hwrote⟩ := ha.wrote_named hentry hg.fits src
    rw [show (w.extended r).logEntry _ s = (w.extended r).journalled _ s from if_neg hn] at hwrote
    have hjournalled : ((w.extended r).journalled (sectorOffset r c.batIdx) s).Headed :=
      (hh.kept (h.slotsKept_extended hg.pads)).headed_journalled hn hseq
    rw [hwrote]
    have hheader : ((w.extended r).journalled (sectorOffset r c.batIdx) s).header = rotatedHeader w.header := rfl
    refine ⟨hjournalled.kept ⟨rfl,rfl,le_rfl,fun x => ?_⟩,hheader⟩
    have hslot : x.offset + headerSize ≤ tailOffset r w.devSize :=
      (Nat.add_le_add_right x.offset_le _).trans (h.slots.trans (tailOffset_spec hg.pads).1)
    have hsector := hclear x
    rw [ha.target_eq] at hsector
    have hapart := (sector_apart_of_entry x.whole.1 x.whole.2 hentry hg.fits hsector).sides
      (show 0 < logSectorSize by decide) (show 0 < headerSize by decide)
    refine (Device.bytes_put_of_disjoint (.inl (hslot.trans (Nat.le_add_right _ _)))).trans
      (Device.bytes_put_of_disjoint ?_)
    rw [s.2]
    exact hapart.symm

/-- What a piece leaves ahead of it is what there was. -/
private theorem World.Ready.ahead_wrote (h : w.Ready r) (ht : w.Takes r c) (hi : c.batIdx < w.bat.length) {src : Bytes}
    {rest : List BlockChunk} {n : Nat} (hrest : ∀ d ∈ rest, c.batIdx ≠ d.batIdx)
    (hheader : (w.wrote r c src).header = rotatedHeader^[n] w.header) :
    (w.wrote r c src).rotations rest = w.rotations rest ∧ ∀ d ∈ rest, (w.wrote r c src).target r d = w.target r d := by
  have hentry : ∀ d ∈ rest, (w.wrote r c src).bat[d.batIdx]? = w.bat[d.batIdx]? :=
    fun d hd => h.entry_wrote ht hi src (hrest d hd)
  refine ⟨?_,fun d hd => World.target_congr (hentry d hd)⟩
  unfold World.rotations
  rw [hheader]
  refine if_congr (noJournal_rotated _ _) rfl (List.countP_congr fun d hd => ?_)
  rw [decide_eq_true_iff,decide_eq_true_iff]
  exact World.absent_congr (hentry d hd)

def World.Turning (r : VhdxReader) (w : World) (n : Nat) (v : World) (cs : List BlockChunk) : Prop :=
  v.Headed ∧ v.SparesHeaders r cs ∧ ∃ j, v.header = rotatedHeader^[j] w.header ∧ j + v.rotations cs = n

theorem World.Turning.wrote {v : World} {rest : List BlockChunk} {src : Bytes} {n : Nat}
    (ht : World.Turning r w n v (c :: rest)) (h : v.Ready r) (htakes : v.Takes r c) (hi : c.batIdx < v.bat.length)
    (hlen : src.length = c.chunkLen) (hrest : ∀ d ∈ rest, c.batIdx ≠ d.batIdx)
    (hseq : w.header.sequenceNumber.toNat + n < 2^64) : World.Turning r w n (v.wrote r c src) rest := by
  obtain ⟨hheaded,hspares,j,hj,hcount⟩ := ht
  rw [World.rotations_cons] at hcount
  have hnow : v.header.sequenceNumber.toNat = w.header.sequenceNumber.toNat + j := by
    rw [hj]
    exact sequenceNumber_rotated (by omega)
  obtain ⟨hnext,hheader⟩ := hheaded.wrote h htakes hi hlen (hspares c List.mem_cons_self) (by omega)
  obtain ⟨hrotations,htargets⟩ := h.ahead_wrote htakes hi hrest hheader
  refine ⟨hnext,fun x hx => ?_,v.rotations [c] + j,?_,?_⟩
  · rw [htargets x hx]
    exact hspares x (List.mem_cons_of_mem _ hx)
  · rw [hheader,hj,← Function.iterate_add_apply]
  · rw [hrotations]
    omega

/-- So do all the pieces of a write, one rotation for each that is journalled. -/
theorem World.Headed.wroteAll {cs : List BlockChunk} {buf : Bytes} (hh : w.Headed) (h : w.Ready r)
    (ht : w.TakesAll r buf cs) (hfit : Fits r buf w.bat.length cs) (hapart : cs.Pairwise fun x y => x.batIdx ≠ y.batIdx)
    (hclear : w.SparesHeaders r cs) (hseq : w.header.sequenceNumber.toNat + w.rotations cs < 2^64) :
    (w.wroteAll r buf cs).Headed ∧ (w.wroteAll r buf cs).header = rotatedHeader^[w.rotations cs] w.header := by
  have hstart : World.Turning r w (w.rotations cs) w (cs ++ []) := by
    rw [List.append_nil]
    exact ⟨hh,hclear,0,rfl,Nat.zero_add _⟩
  have hturns : World.Turning r w (w.rotations cs) (w.wroteAll r buf cs) [] :=
    h.wroteAll_turns (fun v d rest hv htakes hi hd hne hturning => hturning.wrote hv htakes hi (length_slice hd) hne hseq)
      ht hfit (by rwa [List.append_nil]) hstart
  obtain ⟨hheaded,-,j,hj,hcount⟩ := hturns
  have hnone : (w.wroteAll r buf cs).rotations [] = 0 := by
    unfold World.rotations
    split_ifs <;> rfl
  rw [hnone,Nat.add_zero] at hcount
  exact ⟨hheaded,by rw [hj,hcount]⟩

end rotations

section announced
variable [Crc32c] {r : VhdxReader} {w w' : World} {d d' : Device} {s : ReaderState}

def World.LogInside (w : World) : Prop := ¬ noJournal w.header → oneMib ≤ w.header.logOffset.toNat ∧
  w.header.logOffset.toNat + w.header.logLength.toNat ≤ w.dev.size ∧ w.header.logLength.toNat % oneMib = 0

/-- A write moves the log nowhere. -/
theorem World.LogInside.keptByPieces : KeptByPieces r World.LogInside := by
  intro w c src h hlog ht hi
  have hsize : w.dev.size ≤ (w.wrote r c src).dev.size := by
    rw [h.size,(h.wrote ht).size]
    exact World.devSize_le_wrote ht src
  intro hn
  rcases h.header_wrote ht hi src with he | he <;> rw [he] at hn ⊢
  · obtain ⟨hlow,hend,hlen⟩ := hlog hn
    exact ⟨hlow,hend.trans hsize,hlen⟩
  · obtain ⟨hlow,hend,hlen⟩ := hlog hn
    exact ⟨hlow,hend.trans hsize,hlen⟩

/-- In every state that writes reach, a reader whose header is the one that is picked is anchored. -/
theorem headed_of_current (hopen : (openRwOnDevice d).on d = (.ok (r,s),d')) (hsmall : d.size < 2^64)
    (hreach : Reached r (s.start d') w) (hcurrent : w.Current) : w.Writable r ∧ w.Headed := by
  obtain ⟨writable,rc,hmay,hinner⟩ := Opens.inner (.inr hopen)
  obtain ⟨header,slot,chain,regions,hopened,hdev⟩ := openInner_inv hmay hinner
  have hanchored : (s.start d').Anchored := hdev ▸ hopened.anchored
  obtain ⟨hw,hlog⟩ := hreach.invariant (ready_of_opened hopen hsmall) (show (s.start d').LogInside from hanchored.log)
    World.LogInside.keptByPieces
  have hpick := World.current_iff.mp hcurrent
  refine ⟨hw,⟨⟨headerAt_of_picked hpick,fun x => ?_,hlog⟩,hpick⟩⟩
  rw [hw.ready.size]
  exact (Nat.add_le_add_right x.offset_le _).trans hw.ready.slots

/-- In every state that writes reach, a write whose pieces spare the header slots and whose rotations have numbers
left keeps the reader's header the one that is picked; and the data-write GUID in it is another one exactly where some
piece was journalled and the numbers of the rotations do not cancel. -/
theorem disk_announced_iff {o : Nat} {buf : Bytes} (hopen : (openRwOnDevice d).on d = (.ok (r,s),d'))
    (hsmall : d.size < 2^64) (hreach : Reached r (s.start d') w) (hcurrent : w.Current)
    (hclear : w.SparesHeaders r (blockChunks r o (o + buf.length)))
    (hseq : w.header.sequenceNumber.toNat + w.rotations (blockChunks r o (o + buf.length)) < 2^64)
    (hrun : (writeAt r o buf).run World.handle w = (.ok (),w')) :
    w'.Current ∧ (w'.header.dataWriteGuid ≠ w.header.dataWriteGuid ↔
      0 < w.rotations (blockChunks r o (o + buf.length)) ∧
      ¬ ComesBack w.header.dataWriteGuid w.header.sequenceNumber.toNat
      (w.rotations (blockChunks r o (o + buf.length)))) := by
  obtain ⟨hw,hheaded⟩ := headed_of_current hopen hsmall hreach hcurrent
  obtain ⟨front,rest,hcs,ht,hfit,rfl,hall⟩ := pieces_of_returned hw hrun (by intro h; cases h)
  obtain rfl := hall rfl
  rw [List.append_nil] at hcs
  have hapart : (blockChunks r o (o + buf.length)).Pairwise fun x y => x.batIdx ≠ y.batIdx := batIdx_apart o 0
  rw [hcs] at hapart hclear hseq ⊢
  obtain ⟨hnext,hheader⟩ := hheaded.wroteAll hw.ready ht hfit hapart hclear hseq
  refine ⟨World.current_iff.mpr hnext.current,?_⟩
  rw [hheader]
  generalize w.rotations front = n at *
  rcases Nat.eq_zero_or_pos n with rfl | hn
  · exact ⟨fun hne => absurd rfl hne,fun h => absurd h.1 (Nat.lt_irrefl 0)⟩
  · rw [ne_eq,rotated_eq_iff (f := Header.dataWriteGuid) (fun _ => rfl) hn hseq]
    exact (and_iff_right hn).symm

end announced

section oneLogged
variable [Crc32c] {seq : UInt64}

theorem oneLogged_current : ((oneLoggedState seq).start (oneLogged seq).device).Current := by
  have hpick := (oneLogged_valid seq).identified.picked
  exact World.current_iff.mpr hpick

omit [Crc32c] in
theorem oneLogged_absent [Crc32c] :
    ((oneLoggedState seq).start (oneLogged seq).device).Absent 0 := ⟨⟨.notPresent,0⟩,rfl,rfl⟩

theorem oneLogged_grants : ((oneLoggedState seq).start (oneLogged seq).device).Grants (oneLogged seq).reader 0 where
  growable := by simp [ReaderState.start,Build.device,Device.zeroed]
  pads := (by decide : 4194304 + (oneMib - 1) < 2^64)
  room := (by decide : clearLow (4194304 + (oneMib - 1)) oneMib + oneMib < 2^64)
  fits := (by decide : (3145728 + 0 * batEntrySize) % logSectorSize + 8 ≤ logSectorSize)

theorem oneLogged_writable : ((oneLoggedState seq).start (oneLogged seq).device).Writable (oneLogged seq).reader :=
  ready_of_opened (oneLogged_opensAs seq).opens (by rw [Build.size_device]; exact (by decide : 4194304 < 2^64))

/-- Its one block is allocated by the first write. -/
theorem oneLogged_writes (x : UInt8) : ∃ w', (writeAt (oneLogged seq).reader 0 [x]).run World.handle
    ((oneLoggedState seq).start (oneLogged seq).device) = (.ok (),w') := by
  have hw : ((oneLoggedState seq).start (oneLogged seq).device).Writable (oneLogged seq).reader := oneLogged_writable
  refine ⟨_,writeAt_of_takesAll hw.ready hw.covers hw.open_rw
    (.inr ⟨(by decide : 0 + 1 ≤ oneMib),(by decide : 0 + 1 < 2^64)⟩) ?_⟩
  rw [first_byte_piece]
  exact ⟨.inr ⟨oneLogged_absent,oneLogged_grants⟩,trivial⟩

end oneLogged

/-- The first write to an image with a first sequence number of five. -/
theorem disk_announced_oneLogged :
    letI := castagnoli
    ∃ w', (writeAt (oneLogged 5).reader 0 [1]).run World.handle ((oneLoggedState 5).start (oneLogged 5).device) = (.ok (),w') ∧
      w'.Current ∧ w'.header.dataWriteGuid ≠ (oneLogged 5).header.dataWriteGuid := by
  let := castagnoli
  obtain ⟨w',hrun⟩ := @oneLogged_writes castagnoli 5 1
  have hone : ((oneLoggedState 5).start (oneLogged 5).device).rotations [⟨0,0,0,1⟩] = 1 :=
    World.rotations_absent oneLogged_absent (oneLogged_logs 5)
  have hspares : ((oneLoggedState 5).start (oneLogged 5).device).SparesHeaders (oneLogged 5).reader [⟨0,0,0,1⟩] := by
    intro c hc x
    obtain rfl := List.mem_singleton.mp hc
    rw [World.Absent.target_eq oneLogged_absent]
    cases x
    · exact (by decide : (Span.mk (3145728 + 0 * batEntrySize) batEntrySize).Apart ⟨header1Offset,headerSize⟩)
    · exact (by decide : (Span.mk (3145728 + 0 * batEntrySize) batEntrySize).Apart ⟨header2Offset,headerSize⟩)
  rw [← first_byte_piece (oneLogged 5) 1] at hone hspares
  have hannounced := disk_announced_iff (oneLogged_opensAs 5).opens
    (by rw [Build.size_device]; exact (by decide : 4194304 < 2^64)) .start
    oneLogged_current hspares (by rw [hone]; decide) hrun
  rw [hone] at hannounced
  refine ⟨w',hrun,hannounced.1,hannounced.2.mpr ⟨Nat.one_pos,fun hback => ?_⟩⟩
  exact absurd hback.1 (by decide : ¬ (5 % 2 = 1 ∧ 1 % 4 = 0 ∨ 5 = 0 ∧ 1 % 4 = 3))

def oneStored : Build :=
  { oneLogged 5 with size := 5 * 1024 * 1024, body := [(3 * 1024 * 1024,toLE 8 (presentRaw (4 * 1024 * 1024)))] }

section oneStored
variable [Crc32c]

private theorem oneStored_valid : oneStored.Valid 1 where
  body := by simp [oneStored,oneMib]
  meta_low := show oneMib ≤ 2097152 by decide
  meta_high := show 2097152 + metadataRegionSize ≤ 5242880 by decide
  bat_high := show 3145728 + 8 ≤ 5242880 by decide
  bat_len := show 8 < 2^32 by decide
  size := show 5242880 < 2^64 by decide
  virtualSize := show oneMib < 2^64 by decide
  version := rfl
  logVersion := rfl
  logRegion := validateLogRegion_of (show 1048576 % oneMib = 0 by decide) (show 1048576 % oneMib = 0 by decide)
    (show oneMib ≤ 1048576 by decide) (show 1048576 + 1048576 < 2^64 by decide)
      (show 1048576 + 1048576 ≤ 5242880 by decide)
  clear := (oneLogged_valid 5).clear
  covers := show batRegionCoversTheDisk 8 oneMib oneMib 4096 = .ok 1 by decide
  entries := show 1 * batEntrySize ≤ 8 by decide

def oneStoredState : ReaderState := ⟨5242880,oneStored.header,.one,[⟨.fullyPresent,4194304⟩]⟩

theorem oneStored_opens : (openRwOnDevice oneStored.device).on oneStored.device =
    (.ok (oneStored.reader,oneStoredState),oneStored.device) := by
  have hbat : decodeBat (oneStored.device.bytes oneStored.batOffset (1 * batEntrySize)) = [⟨.fullyPresent,4194304⟩] := by
    have hdev : oneStored.device.bytes oneStored.batOffset (1 * batEntrySize) = _ :=
      Build.bytes_device (show oneMib ≤ 3145728 by decide)
        (.inr (show 2097152 + metadataRegionSize ≤ 3145728 by decide))
    have hput := Device.bytes_put_same (d := Device.zeroed 5242880) (o := 3145728) (b := toLE 8 (presentRaw 4194304))
      (by rw [length_toLE]; decide)
    rw [length_toLE] at hput
    rw [hdev]
    exact (congrArg decodeBat hput).trans (by decide)
  have := (oneStored_valid.opensAs (b := oneStored) (by simp [isZeroGuid,oneStored,oneLogged,Guid.zero,zeros])).opens
  rwa [hbat] at this

theorem oneStored_writable : (oneStoredState.start oneStored.device).Writable oneStored.reader :=
  ready_of_opened oneStored_opens (by rw [Build.size_device]; exact (by decide : 5242880 < 2^64))

theorem oneStored_present : (oneStoredState.start oneStored.device).Present 0 4194304 := rfl

private theorem oneStored_current : (oneStoredState.start oneStored.device).Current := by
  have hpick := oneStored_valid.identified.picked
  exact World.current_iff.mpr hpick

private theorem oneStored_headed : (oneStoredState.start oneStored.device).Headed :=
  (headed_of_current oneStored_opens (by rw [Build.size_device]; exact (by decide : 5242880 < 2^64)) .start
    oneStored_current).2

private theorem oneStored_byte : (oneStoredState.start oneStored.device).dev.byte 4194304 = 0 := by
  have hbytes : oneStored.device.bytes 4194304 1 = (Device.zeroed 5242880).bytes 4194304 1 := by
    refine (Build.bytes_device (show oneMib ≤ 4194304 by decide)
      (.inr (show 2097152 + metadataRegionSize ≤ 4194304 by decide))).trans ?_
    exact Device.bytes_put_of_disjoint (.inr (by rw [length_toLE]; decide))
  exact Device.byte_of_bytes hbytes le_rfl (by decide : 4194304 < 4194304 + 1)

end oneStored

theorem SlotsKept.put {w : World} {off : Nat} {bs : Bytes} (h : oneMib ≤ off) :
    SlotsKept w { w with dev := w.dev.put off bs } :=
  ⟨rfl,rfl,le_rfl,fun x => Device.bytes_put_of_disjoint (.inl (x.offset_low.trans h))⟩

/-- A byte written where the first block is becomes the first byte of the disk. -/
private theorem disk_first_byte {b : Build} {w : World} {off : Nat} (hp : w.Present 0 off) (hin : off + 1 ≤ w.dev.size)
    (x : UInt8) :
    w.disk b.reader 0 = w.dev.byte off ∧ ({ w with dev := w.dev.put off [x] } : World).disk b.reader 0 = x := by
  have hblock : batIdxOf b.reader 0 = 0 := (by decide : dataBatIndex (0 / oneMib) 4096 = 0)
  have hplace : 0 % b.reader.blockSize = 0 := Nat.zero_mod _
  have hp' : World.Present { w with dev := w.dev.put off [x] } 0 off := hp
  rw [World.disk,World.disk,hblock,hplace,hp.blockByte,hp'.blockByte]
  exact ⟨rfl,Device.byte_put_inside hin Nat.one_pos⟩

/-- A write to a block that is there changes the disk, and the header that is picked stays the one there was. -/
theorem disk_changed_unannounced :
    letI := castagnoli
    (openRwOnDevice oneStored.device).on oneStored.device = (.ok (oneStored.reader,oneStoredState),oneStored.device) ∧
    ∃ w', (writeAt oneStored.reader 0 [1]).run World.handle (oneStoredState.start oneStored.device) = (.ok (),w') ∧
      (oneStoredState.start oneStored.device).disk oneStored.reader 0 = 0 ∧ w'.disk oneStored.reader 0 = 1 ∧
      (oneStoredState.start oneStored.device).Current ∧ w'.Current ∧
      w'.header.dataWriteGuid = (oneStoredState.start oneStored.device).header.dataWriteGuid := by
  let := castagnoli
  have hopen := oneStored_opens
  have hw := oneStored_writable
  have hp := oneStored_present
  have hcurrent := oneStored_current
  have hheaded := oneStored_headed
  have hbyte := oneStored_byte
  have hin : 4194304 + 1 ≤ (oneStoredState.start oneStored.device).devSize := (by decide : 4194304 + 1 ≤ 5242880)
  generalize oneStoredState.start oneStored.device = w at hw hp hcurrent hheaded hbyte hin ⊢
  obtain ⟨hbefore,hafter⟩ := disk_first_byte (b := oneStored) hp (by rw [hw.ready.size]; exact hin) 1
  exact ⟨hopen,_,writeAt_first_byte hw hp hin (by decide) 1,hbefore.trans hbyte,hafter,hcurrent,
    World.current_iff.mpr (hheaded.kept (.put (by decide))).current,rfl⟩

end ImgVhdx
