import ImgVhdx.Log.Growth
import ImgVhdx.Reader.Addressing
import ImgVhdx.Reader.Payloads
import ImgVhdx.Reader.Reached

/-! When a write panics. -/
namespace ImgVhdx
open Lib ReaderProg

namespace Checked

def blockChunksFrom (r : VhdxReader) (stop cursor bufPos : Nat) : Nat → Outcome Error (List BlockChunk)
  | 0 => .ok []
  | n+1 =>
    if cursor < stop then do
      let blockMask ← Outcome.sub r.blockSize 1
      let inBlock := cursor &&& blockMask
      let virtBlockIdx ← Outcome.div cursor r.blockSize
      let inBlockLeft ← Outcome.sub r.blockSize inBlock
      let left ← Outcome.sub stop cursor
      let chunkLen := min inBlockLeft left
      let batIdx ← dataBatIndex virtBlockIdx r.chunkRatio
      let next ← Outcome.u64 (cursor + chunkLen)
      let nextPos ← Outcome.u64 (bufPos + chunkLen)
      let rest ← blockChunksFrom r stop next nextPos n
      return { inBlock, batIdx, bufPos, chunkLen } :: rest
    else .ok []

/-- `write_at`; the loop over the pieces goes round at most once for every byte. -/
def writeAt [Crc32c] (r : VhdxReader) (offset : Nat) (buf : Bytes) : ReaderProg Unit :=
  if ¬ r.writable then .throw .readOnly
  else do
    let stop ← Prog.lift (transferEnd r offset buf.length)
    match stop with
    | none => return ()
    | some stop => do
      let chunks ← Prog.lift (blockChunksFrom r stop offset 0 (stop - offset + 1))
      Prog.forEach (writeChunk r buf) chunks
      devFlush

end Checked

section checked
variable {r : VhdxReader}

/-- Nothing overflows on the way to the pieces of a range that fits 64 bits. -/
private theorem checked_blockChunksFrom (hg : Geometry r.blockSize r.sectorSize)
    (hr : r.chunkRatio = chunkRatio r.blockSize r.sectorSize) {stop u b : Nat} (hstop : stop < 2^64)
    (hb : b + (stop - u) < 2^64) (n : Nat) (hn : stop - u < n) :
    Checked.blockChunksFrom r stop u b n = .ok (blockChunksFrom r stop u b) := by
  induction n generalizing u b with
  | zero => omega
  | succ n ih =>
    rw [Checked.blockChunksFrom]
    by_cases h : u < stop
    swap
    · rw [if_neg h,blockChunksFrom_of_le (by omega)]
    have hpos := r.blockSize_pos
    have hmod := Nat.mod_lt u hpos
    have hfirst := firstChunk_pos (r := r) (b := b) h
    have hle := firstChunk_le (r := r) (b := b) h
    have hindex : Checked.dataBatIndex (u / r.blockSize) r.chunkRatio = .ok (batIdxOf r u) := by
      rw [batIdxOf,hr]
      exact hg.checked_index (by omega)
    have hlen : min (r.blockSize - u % r.blockSize) (stop - u) = (firstChunk r stop u b).chunkLen := rfl
    rw [if_pos h,Outcome.sub_of_le hpos,Outcome.ok_bind,Outcome.div_of_pos hpos,Outcome.ok_bind,r.and_mask,
      Outcome.sub_of_le hmod.le,Outcome.ok_bind,Outcome.sub_of_le h.le,Outcome.ok_bind,hindex,Outcome.ok_bind,hlen,
      Outcome.u64_of_lt (by omega),Outcome.ok_bind,Outcome.u64_of_lt (by omega),Outcome.ok_bind,
        ih (by omega) (by omega),
      blockChunksFrom_of_lt h]
    rfl

/-- So the write is the one the other theorems are about. -/
private theorem checked_writeAt [Crc32c] (hg : Geometry r.blockSize r.sectorSize)
    (hr : r.chunkRatio = chunkRatio r.blockSize r.sectorSize) (o : Nat) (buf : Bytes) :
    Checked.writeAt r o buf = writeAt r o buf := by
  unfold Checked.writeAt writeAt
  by_cases hw : ¬ r.writable
  · rw [if_pos hw,if_pos hw]
  rw [if_neg hw,if_neg hw]
  by_cases hin : InRange r o buf.length
  swap
  · obtain ⟨e,he⟩ := transferEnd_refused hin
    rw [he]
    rfl
  rcases Nat.eq_zero_or_pos buf.length with h0 | h0
  · rw [transferEnd,if_pos h0]
    rfl
  obtain ⟨hend,h64⟩ := hin.resolve_left (by omega)
  rw [transferEnd_of_le hend h64 (by omega)]
  change (Prog.lift (Checked.blockChunksFrom r (o + buf.length) o 0 (o + buf.length - o + 1)) >>= fun chunks =>
    Prog.forEach (writeChunk r buf) chunks >>= fun _ => devFlush) = _
  rw [checked_blockChunksFrom hg hr h64 (by omega) _ (by omega)]
  rfl

end checked

section panics
variable {r : VhdxReader} {w w0 : World} {buf : Bytes}

/-- The blocks that are absent all fit between the file's end and half of what 64 bits can tell. -/
structure World.Room (r : VhdxReader) (w : World) : Prop where
  low : w.devSize ≤ 2^63
  left : tailOffset r w.devSize + (w.bat.countP fun e => e.state.zeroFill) * r.blockSize ≤ 2^63

private theorem tailOffset_le {n : Nat} (h : n + (r.blockSize - 1) < 2^64) :
    tailOffset r n ≤ n + (r.blockSize - 1) := by
  obtain ⟨k,-,hk,hb⟩ := r.blockSize_eq
  rw [tailOffset,hb,clearLow_pow (by rwa [hb] at h) (by omega)]
  exact Nat.div_mul_le_self ..

private theorem tailOffset_of_dvd {n : Nat} (h : n + (r.blockSize - 1) < 2^64) (hn : r.blockSize ∣ n) :
    tailOffset r n = n := by
  obtain ⟨k,-,hk,hb⟩ := r.blockSize_eq
  obtain ⟨m,rfl⟩ := hn
  have hpos := r.blockSize_pos
  rw [tailOffset,hb,clearLow_pow (by rwa [hb] at h) (by omega),← hb]
  have hdiv : (r.blockSize * m + (r.blockSize - 1)) / r.blockSize = m := by
    rw [Nat.mul_add_div hpos,Nat.div_eq_of_lt (by omega),Nat.add_zero]
  rw [hdiv,Nat.mul_comm]

theorem World.Absent.countP_pos {i : Nat} (ha : w.Absent i) : 0 < w.bat.countP fun e => e.state.zeroFill := by
  obtain ⟨e,he,hz⟩ := ha
  exact List.countP_pos_iff.mpr ⟨e,List.mem_of_getElem? he,hz⟩

theorem World.Room.sums (h : w.Room r) {i : Nat} (ha : w.Absent i) :
    w.devSize + (r.blockSize - 1) < 2^64 ∧ tailOffset r w.devSize + r.blockSize ≤ 2^63 := by
  obtain ⟨k,-,hk,hb⟩ := r.blockSize_eq
  have hbig : r.blockSize ≤ 2^28 := hb ▸ Nat.pow_le_pow_right (by decide) hk
  have hlow := h.low
  have hleft := h.left
  have := Nat.le_mul_of_pos_left r.blockSize ha.countP_pos
  omega

/-- With room for it, an allocation can only trip over its entry. -/
private theorem World.Room.overruns_iff (h : w.Room r) {i : Nat} (ha : w.Absent i) :
    w.Overruns r i ↔ ¬ EntryFits r i := by
  obtain ⟨h1,h2⟩ := h.sums ha
  unfold World.Overruns
  constructor
  · rintro (h | h | h)
    · omega
    · omega
    · exact h
  · exact fun hf => .inr (.inr hf)

variable [Crc32c]

/-- Each allocation takes one of the absent blocks. -/
theorem World.Room.keptByPieces : KeptByPieces r (World.Room r) := by
  rintro w c src hready hw (⟨off,hp,-⟩ | ⟨ha,hg⟩) hi
  · rw [hp.wrote_eq]
    exact ⟨hw.low,hw.left⟩
  · obtain ⟨hpads,hsum⟩ := hw.sums ha
    obtain ⟨-,hdvd,-⟩ := tailOffset_spec hpads
    have hbig := r.blockSize_range.2
    have hmax : maxBlockSize = 2^28 := rfl
    have htail : tailOffset r (tailOffset r w.devSize + r.blockSize) = tailOffset r w.devSize + r.blockSize :=
      tailOffset_of_dvd (by omega) (Nat.dvd_add hdvd (Nat.dvd_refl _))
    have hcount : ((w.bat.set c.batIdx ⟨.fullyPresent,tailOffset r w.devSize⟩).countP fun e => e.state.zeroFill) =
        (w.bat.countP fun e => e.state.zeroFill) - 1 := by
      obtain ⟨e,he,hz⟩ := ha
      obtain rfl := Option.some.inj ((List.getElem?_eq_getElem hi).symm.trans he)
      rw [List.countP_set hi,hz]
      rfl
    obtain ⟨m,hm⟩ := Nat.exists_eq_add_of_lt ha.countP_pos
    have hleft := hw.left
    rw [hm,Nat.zero_add,Nat.succ_mul] at hleft
    refine ⟨?_,?_⟩
    · rw [ha.devSize_wrote]
      exact hsum
    · rw [ha.devSize_wrote,ha.bat_wrote hready hg hi src,hcount,htail,hm,Nat.zero_add,Nat.add_sub_cancel]
      omega

/-- Of the pieces that are reached, in a file of `n` bytes, none needs a block whose BAT entry is across two sectors. -/
def World.WholeEntries (r : VhdxReader) (w : World) : Nat → List BlockChunk → Prop
  | _, [] => True
  | n, c :: rest =>
    (w.Absent c.batIdx → EntryFits r c.batIdx ∧ w.WholeEntries r (tailOffset r n + r.blockSize) rest) ∧
    ∀ off, w.Present c.batIdx off → off + c.inBlock + c.chunkLen ≤ n → w.WholeEntries r n rest

private theorem writeChunks_panics_iff {cs : List BlockChunk} (h : w.Ready r) (hroom : w.Room r)
    (hgrow : w.dev.growable = true) (hfit : Fits r buf w.bat.length cs)
    (hapart : cs.Pairwise fun x y => x.batIdx ≠ y.batIdx) (hsame : ∀ c ∈ cs, w.bat[c.batIdx]? = w0.bat[c.batIdx]?) :
    ((Prog.forEach (writeChunk r buf) cs).run World.handle w).1 ≠ .panic ↔ w0.WholeEntries r w.devSize cs := by
  induction cs generalizing w with
  | nil => exact ⟨fun _ => trivial,fun _ => nofun⟩
  | cons c rest ih =>
    obtain ⟨hi,hc,hb⟩ := hfit c List.mem_cons_self
    obtain ⟨hne,hrest⟩ := List.pairwise_cons.mp hapart
    have habsent : w0.Absent c.batIdx ↔ w.Absent c.batIdx := by
      unfold World.Absent
      rw [hsame c List.mem_cons_self]
    have hpresent : ∀ off, w0.Present c.batIdx off ↔ w.Present c.batIdx off := fun off => by
      unfold World.Present
      rw [hsame c List.mem_cons_self]
    rw [Prog.forEach_cons,Prog.run_bind,World.WholeEntries]
    simp only [habsent,hpresent]
    rcases writeChunk_cases h hi hc hb with ⟨ht,hrun⟩ | ⟨ht,hg,e,hrun⟩ | ⟨ha,hover,v,hrun,-⟩
    · rw [hrun]
      have hlen := h.length_wrote ht hi (slice buf c.bufPos c.chunkLen)
      have hbat : ∀ x ∈ rest, (w.wrote r c (slice buf c.bufPos c.chunkLen)).bat[x.batIdx]? = w0.bat[x.batIdx]? := fun x hx => by
        rw [← hsame x (List.mem_cons_of_mem _ hx)]
        rcases h.bat_wrote ht hi (slice buf c.bufPos c.chunkLen) with hb | hb
        · rw [hb]
        · rw [hb,List.getElem?_set_ne (hne x hx)]
      dsimp only
      rw [ih (h.wrote ht) (World.Room.keptByPieces w c _ h hroom ht hi) (World.growable_wrote.trans hgrow)
        (fun d hd => hlen ▸ hfit d (List.mem_cons_of_mem _ hd)) hrest hbat]
      rcases ht with ⟨off,hp,hin⟩ | ⟨ha,hg⟩
      · rw [hp.wrote_eq]
        refine ⟨fun hw => ⟨fun ha => absurd hp ha.not_present,fun _ _ _ => hw⟩,fun hw => hw.2 off hp hin⟩
      · rw [ha.devSize_wrote]
        exact ⟨fun hw => ⟨fun _ => ⟨hg.fits,hw⟩,fun _ hp => absurd hp ha.not_present⟩,fun hw => (hw.1 ha).2⟩
    · -- a refusal, so the piece is neither absent nor inside the file
      rw [hrun]
      have hno : ¬ w.Absent c.batIdx := fun ha => by
        rw [hg ha] at hgrow
        cases hgrow
      exact ⟨fun _ => ⟨fun ha => absurd ha hno,fun off hp hin => absurd (.inl ⟨off,hp,hin⟩) ht⟩,fun _ => nofun⟩
    · rw [hrun]
      exact ⟨fun hp => absurd rfl hp,fun hw => absurd (hw.1 ha).1 ((hroom.overruns_iff ha).mp hover)⟩

private theorem writeAt_panics_iff (h : w.Writable r) (hroom : w.Room r) (hgrow : w.dev.growable = true) (o : Nat) :
    ((writeAt r o buf).run World.handle w).1 ≠ .panic ↔
      (InRange r o buf.length → w.WholeEntries r w.devSize (blockChunks r o (o + buf.length))) := by
  unfold writeAt
  rw [if_neg (by simp [h.open_rw])]
  by_cases hin : InRange r o buf.length
  swap
  · obtain ⟨e,he⟩ := transferEnd_refused hin
    rw [he]
    exact ⟨fun _ hin' => absurd hin' hin,fun _ hp => (by cases hp)⟩
  by_cases hlen : buf.length = 0
  · have hnil : blockChunks r o (o + buf.length) = [] := by rw [hlen,blockChunks,blockChunksFrom_of_le (by omega)]
    rw [transferEnd,if_pos hlen,hnil]
    exact ⟨fun _ _ => trivial,fun _ hp => (by cases hp)⟩
  obtain ⟨hend,h64⟩ := hin.resolve_left hlen
  rw [Prog.run_bind_of_ok (Prog.run_lift_of_ok (transferEnd_of_le hend h64 hlen))]
  dsimp only
  rw [← writeChunks_panics_iff h.ready hroom hgrow (fits_blockChunks h.covers hin) (batIdx_apart _ _) (fun _ _ => rfl),
    Prog.run_bind]
  rcases (Prog.forEach (writeChunk r buf) (blockChunks r o (o + buf.length))).run World.handle w with ⟨x | e | _,w'⟩
  · exact ⟨fun _ _ hp => (by cases hp),fun _ hp => (by cases hp)⟩
  · exact ⟨fun _ _ hp => (by cases hp),fun _ hp => (by cases hp)⟩
  · exact ⟨fun hp _ => hp,fun hp => hp hin⟩

variable {d d' : Device} {s : ReaderState}

/-- A region's length is a 32-bit field. -/
private theorem RegionTable.lengths_of_parse {bytes : Bytes} {t : RegionTable} (hlen : regionTableSize ≤ bytes.length)
    (h : RegionTable.parse bytes = .ok t) : ∀ e ∈ t.entries, e.length < 2^32 := by
  intro e he
  rw [RegionTable.parse_of_le hlen] at h
  split_ifs at h
  rw [← Outcome.ok.inj h] at he
  obtain ⟨i,-,rfl⟩ := List.mem_map.mp he
  exact (ofLE_slice_lt _ _ 4).trans_eq (by norm_num)

private theorem regionsAt_lengths {n : Nat} {t : RegionTable} (h : regionsAt d n = .ok t) :
    ∀ e ∈ t.entries, e.length < 2^32 := by
  have hparse : ∀ off, tableAt d n off = some t → ∀ e ∈ t.entries, e.length < 2^32 := by
    intro off ht
    unfold tableAt at ht
    split_ifs at ht
    exact RegionTable.lengths_of_parse Device.length_bytes.ge (Outcome.value_eq_some.mp ht)
  unfold regionsAt at h
  split at h
  · next t' h1 =>
    cases h
    exact hparse _ h1
  · next t' _ h2 =>
    cases h
    exact hparse _ h2
  · cases h

/-- Replay makes the file no more than 2^56 bytes longer. -/
private theorem Replays.size_le {header : Header} {chain : List LogEntry} (h : Replays d header chain) :
    (d.replayed chain).size ≤ d.size + 2^56 := by
  have hcounted : (chain.map fun e => e.descriptors.length).sum * logDescriptorSize ≤ 2 * 2^32 := by
    have hp := h.pending
    unfold pendingChain at hp
    split_ifs at hp
    · have hsum := collectReplayChain_counted hp
      have hlog := header.logLength.toNat_lt
      rw [Device.length_bytes] at hsum
      exact hsum.trans (Nat.mul_le_mul_left _ hlog.le)
    · cases hp
      exact Nat.zero_le _
  have hle := allowedExtent_le d.size chain
  rw [Device.size_replayed]
  rw [show logDescriptorSize = 32 from rfl] at hcounted
  rw [show descriptorGrowth = 268435456 from rfl] at hle
  omega

theorem room_of_opened (h : (openRwOnDevice d).on d = (.ok (r,s),d')) (hsmall : d.size < 2^62) :
    (s.start d').Room r := by
  obtain ⟨writable,rc,hw,hinner⟩ := Opens.inner (.inr h)
  obtain ⟨header,slot,chain,regions,hopened,rfl⟩ := openInner_inv hw hinner
  have hsize : s.devSize ≤ d.size + 2^56 := by
    rw [(loadDisk_inv hopened.loads).2.1]
    exact hopened.replays.size_le
  have hlength : s.bat.length * batEntrySize < 2^32 := by
    obtain ⟨p,d1,-,hf⟩ := Prog.run_bind_eq_ok.mp hopened.loads
    obtain ⟨-,-,-,-,-,-,-,-,-,hbat⟩ := finishOpen_eq_ok hf
    obtain ⟨b,entries,hb,-,-,-,hentries,-,hdecode,-⟩ := readBat_eq_ok hbat
    have := (batRegionCoversTheDisk_eq_ok hentries r.chunkRatio_pos r.blockSize_pos).1
    rw [hdecode,length_decodeBat Device.length_bytes]
    exact lt_of_le_of_lt this (regionsAt_lengths hopened.table b (RegionTable.mem_of_find hb))
  have hbig := r.blockSize_range.2
  have hmax : maxBlockSize = 2^28 := rfl
  have hdev : ((s.start (d.opened header slot chain)).devSize) = s.devSize := rfl
  have hcount : ((s.start (d.opened header slot chain)).bat.countP fun e => e.state.zeroFill) ≤ 2^29 := by
    refine List.countP_le_length.trans ?_
    change s.bat.length ≤ _
    rw [show batEntrySize = 8 from rfl] at hlength
    omega
  have hblocks := Nat.mul_le_mul hcount hbig
  have htail : tailOffset r s.devSize ≤ s.devSize + (r.blockSize - 1) := tailOffset_le (by omega)
  refine ⟨?_,?_⟩
  · omega
  · rw [hdev]
    omega

private theorem geometry_of_opened (h : (openRwOnDevice d).on d = (.ok (r,s),d')) :
    Geometry r.blockSize r.sectorSize ∧ r.chunkRatio = chunkRatio r.blockSize r.sectorSize := by
  obtain ⟨writable,rc,-,hinner⟩ := Opens.inner (.inr h)
  obtain ⟨l,d1,header,slot,d2,p,d3,-,-,-,hf⟩ := openInner_eq_ok hinner
  obtain ⟨-,-,-,-,-,-,hsector,hratio,-,-⟩ := finishOpen_eq_ok hf
  exact ⟨⟨r.blockSize_eq,hsector⟩,hratio⟩

/-- What an open for writing hands a growing file of less than 2^62 bytes keeps room for every block, and grows. -/
theorem growing_kept : KeptByPieces r fun w => w.Room r ∧ w.dev.growable = true := by
  rintro w c src hready ⟨hroom,hgrow⟩ ht hi
  exact ⟨World.Room.keptByPieces w c src hready hroom ht hi,World.growable_wrote.trans hgrow⟩

/-- In every state that writes reach, a write to a device that grows, of less than 2^62 bytes at first, panics exactly
when it reaches an absent block whose BAT entry is not whole in one sector of the file. -/
theorem write_panics_iff (hopen : (openRwOnDevice d).on d = (.ok (r,s),d')) (hsmall : d.size < 2^62)
    (hgrow : d.growable = true) (hreach : Reached r (s.start d') w) (o : Nat) (buf : Bytes) :
    ((Checked.writeAt r o buf).run World.handle w).1 ≠ .panic ↔
      (InRange r o buf.length → w.WholeEntries r w.devSize (blockChunks r o (o + buf.length))) := by
  obtain ⟨hgeometry,hratio⟩ := geometry_of_opened hopen
  obtain ⟨l,hopens⟩ := exists_opensAs hopen
  obtain ⟨hw,hroom,hg⟩ := hreach.invariant (ready_of_opened hopen (by omega))
    ⟨room_of_opened hopen hsmall,hopens.started.2.1.trans hgrow⟩ growing_kept
  rw [checked_writeAt hgeometry hratio]
  exact writeAt_panics_iff hw hroom hg o

end panics

def batAt (k : Nat) : Build := { oneAbsent with batOffset := 2 * 1024 * 1024 + k }

section batAt
variable [Crc32c] {k : Nat}

omit [Crc32c] in
private theorem batAt_valid (hk : k ≤ 8192) : (batAt k).Valid 1 where
  body := by simp [batAt,oneAbsent]
  meta_low := le_refl oneMib
  meta_high := show oneMib + metadataRegionSize ≤ 3145728 by decide
  bat_high := show 2097152 + k + 8 ≤ 3145728 by omega
  bat_len := show 8 < 2^32 by decide
  size := show 3145728 < 2^64 by decide
  virtualSize := show oneMib < 2^64 by decide
  version := rfl
  logVersion := rfl
  logRegion := rfl
  clear := rfl
  covers := show batRegionCoversTheDisk 8 oneMib oneMib 4096 = .ok 1 by decide
  entries := show 1 * batEntrySize ≤ 8 by decide

private theorem batAt_opens (hk : k ≤ 8192) : (openRwOnDevice (batAt k).device).on (batAt k).device =
    (.ok ((batAt k).reader,oneAbsentState),(batAt k).device) := by
  have hbat : decodeBat ((batAt k).device.bytes (batAt k).batOffset (1 * batEntrySize)) = [⟨.notPresent,0⟩] := by
    have hdev : (batAt k).device.bytes (batAt k).batOffset (1 * batEntrySize) = _ := Build.bytes_device
      (show oneMib ≤ 2097152 + k from (by decide : oneMib ≤ 2097152).trans (Nat.le_add_right _ _))
      (.inr (show oneMib + metadataRegionSize ≤ 2097152 + k from
        (by decide : oneMib + metadataRegionSize ≤ 2097152).trans (Nat.le_add_right _ _)))
    rw [hdev,show (batAt k).body = [] from rfl,Device.putAll_nil,Device.bytes_zeroed,decodeBat_zeros]
    rfl
  have := ((batAt_valid hk).opensAs (b := batAt k) (by simp [isZeroGuid,batAt,oneAbsent,Guid.zero,zeros])).opens
  rwa [hbat] at this

end batAt

/-- An entry in one sector. -/
theorem write_without_panic :
    letI := castagnoli
    ((Checked.writeAt (batAt 4088).reader 0 [1]).run World.handle (oneAbsentState.start (batAt 4088).device)).1 ≠ .panic := by
  let := castagnoli
  refine (write_panics_iff (batAt_opens (by decide)) (by rw [Build.size_device]; decide)
    (by simp [Build.device,Device.zeroed]) .start 0 [1]).mpr
    fun _ => ?_
  rw [first_byte_piece]
  exact ⟨fun _ => ⟨by decide,trivial⟩,fun _ _ _ => trivial⟩

/-- And one that begins in the last four bytes of one. -/
theorem write_panics :
    letI := castagnoli
    (openRwOnDevice (batAt 4092).device).on (batAt 4092).device =
      (.ok ((batAt 4092).reader,oneAbsentState),(batAt 4092).device) ∧
      (batAt 4092).device.growable = true ∧ (batAt 4092).device.size < 2^62 ∧
      ((Checked.writeAt (batAt 4092).reader 0 [1]).run World.handle (oneAbsentState.start (batAt 4092).device)).1 = .panic := by
  let := castagnoli
  have hopen := batAt_opens (k := 4092) (by decide)
  have hgrow : (batAt 4092).device.growable = true := by simp [Build.device,Device.zeroed]
  have hsize : (batAt 4092).device.size < 2^62 := by
    rw [Build.size_device]
    decide
  have hw := ready_of_opened hopen (by omega)
  obtain ⟨hgeometry,hratio⟩ := geometry_of_opened hopen
  have hroom := room_of_opened hopen hsize
  have hbroken : ¬ EntryFits (batAt 4092).reader 0 := by decide
  refine ⟨hopen,hgrow,hsize,?_⟩
  by_contra hp
  rw [checked_writeAt hgeometry hratio] at hp
  have hwhole := (writeAt_panics_iff hw hroom hgrow 0).mp hp (by decide)
  rw [first_byte_piece] at hwhole
  exact hbroken (hwhole.1 ⟨_,rfl,rfl⟩).1

end ImgVhdx
