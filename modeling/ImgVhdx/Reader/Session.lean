import ImgVhdx.Reader.Compose
import ImgVhdx.Reader.Container
import ImgVhdx.Reader.Housed
import ImgVhdx.Reader.Panics
import ImgVhdx.Reader.Pending

/-! What writes one after the other keep of a sound image: its layout, the BAT on disk, the header that is picked, and
a log that holds at most the last entry, whose sector is in place. -/
namespace ImgVhdx
open Lib ReaderProg

def World.Stored (r : VhdxReader) (w : World) : Prop :=
  ∀ j < w.bat.length, w.bat[j]? = some (BatEntry.fromU64 (ofLE (w.dev.bytes (entryOffset r j) batEntrySize)))

/-- The log since `w0`: as it was, or with an entry over its front that moved the header on, and whose one sector is
where it belongs. -/
inductive World.LogState [Crc32c] (r : VhdxReader) (l : Layout) (w0 w : World) : Prop
  | untouched (header : w.header = w0.header)
      (same : w.dev.bytes l.log.start l.log.len = w0.dev.bytes l.log.start l.log.len)
  | fronted (h : Header) (n i : Nat) (s : Sector) (header : w.header = rotatedHeader h) (journals : ¬ noJournal h)
      (later : w0.header.sequenceNumber.toNat < w.header.sequenceNumber.toNat) (inside : n ≤ w.devSize)
      (entry : i < w.bat.length)
      (fits : EntryFits r i) (room : sectorOffset r i + logSectorSize ≤ w.devSize)
      (log : w.dev.bytes l.log.start l.log.len = splice (w0.dev.bytes l.log.start l.log.len) 0
        (journalEntry h n (sectorOffset r i) s))
      (sector : w.dev.bytes (sectorOffset r i) logSectorSize = s.1)

/-- The sequence number there would be with a block allocated for every entry that has none. -/
def World.number (w : World) : Nat := w.header.sequenceNumber.toNat + w.bat.countP fun e => e.state.zeroFill

section blocks
variable {r : VhdxReader} {l : Layout} {w : World} {c : BlockChunk} {i off n : Nat} {bat : List BatEntry}

/-- A block past the end of a sound file is clear of all that is in it. -/
private theorem SoundBat.set_tail (h : SoundBat r l n bat) (hn : n ≤ off) (hclear : l.Clear (blockSpan r off)) :
    SoundBat r l (off + r.blockSize) (bat.set i ⟨.fullyPresent,off⟩) := by
  refine (h.mono (hn.trans (Nat.le_add_right _ _))).set le_rfl hclear fun e he hd => ?_
  have hin := h.inside e he hd
  exact (min_le_left _ _).trans (le_max_of_le_right (hin.trans hn))

theorem World.Present.mem (h : w.Present i off) : (⟨.fullyPresent,off⟩ : BatEntry) ∈ w.bat := List.mem_of_getElem? h

/-- A block that is allocated is one less to allocate. -/
theorem World.Absent.countP_set (ha : w.Absent i) (hi : i < w.bat.length) :
    ((w.bat.set i ⟨.fullyPresent,off⟩).countP fun e => e.state.zeroFill) =
    (w.bat.countP fun e => e.state.zeroFill) - 1 := by
  obtain ⟨e,he,hz⟩ := ha
  obtain rfl := Option.some.inj ((List.getElem?_eq_getElem hi).symm.trans he)
  rw [List.countP_set hi,hz]
  rfl

/-- What is written into a block that is there lies in it. -/
private theorem World.Present.target_within (h : w.Present c.batIdx off) (hb : c.inBlock + c.chunkLen ≤ r.blockSize) :
    (blockSpan r off).start ≤ (w.target r c).start ∧ (w.target r c).stop ≤ (blockSpan r off).stop := by
  rw [h.target_eq]
  unfold blockSpan Span.stop
  dsimp only
  omega

end blocks
section session
variable [Crc32c] {r : VhdxReader} {l : Layout} {w w0 : World} {c : BlockChunk} {src : Bytes}

/-- What holds of every state a session of writes reaches from `w0`. -/
structure World.Session (r : VhdxReader) (l : Layout) (w0 w : World) : Prop where
  steps : Relation.ReflTransGen (ContainerStep r l) w0 w
  placed : w.Placed r l
  grown : w0.devSize ≤ w.devSize
  entries : w.bat.length = w0.bat.length
  sound : SoundBat r l w.devSize w.bat
  megabytes : ∀ e ∈ w.bat, oneMib ∣ e.fileOffset
  stored : w.Stored r
  headed : w.Headed
  rotated : ∃ n, w.header = rotatedHeader^[n] w0.header
  number : w.number ≤ w0.number
  log : World.LogState r l w0 w

structure World.Turn (r : VhdxReader) (w : World) (c : BlockChunk) (src : Bytes) : Prop where
  ready : w.Ready r
  takes : w.Takes r c
  index : c.batIdx < w.bat.length
  length : src.length = c.chunkLen
  block : c.inBlock + c.chunkLen ≤ r.blockSize

omit [Crc32c] in
/-- A piece written into a block that is there is clear of the container. -/
private theorem SoundBat.clear_target (h : SoundBat r l w.devSize w.bat) (hb : c.inBlock + c.chunkLen ≤ r.blockSize)
    {off : Nat} (hp : w.Present c.batIdx off) : l.Clear (w.target r c) := fun part hpart =>
  (h.clear _ hp.mem rfl part hpart).inner (hp.target_within hb).1 (hp.target_within hb).2

/-- Either way it is clear of whatever is clear of the BAT. -/
private theorem World.Session.target_apart (h : World.Session r l w0 w) (ht : World.Turn r w c src) {part : Span}
    (hp : part ∈ l.parts) (hbat : part.Apart l.bat) : (w.target r c).Apart part := by
  rcases ht.takes with ⟨off,hpresent,-⟩ | ⟨ha,-⟩
  · exact h.sound.clear_target ht.block hpresent part hp
  · obtain ⟨hfrom,hto⟩ := h.placed.entry ht.index
    rw [ha.target_eq]
    exact hbat.symm.inner hfrom hto

omit [Crc32c] in
/-- The room a block is given is clear of the container. -/
private theorem World.Placed.clear_tail (h : w.Placed r l) (hi : c.batIdx < w.bat.length)
    (hn : w.devSize + (r.blockSize - 1) < 2^64) :
    l.Clear (blockSpan r (tailOffset r w.devSize)) := by
  intro part hp
  rw [Span.apart_iff]
  intro k hlo _ hfrom hto
  have hin := h.inside hi hp hfrom hto
  have hle := (tailOffset_spec hn).1
  have hlo' : tailOffset r w.devSize ≤ k := hlo
  omega

private theorem World.Session.sound_wrote (h : World.Session r l w0 w) (ht : World.Turn r w c src) :
    SoundBat r l (w.wrote r c src).devSize (w.wrote r c src).bat := by
  rcases ht.takes with ⟨off,hp,-⟩ | ⟨ha,hg⟩
  · rw [hp.wrote_eq]
    exact h.sound
  · rw [ha.devSize_wrote,ha.bat_wrote ht.ready hg ht.index]
    exact h.sound.set_tail (tailOffset_spec hg.pads).1 (h.placed.clear_tail ht.index hg.pads)

private theorem World.Session.megabytes_wrote (h : World.Session r l w0 w) (ht : World.Turn r w c src) :
    ∀ e ∈ (w.wrote r c src).bat, oneMib ∣ e.fileOffset := by
  rcases ht.takes with ⟨off,hp,-⟩ | ⟨ha,hg⟩
  · rw [hp.wrote_eq]
    exact h.megabytes
  · rw [ha.bat_wrote ht.ready hg ht.index]
    intro e he
    rcases List.mem_or_eq_of_mem_set he with he | rfl
    · exact h.megabytes e he
    · exact r.oneMib_dvd.trans (tailOffset_spec hg.pads).2.1

omit [Crc32c] in
/-- What is clear of the log and of the first megabyte is aside. -/
theorem World.Placed.aside_of_apart (h : w.Placed r l) {part : Span} {k : Nat} (hheader : part.Apart headerSection)
    (hlog : part.Apart l.log) (hn : ¬ noJournal w.header) (hlo : part.start ≤ k) (hhi : k < part.stop) : w.Aside k := by
  obtain ⟨hstart,hlen⟩ := h.front hn
  have hlow := w.slot.other.offset_low
  have hpast : ¬ k < 0 + oneMib := Span.apart_iff.mp hheader k hlo hhi (Nat.zero_le _)
  have hoff : ¬ (l.log.start ≤ k ∧ k < l.log.start + l.log.len) :=
    fun hin => Span.apart_iff.mp hlog k hlo hhi hin.1 hin.2
  unfold World.Aside
  omega

omit [Crc32c] in
/-- So an entry of the BAT is. -/
private theorem World.Placed.entry_aside (h : w.Placed r l) {j k : Nat} (hj : j < w.bat.length)
    (hn : ¬ noJournal w.header) (hlo : entryOffset r j ≤ k) (hhi : k < entryOffset r j + batEntrySize) : w.Aside k := by
  obtain ⟨hfrom,hto⟩ := h.entry hj
  have hheader : (Span.mk (entryOffset r j) batEntrySize).Apart headerSection := h.headerBat.symm.inner hfrom hto
  exact h.aside_of_apart hheader (h.logBat.symm.inner hfrom hto) hn hlo hhi

/-- A piece leaves the entries of all other blocks on disk. -/
private theorem World.Session.entry_bytes_wrote (h : World.Session r l w0 w) (ht : World.Turn r w c src) {j : Nat}
    (hj : j < w.bat.length) (hne : w.Absent c.batIdx → c.batIdx ≠ j) :
    (w.wrote r c src).dev.bytes (entryOffset r j) batEntrySize = w.dev.bytes (entryOffset r j) batEntrySize := by
  obtain ⟨hfrom,hto⟩ := h.placed.entry hj
  refine ht.ready.bytes_wrote ht.takes ht.index ht.length (ht.ready.bat j hj) ?_ fun ha hn k hlo hhi =>
    h.placed.entry_aside hj hn hlo hhi
  rcases ht.takes with ⟨off,hp,-⟩ | ⟨ha,-⟩
  · have hbat : l.bat.Apart (w.target r c) := (h.sound.clear_target ht.block hp l.bat (by simp [Layout.parts])).symm
    have hentry : (Span.mk (entryOffset r j) batEntrySize).Apart (w.target r c) := hbat.inner hfrom hto
    exact hentry.symm
  · have hij := hne ha
    rw [ha.target_eq]
    unfold Span.Apart entryOffset Span.stop
    rw [show batEntrySize = 8 from rfl]
    dsimp only
    omega

/-- The entries of other blocks are left as they are, and the block's own comes to name it. -/
private theorem World.Session.stored_wrote (h : World.Session r l w0 w) (ht : World.Turn r w c src) :
    (w.wrote r c src).Stored r := by
  intro j hj
  rw [ht.ready.length_wrote ht.takes ht.index src] at hj
  by_cases hown : w.Absent c.batIdx ∧ c.batIdx = j
  swap
  · have hother : w.Absent c.batIdx → c.batIdx ≠ j := fun ha he => hown ⟨ha,he⟩
    rw [h.entry_bytes_wrote ht hj hother,← h.stored j hj]
    rcases ht.takes with ⟨off,hp,-⟩ | ⟨ha,-⟩
    · rw [hp.wrote_eq]
    · exact ht.ready.entry_wrote ht.takes ht.index src (hother ha)
  · obtain ⟨ha,rfl⟩ := hown
    have hg := ha.grants ht.takes
    obtain ⟨hle,hdvd,-⟩ := tailOffset_spec hg.pads
    have hroom := hg.room
    have hblock := r.blockSize_pos
    have hentry : (w.wrote r c src).dev.bytes (entryOffset r c.batIdx) batEntrySize =
        toLE 8 (presentRaw (tailOffset r w.devSize)) := by
      rw [ha.wrote_eq]
      refine (Device.bytes_put_of_disjoint (.inl ?_)).trans (World.word_granted ht.ready hg hj)
      have := ht.ready.bat _ hj
      have h8 : batEntrySize = 8 := rfl
      omega
    rw [hentry,ofLE_toLE (presentRaw_lt (r.oneMib_dvd.trans hdvd) (by omega)),
      fromU64_presentRaw (r.oneMib_dvd.trans hdvd) (by omega)]
    exact ha.present_wrote ht.ready hg hj

private theorem World.Session.headed_wrote (h : World.Session r l w0 w) (ht : World.Turn r w c src)
    (hseq : w.header.sequenceNumber.toNat + w.rotations [c] < 2^64) :
    (w.wrote r c src).Headed ∧ (w.wrote r c src).header = rotatedHeader^[w.rotations [c]] w.header := by
  refine h.headed.wrote ht.ready ht.takes ht.index ht.length (fun x => ?_) hseq
  have hheader : headerSection.Apart (w.target r c) := (h.target_apart ht List.mem_cons_self h.placed.headerBat).symm
  have hslot : (Span.mk x.offset headerSize).Apart (w.target r c) :=
    hheader.inner (Nat.zero_le _) (x.offset_low.trans (Nat.zero_add oneMib).ge)
  exact hslot.symm

/-- A piece that is not journalled leaves the log. -/
private theorem World.Session.log_bytes_wrote (h : World.Session r l w0 w) (ht : World.Turn r w c src)
    (hskip : ¬ (w.Absent c.batIdx ∧ ¬ noJournal w.header)) :
    (w.wrote r c src).dev.bytes l.log.start l.log.len = w.dev.bytes l.log.start l.log.len := by
  rcases h.placed.logInside with hlen | hin
  · rw [hlen]
    rfl
  · exact ht.ready.bytes_wrote ht.takes ht.index ht.length hin
      (h.target_apart ht (by simp [Layout.parts]) h.placed.logBat)
      fun ha hn => absurd ⟨ha,hn⟩ hskip

omit [Crc32c] in
/-- The sector of an entry is clear of the log. -/
theorem World.Placed.sector_apart_log {i : Nat} (h : w.Placed r l) (hi : i < w.bat.length)
    (hsmall : entryOffset r i < 2^64) (hf : EntryFits r i) (hn : ¬ noJournal w.header) :
    (Span.mk (sectorOffset r i) logSectorSize).Apart l.log := by
  have hmib : logSectorSize ∣ oneMib := by decide
  obtain ⟨hfrom,hto⟩ := h.entry hi
  obtain ⟨-,hlen⟩ := h.front hn
  obtain ⟨halign,hwhole⟩ := h.logAligned (by omega)
  have hentry : (Span.mk (entryOffset r i) batEntrySize).Apart l.log := h.logBat.symm.inner hfrom hto
  exact sector_apart_of_entry (hmib.trans halign) (hmib.trans hwhole) hsmall hf hentry

omit [Crc32c] in
/-- And of the first megabyte. -/
theorem World.Placed.sector_apart_header {i : Nat} (h : w.Placed r l) (hi : i < w.bat.length)
    (hsmall : entryOffset r i < 2^64) (hf : EntryFits r i) :
    (Span.mk (sectorOffset r i) logSectorSize).Apart headerSection := by
  obtain ⟨hfrom,hto⟩ := h.entry hi
  have hentry : (Span.mk (entryOffset r i) batEntrySize).Apart headerSection := h.headerBat.symm.inner hfrom hto
  exact sector_apart_of_entry (Nat.dvd_zero _) (by decide) hsmall hf hentry

/-- What a piece writes into a block that is there is clear of every sector of the BAT. -/
private theorem World.Session.sector_apart_target {i off : Nat} (h : World.Session r l w0 w) (ht : World.Turn r w c src)
    (hi : i < w.bat.length) (hf : EntryFits r i) (hp : w.Present c.batIdx off) :
    (w.target r c).Apart ⟨sectorOffset r i,logSectorSize⟩ := by
  have hmib : logSectorSize ∣ oneMib := by decide
  obtain ⟨hfrom,hto⟩ := h.placed.entry hi
  have hbat : (blockSpan r off).Apart l.bat := h.sound.clear _ hp.mem rfl l.bat (by simp [Layout.parts])
  have hentry : (Span.mk (entryOffset r i) batEntrySize).Apart (blockSpan r off) := hbat.symm.inner hfrom hto
  have hsector := sector_apart_of_entry (p := blockSpan r off) (hmib.trans (h.megabytes _ hp.mem))
    (hmib.trans r.oneMib_dvd)
    (ht.ready.entry_lt hi) hf hentry
  exact hsector.symm.inner (hp.target_within ht.block).1 (hp.target_within ht.block).2

/-- One that is journalled lays its entry over the front of the log and moves the header on, and the entry's sector is
in place. -/
theorem World.Session.journalled_wrote (h : World.Session r l w0 w) (ht : World.Turn r w c src) (ha : w.Absent c.batIdx)
    (hn : ¬ noJournal w.header) : ∃ s : Sector, (w.wrote r c src).header = rotatedHeader w.header ∧
      (w.wrote r c src).dev.bytes l.log.start l.log.len = splice (w.dev.bytes l.log.start l.log.len) 0
        (journalEntry w.header (w.wrote r c src).devSize (sectorOffset r c.batIdx) s) ∧
      (w.wrote r c src).dev.bytes (sectorOffset r c.batIdx) logSectorSize = s.1 := by
  have hg := ha.grants ht.takes
  have hentry := ht.ready.entry_lt ht.index
  have htail := sector_le_tail (ht.ready.bat _ ht.index) hg.pads
  have hgrown := (tailOffset_spec hg.pads).1
  have hlen := (h.placed.front hn).2
  have hin : l.log.stop ≤ w.devSize := h.placed.logInside.resolve_left (by omega)
  -- the region as the room for the block left it
  have hkept : (w.extended r).dev.bytes l.log.start l.log.len = w.dev.bytes l.log.start l.log.len :=
    Device.bytes_congr fun k _ hhi => World.byte_extended_of_lt ht.ready hg.pads (hhi.trans_le hin)
  have hanchored : (w.extended r).Anchored := (h.headed.kept (ht.ready.slotsKept_extended hg.pads)).toAnchored
  obtain ⟨s,-,hwrote⟩ := ha.wrote_named hentry hg.fits src
  have hjournalled : (w.extended r).logEntry (sectorOffset r c.batIdx) s =
    (w.extended r).journalled (sectorOffset r c.batIdx) s := if_neg hn
  have hlaid : ((w.extended r).journalled (sectorOffset r c.batIdx) s).dev.bytes (w.extended r).header.logOffset.toNat
    (w.extended r).header.logLength.toNat = (w.extended r).logged (sectorOffset r c.batIdx) s :=
      hanchored.bytes_journalled hn
  have hstart : (w.extended r).header.logOffset.toNat = l.log.start := h.placed.log_start
  have hlog : (w.extended r).header.logLength.toNat = l.log.len := h.placed.log_len
  rw [World.logged,hstart,hlog,hkept] at hlaid
  have hsector := (h.placed.sector_apart_log ht.index hentry hg.fits hn).sides (show 0 < logSectorSize by decide) (by omega)
  have hsize : ((w.extended r).journalled (sectorOffset r c.batIdx) s).dev.size = tailOffset r w.devSize +
    r.blockSize := rfl
  have hheader : ((w.extended r).journalled (sectorOffset r c.batIdx) s).header = rotatedHeader w.header := rfl
  have hdev : ((w.extended r).journalled (sectorOffset r c.batIdx) s).devSize = (w.extended r).devSize := rfl
  rw [hjournalled] at hwrote
  rw [hwrote]
  generalize (w.extended r).journalled (sectorOffset r c.batIdx) s = v at *
  dsimp only
  refine ⟨s,hheader,?_,?_⟩
  · rw [hdev,Device.bytes_put_of_disjoint (.inl (hin.trans (hgrown.trans (Nat.le_add_right _ _)))),
      Device.bytes_put_of_disjoint ?_]
    · exact hlaid
    · rw [s.2]
      exact hsector.symm
  · have hput := Device.bytes_put_same (d := v.dev) (o := sectorOffset r c.batIdx) (b := s.1) (by rw [s.2,hsize]; omega)
    rw [Device.bytes_put_of_disjoint (.inl (htail.trans (Nat.le_add_right _ _)))]
    rwa [s.2] at hput

/-- The numbers do not run out while there is one for every block. -/
private theorem World.Session.numbered (h : World.Session r l w0 w) (hnum : w0.number < 2^64) (c : BlockChunk) :
    w.header.sequenceNumber.toNat + w.rotations [c] < 2^64 := by
  have hle := h.number
  unfold World.number at hle hnum
  by_cases hrot : w.Absent c.batIdx ∧ ¬ noJournal w.header
  · have := hrot.1.countP_pos
    rw [World.rotations_absent hrot.1 hrot.2]
    omega
  · rw [World.rotations_present hrot]
    omega

/-- A rotation takes the number of the block it is for. -/
private theorem World.Session.number_wrote (h : World.Session r l w0 w) (ht : World.Turn r w c src)
    (hnum : w0.number < 2^64) :
    (w.wrote r c src).number ≤ w.number := by
  have hseq := h.numbered hnum c
  obtain ⟨-,hheader⟩ := h.headed_wrote ht hseq
  unfold World.number
  rw [hheader,sequenceNumber_rotated hseq]
  rcases ht.takes with ⟨off,hp,-⟩ | ⟨ha,hg⟩
  · rw [World.rotations_present fun hrot => hrot.1.not_present hp,hp.wrote_eq]
    exact le_rfl
  · have hle : w.rotations [c] ≤ 1 := by
      unfold World.rotations
      split_ifs
      · exact Nat.zero_le _
      · exact List.countP_le_length
    have hpos := ha.countP_pos
    have hcount : ((w.bat.set c.batIdx ⟨.fullyPresent,tailOffset r w.devSize⟩).countP fun e => e.state.zeroFill) =
        (w.bat.countP fun e => e.state.zeroFill) - 1 := ha.countP_set ht.index
    rw [ha.bat_wrote ht.ready hg ht.index,hcount]
    omega

theorem World.LogState.later (h : World.LogState r l w0 w) :
    w0.header.sequenceNumber.toNat ≤ w.header.sequenceNumber.toNat := by
  cases h with
  | untouched header _ => rw [header]
  | fronted _ _ _ _ _ _ later => exact later.le

private theorem World.Session.log_wrote (h : World.Session r l w0 w) (ht : World.Turn r w c src)
    (hnum : w0.number < 2^64) :
    World.LogState r l w0 (w.wrote r c src) := by
  have hle := World.devSize_le_wrote ht.takes src
  have hlength := ht.ready.length_wrote ht.takes ht.index src
  by_cases hrot : w.Absent c.batIdx ∧ ¬ noJournal w.header
  · obtain ⟨ha,hn⟩ := hrot
    have hg := ha.grants ht.takes
    have hroom : sectorOffset r c.batIdx + logSectorSize ≤ (w.wrote r c src).devSize := by
      rw [ha.devSize_wrote]
      exact (sector_le_tail (ht.ready.bat _ ht.index) hg.pads).trans (Nat.le_add_right _ _)
    obtain ⟨s,hheader,hlog,hsector⟩ := h.journalled_wrote ht ha hn
    have hseq := h.numbered hnum c
    rw [World.rotations_absent ha hn] at hseq
    have hlater : w0.header.sequenceNumber.toNat < (w.wrote r c src).header.sequenceNumber.toNat := by
      rw [hheader]
      exact (Nat.lt_succ_of_le h.log.later).trans_eq (toNat_succ_seq hseq).symm
    refine .fronted w.header _ c.batIdx s hheader hn hlater le_rfl (by rw [hlength]; exact ht.index) hg.fits hroom
      (hlog.trans ?_) hsector
    cases h.log with
    | untouched _ same => rw [same]
    | fronted g n i t _ _ _ _ _ _ _ log _ =>
      -- both entries are of one length, so the later one covers the earlier
      have hregion := (h.placed.front hn).2
      rw [log,splice_splice_same (by rw [length_journalEntry,Device.length_bytes]; omega)
        (by rw [length_journalEntry,length_journalEntry])]
  · have hlog := h.log_bytes_wrote ht hrot
    have hheader := (World.header_wrote_of_skip (r := r) ht.takes hrot src).1
    cases h.log with
    | untouched header same => exact .untouched (hheader.trans header) (hlog.trans same)
    | fronted g n i s header journals later inside entry fits room log sector =>
      have hn : ¬ noJournal w.header := by rwa [header]
      have hpresent : ¬ w.Absent c.batIdx := fun ha => hrot ⟨ha,hn⟩
      refine .fronted g n i s (hheader.trans header) journals (by rwa [hheader]) (inside.trans hle)
        (by rwa [hlength]) fits (room.trans hle)
        (hlog.trans log) (Eq.trans ?_ sector)
      refine ht.ready.bytes_wrote ht.takes ht.index ht.length room ?_ fun ha => absurd ha hpresent
      rcases ht.takes with ⟨off,hp,-⟩ | ⟨ha,-⟩
      · exact h.sector_apart_target ht entry fits hp
      · exact absurd ha hpresent

/-- A piece of a write keeps all of it. -/
theorem World.Session.wrote (h : World.Session r l w0 w) (ht : World.Turn r w c src) (hnum : w0.number < 2^64) :
    World.Session r l w0 (w.wrote r c src) where
  steps := h.steps.trans (h.placed.steps_wrote ht.ready ht.takes ht.index ht.length fun off hp => by
    have hclear := h.sound.clear_target ht.block hp
    rwa [hp.target_eq] at hclear)
  placed := World.Placed.keptByPieces w c src ht.ready h.placed ht.takes ht.index
  grown := h.grown.trans (World.devSize_le_wrote ht.takes src)
  entries := (ht.ready.length_wrote ht.takes ht.index src).trans h.entries
  sound := h.sound_wrote ht
  megabytes := h.megabytes_wrote ht
  stored := h.stored_wrote ht
  headed := (h.headed_wrote ht (h.numbered hnum c)).1
  rotated := by
    obtain ⟨n,hn⟩ := h.rotated
    refine ⟨w.rotations [c] + n,?_⟩
    rw [(h.headed_wrote ht (h.numbered hnum c)).2,hn,← Function.iterate_add_apply]
  number := (h.number_wrote ht hnum).trans h.number
  log := h.log_wrote ht hnum

omit [Crc32c] in
/-- The pieces of a transfer lie in their blocks. -/
private theorem piece_within {stop u b : Nat} (hc : c ∈ blockChunksFrom r stop u b) :
    c.inBlock + c.chunkLen ≤ r.blockSize := by
  obtain ⟨v,-,-,rfl⟩ := exists_firstChunk hc
  have := Nat.mod_lt v r.blockSize_pos
  simp only [firstChunk]
  omega

/-- Writes that came back, one after the other, keep the session up. -/
theorem World.Session.reached (h : World.Session r l w0 w0) (hw : w0.Writable r) (hnum : w0.number < 2^64)
    (hreach : Reached r w0 w) :
    w.Writable r ∧ World.Session r l w0 w := by
  induction hreach with
  | start => exact ⟨hw,h⟩
  | @write w w' o buf x _ hrun hx ih =>
    obtain ⟨hw,hw0⟩ := ih
    obtain ⟨front,rest,hcs,ht,hfit,rfl,-⟩ := pieces_of_returned hw hrun hx
    have hapart : (blockChunksFrom r (o + buf.length) o 0).Pairwise fun x y => x.batIdx ≠ y.batIdx := batIdx_apart o 0
    rw [show blockChunksFrom r (o + buf.length) o 0 = front ++ rest from hcs] at hapart
    refine ⟨hw.wroteAll ht hfit,(hw.ready.wroteAll_turns
      (J := fun v cs => World.Session r l w0 v ∧ ∀ c ∈ cs, c.inBlock + c.chunkLen ≤ r.blockSize)
      (fun v c rest hv ht hi hc hne hJ => ?_) ht hfit hapart ⟨hw0,fun c hc => ?_⟩).1⟩
    · exact ⟨hJ.1.wrote ⟨hv,ht,hi,length_slice hc,hJ.2 c List.mem_cons_self⟩ hnum,fun d hd =>
        hJ.2 d (List.mem_cons_of_mem _ hd)⟩
    · rw [← hcs] at hc
      exact piece_within hc

omit [Crc32c] in
/-- The BAT as a list of the entries its region holds. -/
theorem World.stored_iff :
    w.Stored r ↔ w.bat = decodeBat (w.dev.bytes r.batRegionOff (w.bat.length * batEntrySize)) := by
  have hentry : ∀ j < w.bat.length, (decodeBat (w.dev.bytes r.batRegionOff (w.bat.length * batEntrySize)))[j]? =
      some (BatEntry.fromU64 (ofLE (w.dev.bytes (entryOffset r j) batEntrySize))) := by
    intro j hj
    have hroom : j * batEntrySize + batEntrySize ≤ w.bat.length * batEntrySize := by
      rw [← Nat.succ_mul]
      exact Nat.mul_le_mul_right _ hj
    rw [decodeBat,List.getElem?_map,Device.length_bytes,Nat.mul_div_cancel _ (by decide),List.getElem?_range hj]
    exact congrArg (fun b => some (BatEntry.fromU64 (ofLE b))) (Device.slice_bytes hroom)
  have hlen := length_decodeBat (b := w.dev.bytes r.batRegionOff (w.bat.length * batEntrySize)) Device.length_bytes
  constructor
  · intro h
    apply List.ext_getElem?
    intro j
    by_cases hj : j < w.bat.length
    · rw [h j hj,hentry j hj]
    · rw [List.getElem?_eq_none (by omega),List.getElem?_eq_none (by omega)]
  · intro h j hj
    rw [← hentry j hj,← h]

end session

section opened
variable [Crc32c] {r : VhdxReader} {l : Layout} {w : World} {d d' : Device} {s : ReaderState}

/-- What it takes for a session of writes to go as it should: an image laid out apart that open leaves with its
identifier and the header the reader holds, and a sequence number for each of its blocks. -/
structure SoundlyOpened (r : VhdxReader) (l : Layout) (d : Device) (s : ReaderState) (d' : Device) : Prop where
  opens : OpensAs d r s d' l
  small : d.size < 2^64
  apart : LaidApart s.header l.metadata l.bat
  sound : SoundBat r l s.devSize s.bat
  identifier : d'.bytes 0 8 = fileIdentifierSignature
  current : (s.start d').Current
  number : (s.start d').number < 2^64

theorem SoundlyOpened.session (h : SoundlyOpened r l d s d') : World.Session r l (s.start d') (s.start d') where
  steps := .refl
  placed := h.opens.placed h.apart
  grown := le_rfl
  entries := rfl
  sound := h.sound
  megabytes e he := by
    have hb : s.bat = _ := h.opens.started.1.bat
    change e ∈ s.bat at he
    rw [hb] at he
    exact megabytes_decodeBat he
  stored := World.stored_iff.mpr h.opens.started.1.bat
  headed := (headed_of_current h.opens.opens h.small .start h.current).2
  rotated := ⟨0,rfl⟩
  number := le_rfl
  log := .untouched rfl rfl

/-- So every state that writes reach is one of the session. -/
theorem SoundlyOpened.reached (h : SoundlyOpened r l d s d') (hreach : Reached r (s.start d') w) :
    w.Writable r ∧ World.Session r l (s.start d') w :=
    h.session.reached (ready_of_opened h.opens.opens h.small) h.number hreach

end opened
end ImgVhdx
