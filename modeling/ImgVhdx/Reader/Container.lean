import ImgVhdx.Reader.Landing
import Mathlib.Logic.Relation

/-! What guest writes leave of the container: the first megabyte, the log, the metadata and the BAT. -/
namespace ImgVhdx
open Lib ReaderProg

def Layout.SameBut (l : Layout) (d e : Device) (spans : List Span) : Prop :=
  ∀ part ∈ l.parts, ∀ k, part.start ≤ k → k < part.stop → (∀ s ∈ spans, k < s.start ∨ s.stop ≤ k) → e.byte k = d.byte k

/-- Bytes that no write has a reason to touch: those of the first megabyte that are in neither header slot, and the metadata. -/
def Layout.Fixed (l : Layout) (k : Nat) : Prop :=
  k < oneMib ∧ (∀ x : HeaderSlot, k < x.offset ∨ x.offset + headerSize ≤ k) ∨ l.metadata.start ≤ k ∧ k < l.metadata.stop

section
variable [Crc32c] {r : VhdxReader} {l : Layout} {w w' : World} {c : BlockChunk} {i k : Nat}

/-- What a write may do to the container: nothing, a journalled entry with the header's rotation, or the entry of a
block that is not there. -/
inductive ContainerStep (r : VhdxReader) (l : Layout) (w w' : World) : Prop
  | elsewhere (header : w'.header = w.header) (slot : w'.slot = w.slot) (bat : w'.bat = w.bat)
      (same : l.SameBut w.dev w'.dev [])
  | journalled (off : Nat) (s : Sector) (inLog : l.log.start = w.header.logOffset.toNat ∧ 8192 ≤ l.log.len)
      (eq : w' = w.journalled off s)
      (same : l.SameBut w.dev w'.dev [⟨w.header.logOffset.toNat,8192⟩,⟨w.slot.other.offset,headerSize⟩])
  | named (i off : Nat) (absent : w.Absent i)
      (inBat : l.bat.start ≤ entryOffset r i ∧ entryOffset r i + batEntrySize ≤ l.bat.stop)
      (header : w'.header = w.header) (slot : w'.slot = w.slot) (bat : w'.bat = w.bat.set i ⟨.fullyPresent,off⟩)
      (same : l.SameBut w.dev w'.dev [⟨entryOffset r i,batEntrySize⟩])

/-- Every piece that a write comes to, where its block is there, lands clear of the container. -/
def World.SparesContainer (r : VhdxReader) (l : Layout) : World → List BlockChunk → Prop
  | _, [] => True
  | w, c :: rest => w.Takes r c → (∀ off, w.Present c.batIdx off → l.Clear ⟨off + c.inBlock,c.chunkLen⟩) ∧
      World.SparesContainer r l
        { w with devSize := if w.Absent c.batIdx then tailOffset r w.devSize + r.blockSize else w.devSize } rest

structure World.Placed (r : VhdxReader) (l : Layout) (w : World) : Prop where
  logRegion : w.header.logRegion = l.log
  logAligned : l.log.len ≠ 0 → oneMib ∣ l.log.start ∧ oneMib ∣ l.log.len
  logInside : l.log.len = 0 ∨ l.log.stop ≤ w.devSize
  logHeader : headerSection.Apart l.log
  logBat : l.log.Apart l.bat
  headerBat : headerSection.Apart l.bat
  headerMetadata : headerSection.Apart l.metadata
  logMetadata : l.log.Apart l.metadata
  metadataBat : l.metadata.Apart l.bat
  metadataInside : l.metadata.stop ≤ w.devSize
  batInside : l.bat.stop ≤ w.devSize
  batStart : l.bat.start = r.batRegionOff
  batRoom : w.bat.length * batEntrySize ≤ l.bat.len

omit [Crc32c] in
theorem World.Placed.log_start (h : w.Placed r l) :
    w.header.logOffset.toNat = l.log.start := congrArg Span.start h.logRegion

omit [Crc32c] in
theorem World.Placed.log_len (h : w.Placed r l) : w.header.logLength.toNat = l.log.len := congrArg Span.len h.logRegion

omit [Crc32c] in
/-- The entries of the BAT lie in its region. -/
theorem World.Placed.entry (h : w.Placed r l) (hi : i < w.bat.length) :
    l.bat.start ≤ entryOffset r i ∧ entryOffset r i + batEntrySize ≤ l.bat.stop := by
  have hroom := h.batRoom
  have hstart := h.batStart
  have he : entryOffset r i = r.batRegionOff + i * batEntrySize := rfl
  have hstop : l.bat.stop = l.bat.start + l.bat.len := rfl
  have hnext : (i + 1) * batEntrySize ≤ w.bat.length * batEntrySize := Nat.mul_le_mul_right _ hi
  rw [Nat.succ_mul] at hnext
  rw [he,hstop,hstart]
  omega

omit [Crc32c] in
/-- With an entry in the BAT, all of the container is inside the file. -/
theorem World.Placed.inside (h : w.Placed r l) (hi : i < w.bat.length) {part : Span} (hp : part ∈ l.parts)
    (hlo : part.start ≤ k) (hhi : k < part.stop) : k < w.devSize := by
  obtain ⟨hfrom,hto⟩ := h.entry hi
  have hbat := h.batInside
  have h8 : batEntrySize = 8 := rfl
  have hstop : ∀ s : Span, s.stop = s.start + s.len := fun _ => rfl
  rw [hstop] at hhi hto hbat
  simp only [Layout.parts,List.mem_cons,List.not_mem_nil,or_false] at hp
  rcases hp with rfl | rfl | rfl | rfl
  · have hsides := h.headerBat.sides (show 0 < oneMib by decide) (by omega)
    change 0 + oneMib ≤ l.bat.start ∨ l.bat.start + l.bat.len ≤ 0 at hsides
    change k < 0 + oneMib at hhi
    omega
  · have := h.logInside
    rw [hstop] at this
    omega
  · have := h.metadataInside
    rw [hstop] at this
    omega
  · omega

omit [Crc32c] in
/-- The front of a log that is journalled into. -/
theorem World.Placed.front (h : w.Placed r l) (hn : ¬ noJournal w.header) :
    l.log.start = w.header.logOffset.toNat ∧ 8192 ≤ l.log.len := by
  rw [← h.logRegion]
  refine ⟨rfl,?_⟩
  by_contra hlt
  refine hn (.inr (.inr (UInt32.lt_iff_toNat_lt.mpr ?_)))
  change w.header.logLength.toNat < 8192
  have hlen : w.header.logRegion.len = w.header.logLength.toNat := rfl
  omega

omit [Crc32c] in
/-- The sector with an entry holds nothing of the log or of the first megabyte. -/
private theorem World.Placed.sector_aside (h : w.Placed r l) (hi : i < w.bat.length) (hsmall : entryOffset r i < 2^64)
    (hf : EntryFits r i) (hn : ¬ noJournal w.header) (hlo : sectorOffset r i ≤ k)
    (hhi : k < sectorOffset r i + logSectorSize) : w.Aside k := by
  have hmib : logSectorSize ∣ oneMib := by decide
  obtain ⟨hfrom,hto⟩ := h.entry hi
  obtain ⟨hstart,hlen⟩ := h.front hn
  obtain ⟨halign,hwhole⟩ := h.logAligned (by omega)
  have hentry : ∀ {part : Span}, part.Apart l.bat → (Span.mk (entryOffset r i) batEntrySize).Apart part :=
    fun hapart => Span.Apart.inner hapart.symm hfrom hto
  have hsector : (Span.mk (sectorOffset r i) logSectorSize).Apart l.log :=
    sector_apart_of_entry (hmib.trans halign) (hmib.trans hwhole) hsmall hf (hentry h.logBat)
  have hheader : (Span.mk (sectorOffset r i) logSectorSize).Apart headerSection :=
    sector_apart_of_entry (Nat.dvd_zero _) hmib hsmall hf (hentry h.headerBat)
  have hlow := w.slot.other.offset_low
  have hbelow := hsector.sides (show 0 < logSectorSize by decide) (by omega)
  have habove := hheader.sides (show 0 < logSectorSize by decide) (show 0 < oneMib by decide)
  change sectorOffset r i + logSectorSize ≤ l.log.start ∨ l.log.start + l.log.len ≤ sectorOffset r i at hbelow
  change sectorOffset r i + logSectorSize ≤ 0 ∨ 0 + oneMib ≤ sectorOffset r i at habove
  unfold World.Aside
  omega

omit [Crc32c] in
theorem World.Placed.extended (h : w.Placed r l) (hn : w.devSize + (r.blockSize - 1) < 2^64) :
    (w.extended r).Placed r l := by
  have hle : w.devSize ≤ (w.extended r).devSize := (tailOffset_spec hn).1.trans (Nat.le_add_right _ _)
  exact { h with
    logInside := h.logInside.imp id fun hin => hin.trans hle
    metadataInside := h.metadataInside.trans hle
    batInside := h.batInside.trans hle }

/-- Room at the end of the file. -/
theorem World.Placed.step_extended (hp : w.Placed r l) (h : w.Ready r) (hi : i < w.bat.length)
    (hn : w.devSize + (r.blockSize - 1) < 2^64) :
    ContainerStep r l w (w.extended r) :=
  .elsewhere rfl rfl rfl fun _ hpart _ hlo hhi _ => World.byte_extended_of_lt h hn (hp.inside hi hpart hlo hhi)

/-- An entry in the log. -/
private theorem World.Placed.steps_logEntry (hp : w.Placed r l) (off : Nat) (s : Sector) :
    Relation.ReflTransGen (ContainerStep r l) w (w.logEntry off s) := by
  by_cases hn : noJournal w.header
  · rw [World.logEntry,if_pos hn]
  · have hlog : w.logEntry off s = w.journalled off s := if_neg hn
    rw [hlog]
    refine .single (.journalled off s (hp.front hn) rfl fun _ _ k _ _ hout => ?_)
    rw [← hlog]
    exact World.byte_logEntry fun _ => ⟨hout _ List.mem_cons_self,hout _ (List.mem_cons_of_mem _ List.mem_cons_self)⟩

/-- One piece of a write, step by step. -/
theorem World.Placed.steps_wrote (hp : w.Placed r l) (h : w.Ready r) (ht : w.Takes r c) (hi : c.batIdx < w.bat.length)
    {src : Bytes} (hlen : src.length = c.chunkLen)
    (hclear : ∀ off, w.Present c.batIdx off → l.Clear ⟨off + c.inBlock,c.chunkLen⟩) :
    Relation.ReflTransGen (ContainerStep r l) w (w.wrote r c src) := by
  rcases ht with ⟨off,hpresent,-⟩ | ⟨ha,hg⟩
  · rw [hpresent.wrote_eq]
    refine .single (.elsewhere rfl rfl rfl fun part hpart k hlo hhi _ => Device.byte_put_of_outside ?_)
    have hapart := hclear off hpresent part hpart
    unfold Span.Apart Span.stop at hapart
    unfold Span.stop at hhi
    dsimp only at hapart
    omega
  have hentry := h.entry_lt hi
  have hroom : sectorOffset r c.batIdx + logSectorSize ≤ (w.extended r).dev.size :=
    (sector_le_tail (h.bat c.batIdx hi) hg.pads).trans (Nat.le_add_right _ _)
  have hextended := hp.extended hg.pads
  have hin := hp.entry hi
  obtain ⟨s,hs,hwrote⟩ := ha.wrote_named hentry hg.fits src
  rw [hwrote]
  have hlogged := hextended.steps_logEntry (sectorOffset r c.batIdx) s
  have hsame : ∀ k, (¬ noJournal w.header → w.Aside k) →
      ((w.extended r).logEntry (sectorOffset r c.batIdx) s).dev.byte k = (w.extended r).dev.byte k :=
    fun k haside => World.byte_logEntry haside
  have hbat : ((w.extended r).logEntry (sectorOffset r c.batIdx) s).bat = w.bat := World.bat_logEntry
  have hsize : ((w.extended r).logEntry (sectorOffset r c.batIdx) s).dev.size = (w.extended r).dev.size :=
    World.size_logEntry
  generalize (w.extended r).logEntry (sectorOffset r c.batIdx) s = logged at *
  -- the sector in its place, and in memory
  have hnamed : ContainerStep r l logged { logged with
      dev := logged.dev.put (sectorOffset r c.batIdx) s.1
      bat := w.bat.set c.batIdx ⟨.fullyPresent,tailOffset r w.devSize⟩ } := by
    refine .named c.batIdx (tailOffset r w.devSize) (ha.congr hbat) hin rfl rfl (by rw [hbat]) fun part hpart k hlo hhi hout => ?_
    by_cases hsector : sectorOffset r c.batIdx ≤ k ∧ k < sectorOffset r c.batIdx + logSectorSize
    · rw [hs]
      have hback := hsame k fun hn => hp.sector_aside hi hentry hg.fits hn hsector.1 hsector.2
      exact (Device.byte_put_spliceEntry hentry hg.fits (by rw [hsize]; exact hroom) (hout _ List.mem_cons_self)
        hback).trans hback.symm
    · exact Device.byte_put_of_outside (by rw [s.2]; omega)
  refine ((Relation.ReflTransGen.single (hp.step_extended h hi hg.pads)).trans hlogged).tail hnamed |>.tail ?_
  refine .elsewhere rfl rfl rfl fun part hpart k hlo hhi _ => Device.byte_put_of_outside (.inl ?_)
  have := hp.inside hi hpart hlo hhi
  have := (tailOffset_spec hg.pads).1
  omega

/-- The container stays where it is. -/
theorem World.Placed.keptByPieces : KeptByPieces r (World.Placed r l) := by
  intro w c src h hp ht hi
  have hle := World.devSize_le_wrote ht src
  have hlen := h.length_wrote ht hi src
  have hregion : (w.wrote r c src).header.logRegion = w.header.logRegion := by
    rcases h.header_wrote ht hi src with he | he <;> rw [he]
    rfl
  exact { hp with
    logRegion := hregion.trans hp.logRegion
    logInside := hp.logInside.imp id fun hin => hin.trans hle
    metadataInside := hp.metadataInside.trans hle
    batInside := hp.batInside.trans hle
    batRoom := by rw [hlen]; exact hp.batRoom }

omit [Crc32c] in
theorem World.Takes.congr (h : w'.Takes r c) (hsize : w'.devSize = w.devSize) (hgrow : w'.dev.growable = w.dev.growable)
    (hbat : w'.bat[c.batIdx]? = w.bat[c.batIdx]?) : w.Takes r c := by
  rcases h with ⟨off,hp,hle⟩ | ⟨ha,hg⟩
  · exact .inl ⟨off,hbat.symm.trans hp,hsize ▸ hle⟩
  · refine .inr ⟨(World.absent_congr hbat).mp ha,hgrow ▸ hg.growable,?_,?_,hg.fits⟩
    · exact hsize ▸ hg.pads
    · exact hsize ▸ hg.room

omit [Crc32c] in
/-- What is asked of the pieces to come is the file's length, whether it grows, and what the BAT says of their blocks. -/
theorem World.SparesContainer.congr {cs : List BlockChunk} (h : w.SparesContainer r l cs)
    (hsize : w'.devSize = w.devSize) (hgrow : w'.dev.growable = w.dev.growable)
    (hbat : ∀ d ∈ cs, w'.bat[d.batIdx]? = w.bat[d.batIdx]?) : w'.SparesContainer r l cs := by
  induction cs generalizing w w' with
  | nil => trivial
  | cons c rest ih =>
    intro ht
    have hc := hbat c List.mem_cons_self
    obtain ⟨hclear,hrest⟩ := h (ht.congr hsize hgrow hc)
    refine ⟨fun off hp => hclear off (hc.symm.trans hp),ih hrest ?_ hgrow fun d hd =>
      hbat d (List.mem_cons_of_mem _ hd)⟩
    simp only [World.absent_congr hc,hsize]

theorem World.Takes.devSize_wrote (ht : w.Takes r c) (src : Bytes) :
    (w.wrote r c src).devSize = if w.Absent c.batIdx then tailOffset r w.devSize + r.blockSize else w.devSize := by
  by_cases ha : w.Absent c.batIdx
  · rw [if_pos ha,ha.devSize_wrote]
  · obtain ⟨off,hp,-⟩ := ht.resolve_right fun h => ha h.1
    rw [if_neg ha,hp.wrote_eq]

/-- With these pieces to be written, the container as the steps so far have it. -/
structure World.Contains (r : VhdxReader) (l : Layout) (w0 w : World) (cs : List BlockChunk) : Prop where
  placed : w.Placed r l
  spares : w.SparesContainer r l cs
  steps : Relation.ReflTransGen (ContainerStep r l) w0 w

theorem World.Contains.wrote {w0 : World} {rest : List BlockChunk} {src : Bytes}
    (hc : World.Contains r l w0 w (c :: rest)) (h : w.Ready r) (ht : w.Takes r c) (hi : c.batIdx < w.bat.length)
    (hlen : src.length = c.chunkLen) (hne : ∀ d ∈ rest, c.batIdx ≠ d.batIdx) :
    World.Contains r l w0 (w.wrote r c src) rest where
  placed := World.Placed.keptByPieces w c src h hc.placed ht hi
  spares := (hc.spares ht).2.congr (ht.devSize_wrote src) World.growable_wrote fun d hd =>
    h.entry_wrote ht hi src (hne d hd)
  steps := hc.steps.trans (hc.placed.steps_wrote h ht hi hlen (hc.spares ht).1)

private theorem World.Placed.step_stopped (hp : w.Placed r l) (h : w.Ready r) (hi : i < w.bat.length)
    (hs : w.Stopped r w') : ContainerStep r l w w' := by
  rcases hs with rfl | ⟨hn,rfl⟩
  · exact .elsewhere rfl rfl rfl fun _ _ _ _ _ _ => rfl
  · exact hp.step_extended h hi hn

/-- One step leaves the fixed bytes as they were. -/
private theorem ContainerStep.byte_fixed {w0 : World} (hp : w0.Placed r l) (hstep : ContainerStep r l w w')
    (hk : l.Fixed k) :
    w'.dev.byte k = w.dev.byte k := by
  obtain ⟨part,hpart,hlo,hhi,hlog,hbat⟩ : ∃ part ∈ l.parts, part.start ≤ k ∧ k < part.stop ∧ part.Apart l.log ∧
    part.Apart l.bat := by
    rcases hk with ⟨hlow,-⟩ | ⟨hlo,hhi⟩
    · exact ⟨headerSection,List.mem_cons_self,Nat.zero_le _,by rwa [headerSection,Span.stop,Nat.zero_add],hp.logHeader,
        hp.headerBat⟩
    · exact ⟨l.metadata,by simp [Layout.parts],hlo,hhi,hp.logMetadata.symm,hp.metadataBat⟩
  have hslot : ∀ x : HeaderSlot, k < x.offset ∨ x.offset + headerSize ≤ k := by
    intro x
    rcases hk with ⟨-,hslots⟩ | ⟨hmeta,hend⟩
    · exact hslots x
    · have hapart := Span.apart_iff.mp hp.headerMetadata k (Nat.zero_le _)
      have hlow := x.offset_low
      refine .inr (hlow.trans (not_lt.mp fun hk => hapart ?_ hmeta hend))
      rwa [headerSection,Span.stop,Nat.zero_add]
  have hoff : ∀ {s t : Span}, part.Apart t → t.start ≤ s.start → s.stop ≤ t.stop → k < s.start ∨ s.stop ≤ k := by
    intro s t hapart hfrom hto
    by_contra hno
    rw [not_or,not_lt,not_le] at hno
    exact Span.apart_iff.mp hapart k hlo hhi (hfrom.trans hno.1) (hno.2.trans_le hto)
  cases hstep with
  | elsewhere _ _ _ same => exact same part hpart k hlo hhi fun s hs => absurd hs List.not_mem_nil
  | journalled off s inLog _ same =>
    refine same part hpart k hlo hhi
      (List.forall_mem_cons.mpr ⟨?_,List.forall_mem_cons.mpr ⟨hslot _,List.forall_mem_nil _⟩⟩)
    exact hoff hlog inLog.1.le (inLog.1 ▸ Nat.add_le_add_left inLog.2 _)
  | named i off _ inBat _ _ _ same =>
    exact same part hpart k hlo hhi (List.forall_mem_cons.mpr ⟨hoff hbat inBat.1 inBat.2,List.forall_mem_nil _⟩)

/-- And so does any number of them. -/
theorem byte_fixed_of_steps {w0 : World} (hp : w0.Placed r l) (hsteps : Relation.ReflTransGen (ContainerStep r l) w0 w)
    (hk : l.Fixed k) :
    w.dev.byte k = w0.dev.byte k := by
  induction hsteps with
  | refl => rfl
  | tail _ hstep ih => exact (hstep.byte_fixed hp hk).trans ih

section opened
variable {d d' : Device} {s : ReaderState}

/-- The container as an image that was opened has it. -/
theorem OpensAs.placed (h : OpensAs d r s d' l) (hlaid : LaidApart s.header l.metadata l.bat) :
    (s.start d').Placed r l := by
  obtain ⟨hstarted,-,-⟩ := h.started
  have hsize : (s.start d').devSize = d'.size := hstarted.size
  exact {
    logRegion := hstarted.logRegion
    logAligned := fun hn => by
      obtain ⟨-,hstart,hlen⟩ := hstarted.logPlace hn
      exact ⟨Nat.dvd_of_mod_eq_zero hstart,Nat.dvd_of_mod_eq_zero hlen⟩
    logInside := by rw [hsize]; exact hstarted.logInside
    logHeader := by
      by_cases hn : l.log.len = 0
      · exact (Span.Apart.of_empty hn).symm
      · exact (hstarted.logPlace hn).1
    logBat := hstarted.logBat
    headerBat := hlaid.header_bat
    headerMetadata := hlaid.header_metadata
    logMetadata := hstarted.logMetadata
    metadataBat := hlaid.metadata_bat
    metadataInside := by rw [hsize]; exact hstarted.metadataInside
    batInside := by rw [hsize]; exact hstarted.batInside
    batStart := hstarted.batStart
    batRoom := hstarted.batRoom }

/-- Where every block that was there when a write came to it lay clear of the container, a run of writes, and one more
whatever comes of it, changes the container by rotations of the header, journalled entries and entries for absent
blocks, and nothing else of it. -/
theorem container_kept {o : Nat} {buf : Bytes} {x : Outcome Error Unit} (hopen : OpensAs d r s d' l)
    (hsmall : d.size < 2^64) (hlaid : LaidApart s.header l.metadata l.bat)
    (hreach : ReachedBy (fun w o buf => InRange r o buf.length →
      w.SparesContainer r l (blockChunks r o (o + buf.length))) r (s.start d') w)
    (hmet : InRange r o buf.length → w.SparesContainer r l (blockChunks r o (o + buf.length)))
    (hrun : (writeAt r o buf).run World.handle w = (x,w')) :
    Relation.ReflTransGen (ContainerStep r l) (s.start d') w' ∧ ∀ k, l.Fixed k → w'.dev.byte k = d'.byte k := by
  have hplaced := hopen.placed hlaid
  obtain ⟨hw,hp,hsteps⟩ := hreach.turns
    (I := fun v => v.Placed r l ∧ Relation.ReflTransGen (ContainerStep r l) (s.start d') v)
      (J := World.Contains r l (s.start d'))
    (fun v o buf _ hin hv hspares => ⟨hv.1,hspares hin,hv.2⟩)
    (fun buf v c rest hv ht hi hc hne hcontains => hcontains.wrote hv ht hi (length_slice hc) hne)
    (fun v rest hcontains => ⟨hcontains.placed,hcontains.steps⟩) (ready_of_opened hopen.opens hsmall) ⟨hplaced,.refl⟩
  suffices hall : Relation.ReflTransGen (ContainerStep r l) (s.start d') w' from
    ⟨hall,fun k hk => byte_fixed_of_steps hplaced hall hk⟩
  by_cases hin : InRange r o buf.length
  swap
  · obtain ⟨e,he⟩ := writeAt_of_outOfRange hw hin
    obtain ⟨-,rfl⟩ := Prod.mk.inj (hrun.symm.trans he)
    exact hsteps
  obtain ⟨front,rest,hcs,ht,hfit,-,hend⟩ := pieces_of_run hw hrun
  have hapart : (blockChunks r o (o + buf.length)).Pairwise fun x y => x.batIdx ≠ y.batIdx := batIdx_apart o 0
  have hmet := hmet hin
  rw [hcs] at hapart hmet
  have hcontains : World.Contains r l (s.start d') (w.wroteAll r buf front) rest :=
    hw.ready.wroteAll_turns (fun v c rest hv ht hi hc hne hcontains => hcontains.wrote hv ht hi (length_slice hc) hne)
      ht hfit hapart
      ⟨hp,hmet,hsteps⟩
  rcases hend with ⟨-,rfl⟩ | ⟨-,c,-,-,hi,hstopped⟩
  · exact hcontains.steps
  · obtain ⟨hready,hlen⟩ := hw.ready.wroteAll ht hfit
    exact hcontains.steps.tail (hcontains.placed.step_stopped hready (by rw [hlen]; exact hi) hstopped)

end opened

end

def twoBlocksLayout : Layout := ⟨⟨0,0⟩,⟨oneMib,metadataRegionSize⟩,⟨2 * 1024 * 1024,16⟩⟩

private theorem twoBlocks_opensAs [Crc32c] {first second : Nat} (h1 : first < 256^8) (h2 : second < 256^8) :
    OpensAs (twoBlocks first second).device
    (twoBlocks first second).reader (twoBlocksState first second) (twoBlocks first second).device twoBlocksLayout := by
  have hopens := twoBlocks_valid.opensAs (b := twoBlocks first second) (by simp [isZeroGuid,twoBlocks,Guid.zero,zeros])
  rwa [twoBlocks_bat h1 h2] at hopens

private theorem twoBlocks_laidApart (first second : Nat) :
    LaidApart (twoBlocksState first second).header twoBlocksLayout.metadata twoBlocksLayout.bat where
  log_header := fun h => absurd rfl h
  log_metadata := fun h => absurd rfl h
  log_bat := fun h => absurd rfl h
  header_metadata := (by decide : headerSection.Apart ⟨oneMib,metadataRegionSize⟩)
  header_bat := (by decide : headerSection.Apart ⟨2 * 1024 * 1024,16⟩)
  metadata_bat := (by decide : (Span.mk oneMib metadataRegionSize).Apart ⟨2 * 1024 * 1024,16⟩)

private theorem halfStored_laidApart :
    LaidApart halfStoredState.header halfStoredLayout.metadata halfStoredLayout.bat where
  log_header := fun h => absurd rfl h
  log_metadata := fun h => absurd rfl h
  log_bat := fun h => absurd rfl h
  header_metadata := (by decide : headerSection.Apart ⟨oneMib,metadataRegionSize⟩)
  header_bat := (by decide : headerSection.Apart ⟨2 * 1024 * 1024,16⟩)
  metadata_bat := (by decide : (Span.mk oneMib metadataRegionSize).Apart ⟨2 * 1024 * 1024,16⟩)

/-- A byte to the block that is there, and one to the block that is not. -/
theorem container_kept_halfStored :
    letI := castagnoli
    ∃ w w', (writeAt halfStored.reader oneMib [1]).run World.handle (halfStoredState.start halfStored.device) = (.ok (),w) ∧
      (writeAt halfStored.reader 0 [2]).run World.handle w = (.ok (),w') ∧
      w'.bat = [⟨.fullyPresent,4194304⟩,⟨.fullyPresent,3145728⟩] ∧
      Relation.ReflTransGen (ContainerStep halfStored.reader halfStoredLayout)
        (halfStoredState.start halfStored.device) w' ∧
      ∀ k, halfStoredLayout.Fixed k → w'.dev.byte k = halfStored.device.byte k := by
  let := castagnoli
  have hopen := halfStored_opensAs
  have hsmall : halfStored.device.size < 2^64 := by
    rw [Build.size_device]
    decide
  have hstart := ready_of_opened hopen.opens hsmall
  have hp : (halfStoredState.start halfStored.device).Present (batIdxOf halfStored.reader oneMib) 3145728 :=
    (by decide : halfStoredState.bat[1]? = some ⟨.fullyPresent,3145728⟩)
  have hfirst := writeAt_present (b := [1]) hstart (.inr (by decide)) Nat.one_ne_zero (by decide) hp
    (by decide : 3145728 + oneMib % oneMib + 1 ≤ 4194304)
  generalize hw : ({ halfStoredState.start halfStored.device with dev := _ } : World) = w at hfirst
  have hreach : ReachedBy (fun w o buf => InRange halfStored.reader o buf.length →
      w.SparesContainer halfStored.reader halfStoredLayout (blockChunks halfStored.reader o (o + buf.length)))
        halfStored.reader
      (halfStoredState.start halfStored.device) w := by
    refine .write .start (fun _ => ?_) hfirst (fun h => by cases h)
    rw [blockChunks_within (n := ([1] : Bytes).length) Nat.one_ne_zero (by decide)]
    refine fun _ => ⟨fun off hoff => ?_,trivial⟩
    obtain rfl : off = 3145728 := congrArg BatEntry.fileOffset (Option.some.inj (hoff.symm.trans hp))
    exact (by decide : ∀ part ∈ halfStoredLayout.parts, (Span.mk (3145728 + oneMib % oneMib) 1).Apart part)
  have hwritable := (hreach.reached.invariant (I := fun _ => True) hstart trivial fun _ _ _ _ _ _ _ => trivial).1
  have ha : w.Absent (batIdxOf halfStored.reader 0) := by
    rw [← hw]
    exact ⟨⟨.notPresent,0⟩,rfl,rfl⟩
  have hg : w.Grants halfStored.reader (batIdxOf halfStored.reader 0) := by
    rw [← hw]
    exact ⟨by simp [ReaderState.start,Build.device,Device.zeroed],(by decide : 4194304 + (oneMib - 1) < 2^64),
      (by decide : clearLow (4194304 + (oneMib - 1)) oneMib + oneMib < 2^64),
      (by decide : (2097152 + 0 * batEntrySize) % logSectorSize + 8 ≤ logSectorSize)⟩
  have hsecond := writeAt_within (b := [2]) (o := 0) hwritable (.inr (by decide)) Nat.one_ne_zero (by decide) (.inr ⟨ha,hg⟩)
  refine ⟨w,_,hfirst,hsecond,?_,container_kept hopen hsmall halfStored_laidApart hreach (fun _ => ?_) hsecond⟩
  · have hi : batIdxOf halfStored.reader 0 < w.bat.length := by
      rw [← hw]
      decide
    refine (World.Absent.bat_wrote (c := ⟨_,_,_,_⟩) ha hwritable.ready hg hi [2]).trans ?_
    rw [← hw]
    change halfStoredState.bat.set (batIdxOf halfStored.reader 0)
      ⟨.fullyPresent,tailOffset halfStored.reader 4194304⟩ = _
    rw [(by decide : batIdxOf halfStored.reader 0 = 0),(by decide : tailOffset halfStored.reader 4194304 = 4194304)]
    rfl
  · rw [blockChunks_within (n := ([2] : Bytes).length) Nat.one_ne_zero (by decide)]
    refine fun _ => ⟨fun off hoff => ?_,trivial⟩
    obtain ⟨e,he,hz⟩ := ha
    obtain rfl := Option.some.inj (he.symm.trans hoff)
    cases hz

/-- A block the BAT has at the start of the file: a write to it takes the file's identifier. -/
theorem container_overwritten :
    letI := castagnoli
    OpensAs (twoBlocks 6 0).device (twoBlocks 6 0).reader (twoBlocksState 6 0) (twoBlocks 6 0).device twoBlocksLayout ∧
    LaidApart (twoBlocksState 6 0).header twoBlocksLayout.metadata twoBlocksLayout.bat ∧ twoBlocksLayout.Fixed 0 ∧
    ∃ w', (writeAt (twoBlocks 6 0).reader 0 [1]).run World.handle ((twoBlocksState 6 0).start (twoBlocks 6 0).device) =
      (.ok (),w') ∧
      (twoBlocks 6 0).device.byte 0 = 0x76 ∧ w'.dev.byte 0 = 1 := by
  let := castagnoli
  have hw := twoBlocks_writable 6 0 (by decide) (by decide)
  have hp : ((twoBlocksState 6 0).start (twoBlocks 6 0).device).Present 0 0 :=
    (by decide : (twoBlocksState 6 0).bat[0]? = some ⟨.fullyPresent,0⟩)
  have hsize : ((twoBlocksState 6 0).start (twoBlocks 6 0).device).devSize = 3145728 := rfl
  have hslot : ∀ x : HeaderSlot, 0 < x.offset := by
    intro x
    cases x <;> decide
  refine ⟨twoBlocks_opensAs (by decide) (by decide),twoBlocks_laidApart 6 0,.inl ⟨by decide,fun x => .inl (hslot x)⟩,_,
    writeAt_first_byte hw hp (by rw [hsize]; decide) (by decide) 1,?_,?_⟩
  · have hfirst : ((twoBlocks 6 0).device.bytes 0 8)[0]? = some ((twoBlocks 6 0).device.byte 0) :=
      (Device.getElem?_bytes 0).trans (if_pos (show 0 < 8 by decide))
    rw [twoBlocks_valid.bytes_identifier] at hfirst
    exact (Option.some.inj hfirst).symm
  · have hroom : 0 + ([1] : Bytes).length ≤ ((twoBlocksState 6 0).start (twoBlocks 6 0).device).dev.size := by
      rw [hw.ready.size,hsize]
      decide
    exact Device.byte_put_inside hroom Nat.one_pos

end ImgVhdx
