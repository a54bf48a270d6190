import ImgVhdx.Reader.Fresh

/-! Where the pieces of a write land in the file as it was, and what they leave of it. -/
namespace ImgVhdx
open Lib ReaderProg

/-- Two spans that are not empty: one lies ahead of the other. -/
theorem Span.Apart.sides {a b : Span} (h : a.Apart b) (ha : 0 < a.len) (hb : 0 < b.len) :
    a.stop ≤ b.start ∨ b.stop ≤ a.start := by
  unfold Span.Apart Span.stop at *
  omega

section target
variable {r : VhdxReader} {w : World} {i off : Nat} {c : BlockChunk}

private theorem World.absent_iff : w.Absent i ↔ (w.bat[i]?).any (·.state.zeroFill) = true := by
  simp [World.Absent,Option.any_eq_true]

instance (w : World) (i : Nat) : Decidable (w.Absent i) := decidable_of_iff _ World.absent_iff.symm

def World.target (r : VhdxReader) (w : World) (c : BlockChunk) : Span :=
  match w.bat[c.batIdx]? with
  | some e =>
    if e.state = .fullyPresent then ⟨e.fileOffset + c.inBlock,c.chunkLen⟩ else ⟨entryOffset r c.batIdx,batEntrySize⟩
  | none => ⟨0,0⟩

theorem World.Present.target_eq (h : w.Present c.batIdx off) : w.target r c = ⟨off + c.inBlock,c.chunkLen⟩ := by
  rw [World.target,h]
  rfl

theorem World.Absent.target_eq (h : w.Absent c.batIdx) : w.target r c = ⟨entryOffset r c.batIdx,batEntrySize⟩ := by
  obtain ⟨e,he,hz⟩ := h
  rw [World.target,he]
  refine if_neg fun hs => ?_
  rw [hs] at hz
  cases hz

/-- A sector is clear of whole sectors where its entry is. -/
theorem sector_apart_of_entry {p : Span} (hstart : logSectorSize ∣ p.start) (hlen : logSectorSize ∣ p.len)
    (hi : entryOffset r i < 2^64) (hf : EntryFits r i) (h : (Span.mk (entryOffset r i) batEntrySize).Apart p) :
    (Span.mk (sectorOffset r i) logSectorSize).Apart p := by
  obtain ⟨hlo,hhi,a,ha⟩ := sectorOffset_spec hi
  have hin := entryOffset_sub hi
  have hfits : entryOffset r i % logSectorSize + 8 ≤ logSectorSize := hf
  obtain ⟨b,hb⟩ := hstart
  obtain ⟨m,hm⟩ := hlen
  rw [show logSectorSize = 4096 from rfl] at *
  unfold Span.Apart at *
  dsimp only [Span.stop] at *
  rw [show batEntrySize = 8 from rfl] at h
  omega

/-- Pieces are told apart by what is in the BAT at their blocks. -/
theorem World.target_congr {w' : World} (h : w'.bat[c.batIdx]? = w.bat[c.batIdx]?) : w'.target r c = w.target r c := by
  rw [World.target,World.target,h]

theorem World.absent_congr {w' : World} (h : w'.bat[i]? = w.bat[i]?) : w'.Absent i ↔ w.Absent i := by
  rw [World.Absent,World.Absent,h]

/-- How often writing these pieces rotates the header. -/
def World.rotations (w : World) (cs : List BlockChunk) : Nat :=
  if noJournal w.header then 0 else cs.countP fun c => decide (w.Absent c.batIdx)

end target

section frame
variable [Crc32c] {r : VhdxReader} {w : World} {c : BlockChunk} {i k : Nat}

def World.Aside (w : World) (k : Nat) : Prop :=
  (k < w.header.logOffset.toNat ∨ w.header.logOffset.toNat + 8192 ≤ k) ∧
    (k < w.slot.other.offset ∨ w.slot.other.offset + headerSize ≤ k)

theorem World.byte_logEntry {off : Nat} {s : Sector} (h : ¬ noJournal w.header → w.Aside k) :
    (w.logEntry off s).dev.byte k = w.dev.byte k := by
  unfold World.logEntry
  split_ifs with hn
  · rfl
  · obtain ⟨hlog,hslot⟩ := h hn
    refine (Device.byte_put_of_outside ?_).trans (Device.byte_put_of_outside ?_)
    · rwa [length_encodeHeader]
    · rwa [length_journalEntry]

omit [Crc32c] in
/-- A sector with an entry spliced in, laid where it was read, changes the entry. -/
theorem Device.byte_put_spliceEntry {d e : Device} {off : Nat} (hi : entryOffset r i < 2^64) (hf : EntryFits r i)
    (hroom : sectorOffset r i + logSectorSize ≤ d.size) (hk : k < entryOffset r i ∨ entryOffset r i + batEntrySize ≤ k)
    (hsame : d.byte k = e.byte k) :
    (d.put (sectorOffset r i) (spliceEntry r i off (e.bytes (sectorOffset r i) logSectorSize))).byte k = e.byte k := by
  have hb : (e.bytes (sectorOffset r i) logSectorSize).length = logSectorSize := Device.length_bytes
  have hlen : (spliceEntry r i off (e.bytes (sectorOffset r i) logSectorSize)).length = logSectorSize :=
    length_spliceEntry hi hf hb
  have h8 : batEntrySize = 8 := rfl
  obtain ⟨hlo,-,-⟩ := sectorOffset_spec hi
  by_cases hin : sectorOffset r i ≤ k ∧ k < sectorOffset r i + logSectorSize
  · obtain ⟨j,rfl⟩ := Nat.exists_eq_add_of_le hin.1
    have hj : j < logSectorSize := by omega
    rw [Device.byte_put_inside (by rw [hlen]; exact hroom) (by rw [hlen]; exact hj)]
    refine Option.some.inj ((List.getElem?_eq_getElem _).symm.trans ?_)
    have hentry : entryOffset r i - sectorOffset r i + (toLE 8 (presentRaw off)).length ≤
        (e.bytes (sectorOffset r i) logSectorSize).length := by
      rw [length_toLE,hb,entryOffset_sub hi]
      exact hf
    rw [spliceEntry,getElem?_splice hentry,if_neg (by rw [length_toLE]; omega),Device.getElem?_bytes,if_pos hj]
  · rw [Device.byte_put_of_outside (by rw [hlen]; omega),hsame]

/-- Publishing an entry leaves every byte but the entry's, those of the log's front and those of the other slot. -/
private theorem World.byte_named_of_outside {off : Nat} (hi : entryOffset r i < 2^64) (hf : EntryFits r i)
    (hroom : sectorOffset r i + logSectorSize ≤ w.dev.size)
    (hk : k < entryOffset r i ∨ entryOffset r i + batEntrySize ≤ k) (haside : ¬ noJournal w.header → w.Aside k) :
    (w.named r i off).dev.byte k = w.dev.byte k := by
  rw [World.named,dif_pos (length_spliceEntry hi hf Device.length_bytes)]
  exact Device.byte_put_spliceEntry hi hf (by rw [World.size_logEntry]; exact hroom) hk (World.byte_logEntry haside)

omit [Crc32c] in
/-- The room for a block is all past the file's end. -/
theorem World.byte_extended_of_lt (h : w.Ready r) (hn : w.devSize + (r.blockSize - 1) < 2^64) (hk : k < w.devSize) :
    (w.extended r).dev.byte k = w.dev.byte k := by
  obtain ⟨hle,-,-⟩ := tailOffset_spec hn
  refine (Device.byte_put_of_outside (.inl (by omega))).trans (Device.byte_resize_of_le ?_ k)
  rw [h.size]
  omega

private theorem World.byte_granted_of_outside (h : w.Ready r) (hg : w.Grants r i) (hi : i < w.bat.length)
    (hk : k < w.devSize) (hentry : k < entryOffset r i ∨ entryOffset r i + batEntrySize ≤ k)
    (haside : ¬ noJournal w.header → w.Aside k) :
    (w.granted r i).dev.byte k = w.dev.byte k := by
  have hin := h.bat i hi
  have hsmall := h.small
  have hroom : sectorOffset r i + logSectorSize ≤ (w.extended r).dev.size :=
    (sector_le_tail hin hg.pads).trans (Nat.le_add_right _ _)
  have hnamed : (w.granted r i).dev.byte k = (w.extended r).dev.byte k :=
    World.byte_named_of_outside (w := w.extended r) (by omega) hg.fits hroom hentry haside
  exact hnamed.trans (World.byte_extended_of_lt h hg.pads hk)

/-- A piece leaves the bytes of the file that it is not laid over, but for what a rotation takes. -/
theorem World.Ready.byte_wrote (h : w.Ready r) (ht : w.Takes r c) (hi : c.batIdx < w.bat.length) {src : Bytes}
    (hlen : src.length = c.chunkLen) (hk : k < w.devSize) (htarget : k < (w.target r c).start ∨ (w.target r c).stop ≤ k)
    (haside : w.Absent c.batIdx → ¬ noJournal w.header → w.Aside k) : (w.wrote r c src).dev.byte k = w.dev.byte k := by
  rcases ht with ⟨off,hp,-⟩ | ⟨ha,hg⟩
  · rw [hp.target_eq,Span.stop] at htarget
    rw [hp.wrote_eq]
    exact Device.byte_put_of_outside (by rwa [hlen])
  · rw [ha.target_eq,Span.stop] at htarget
    rw [ha.wrote_eq]
    have hle := (tailOffset_spec hg.pads).1
    refine (Device.byte_put_of_outside (.inl (by omega))).trans ?_
    exact World.byte_granted_of_outside h hg hi hk htarget (haside ha)

/-- A span of the file that is clear of what the piece is laid over, and of what a rotation takes. -/
theorem World.Ready.bytes_wrote (h : w.Ready r) (ht : w.Takes r c) (hi : c.batIdx < w.bat.length) {src : Bytes}
    (hlen : src.length = c.chunkLen) {a n : Nat} (hin : a + n ≤ w.devSize) (htarget : (w.target r c).Apart ⟨a,n⟩)
    (haside : w.Absent c.batIdx → ¬ noJournal w.header → ∀ k, a ≤ k → k < a + n → w.Aside k) :
    (w.wrote r c src).dev.bytes a n = w.dev.bytes a n := by
  refine Device.bytes_congr fun k hlo hhi => h.byte_wrote ht hi hlen (by omega) ?_ fun ha hn => haside ha hn k hlo hhi
  have hapart := htarget
  unfold Span.Apart at hapart
  dsimp only [Span.stop] at hapart ⊢
  omega

/-- A piece that needs a block: the room, the entry in the log with the rotation, the BAT's sector, and the payload. -/
theorem World.Absent.wrote_named (ha : w.Absent c.batIdx) (hi : entryOffset r c.batIdx < 2^64)
    (hf : EntryFits r c.batIdx) (src : Bytes) :
    ∃ s : Sector,
      s.1 = spliceEntry r c.batIdx (tailOffset r w.devSize)
      ((w.extended r).dev.bytes (sectorOffset r c.batIdx) logSectorSize) ∧
      w.wrote r c src = { (w.extended r).logEntry (sectorOffset r c.batIdx) s with
        dev := (((w.extended r).logEntry (sectorOffset r c.batIdx) s).dev.put (sectorOffset r c.batIdx) s.1).put
          (tailOffset r w.devSize + c.inBlock) src
        bat := w.bat.set c.batIdx ⟨.fullyPresent,tailOffset r w.devSize⟩ } := by
  have hlen : (spliceEntry r c.batIdx (tailOffset r w.devSize)
      ((w.extended r).dev.bytes (sectorOffset r c.batIdx) logSectorSize)).length = logSectorSize :=
    length_spliceEntry hi hf Device.length_bytes
  refine ⟨⟨_,hlen⟩,rfl,?_⟩
  rw [ha.wrote_eq,World.granted,World.named,dif_pos hlen]
  rfl

omit [Crc32c] in
/-- A piece that can be written and has no block can be given one. -/
theorem World.Absent.grants (ha : w.Absent c.batIdx) (ht : w.Takes r c) : w.Grants r c.batIdx := by
  rcases ht with ⟨off,hp,-⟩ | ⟨-,hg⟩
  · obtain ⟨e,he,hz⟩ := ha
    obtain rfl := Option.some.inj (he.symm.trans hp)
    cases hz
  · exact hg

omit [Crc32c] in
theorem World.Ready.entry_lt (h : w.Ready r) (hi : i < w.bat.length) : entryOffset r i < 2^64 := by
  have := h.bat i hi
  have := h.small
  omega

end frame

section turns
variable [Crc32c] {r : VhdxReader} {w w0 : World} {buf : Bytes} {c : BlockChunk}

/-- A piece that is not journalled leaves the header where it is. -/
theorem World.header_wrote_of_skip (ht : w.Takes r c) (h : ¬ (w.Absent c.batIdx ∧ ¬ noJournal w.header)) (src : Bytes) :
    (w.wrote r c src).header = w.header ∧ (w.wrote r c src).slot = w.slot := by
  rcases ht with ⟨off,hp,-⟩ | ⟨ha,-⟩
  · rw [hp.wrote_eq]
    exact ⟨rfl,rfl⟩
  · have hn : noJournal w.header := not_not.mp fun hn => h ⟨ha,hn⟩
    have hlog : ∀ off s, (w.extended r).logEntry off s = w.extended r := fun _ _ => if_pos hn
    rw [ha.wrote_eq,World.granted,World.named]
    split_ifs
    · rw [hlog]
      exact ⟨rfl,rfl⟩
    · exact ⟨rfl,rfl⟩

/-- The header after a piece: the next one, or as it was. -/
theorem World.Ready.header_wrote (h : w.Ready r) (ht : w.Takes r c) (hi : c.batIdx < w.bat.length) (src : Bytes) :
    (w.wrote r c src).header = w.header ∨ (w.wrote r c src).header = rotatedHeader w.header := by
  by_cases hrot : w.Absent c.batIdx ∧ ¬ noJournal w.header
  swap
  · exact .inl (World.header_wrote_of_skip ht hrot src).1
  obtain ⟨ha,hn⟩ := hrot
  obtain ⟨s,-,hwrote⟩ := ha.wrote_named (h.entry_lt hi) (ha.grants ht).fits src
  rw [hwrote,show (w.extended r).logEntry _ s = (w.extended r).journalled _ s from if_neg hn]
  exact .inr rfl

/-- A piece leaves what the BAT says of every other block. -/
theorem World.Ready.entry_wrote (h : w.Ready r) (ht : w.Takes r c) (hi : c.batIdx < w.bat.length) (src : Bytes)
    {j : Nat} (hj : c.batIdx ≠ j) :
    (w.wrote r c src).bat[j]? = w.bat[j]? := by
  rcases h.bat_wrote ht hi src with hb | hb <;> rw [hb]
  exact List.getElem?_set_ne hj

theorem World.devSize_le_wrote (ht : w.Takes r c) (src : Bytes) : w.devSize ≤ (w.wrote r c src).devSize := by
  rcases ht with ⟨off,hp,-⟩ | ⟨ha,hg⟩
  · rw [hp.wrote_eq]
  · rw [ha.devSize_wrote]
    exact (tailOffset_spec hg.pads).1.trans (Nat.le_add_right _ _)

/-- What holds with these pieces still to be written, and after each of them with the rest, holds after the last with none. -/
theorem World.Ready.wroteAll_turns {J : World → List BlockChunk → Prop} {cs rest : List BlockChunk}
    (hstep : ∀ w c rest, w.Ready r → w.Takes r c → c.batIdx < w.bat.length → c.bufPos + c.chunkLen ≤ buf.length →
      (∀ d ∈ rest, c.batIdx ≠ d.batIdx) → J w (c :: rest) → J (w.wrote r c (slice buf c.bufPos c.chunkLen)) rest)
    (h : w.Ready r) (ht : w.TakesAll r buf cs) (hfit : Fits r buf w.bat.length cs)
    (hapart : (cs ++ rest).Pairwise fun x y => x.batIdx ≠ y.batIdx) (hJ : J w (cs ++ rest)) :
    J (w.wroteAll r buf cs) rest := by
  induction cs generalizing w with
  | nil => exact hJ
  | cons c cs ih =>
    obtain ⟨hi,hc,-⟩ := hfit c List.mem_cons_self
    obtain ⟨hfirst,hapart⟩ := List.pairwise_cons.mp hapart
    have hlen := h.length_wrote ht.1 hi (slice buf c.bufPos c.chunkLen)
    exact ih (h.wrote ht.1) ht.2 (fun d hd => hlen ▸ hfit d (List.mem_cons_of_mem _ hd)) hapart
      (hstep w c (cs ++ rest) h ht.1 hi hc hfirst hJ)

/-- The states that writes reach, each of which met a condition and came back. -/
inductive ReachedBy (Met : World → Nat → Bytes → Prop) (r : VhdxReader) (w0 : World) : World → Prop
  | start : ReachedBy Met r w0 w0
  | write {w w' : World} {o : Nat} {buf : Bytes} {x : Outcome Error Unit} (before : ReachedBy Met r w0 w)
      (met : Met w o buf)
      (run : (writeAt r o buf).run World.handle w = (x,w')) (returned : x ≠ .panic) : ReachedBy Met r w0 w'

theorem ReachedBy.reached {Met : World → Nat → Bytes → Prop} (h : ReachedBy Met r w0 w) : Reached r w0 w := by
  induction h with
  | start => exact .start
  | write _ _ hrun hx ih => exact .write ih hrun hx

/-- What a call that meets the condition has ahead of it in `J`, each of its pieces keeps, and any part of it leaves
in `I`, holds of every state that is reached. -/
theorem ReachedBy.turns {Met : World → Nat → Bytes → Prop} {I : World → Prop} {J : World → List BlockChunk → Prop}
    (hbegin : ∀ w o buf, w.Writable r → InRange r o buf.length → I w → Met w o buf →
      J w (blockChunks r o (o + buf.length)))
    (hstep : ∀ buf w c rest, w.Ready r → w.Takes r c → c.batIdx < w.bat.length → c.bufPos + c.chunkLen ≤ buf.length →
      (∀ d ∈ rest, c.batIdx ≠ d.batIdx) → J w (c :: rest) → J (w.wrote r c (slice buf c.bufPos c.chunkLen)) rest)
    (hend : ∀ w rest, J w rest → I w) (hreach : ReachedBy Met r w0 w) (h0 : w0.Writable r) (hI : I w0) :
    w.Writable r ∧ I w := by
  induction hreach with
  | start => exact ⟨h0,hI⟩
  | @write w w' o buf x _ met hrun hx ih =>
    obtain ⟨hw,hIw⟩ := ih
    by_cases hin : InRange r o buf.length
    swap
    · obtain ⟨e,he⟩ := writeAt_of_outOfRange hw hin
      obtain ⟨-,rfl⟩ := Prod.mk.inj (hrun.symm.trans he)
      exact ⟨hw,hIw⟩
    obtain ⟨front,rest,hcs,ht,hfit,rfl,-⟩ := pieces_of_returned hw hrun hx
    have hJ := hbegin w o buf hw hin hIw met
    have hapart : (blockChunksFrom r (o + buf.length) o 0).Pairwise fun x y => x.batIdx ≠ y.batIdx := batIdx_apart o 0
    rw [show blockChunksFrom r (o + buf.length) o 0 = front ++ rest from hcs] at hapart
    rw [hcs] at hJ
    exact ⟨hw.wroteAll ht hfit,hend _ rest (hw.ready.wroteAll_turns (hstep buf) ht hfit hapart hJ)⟩

end turns
end ImgVhdx
