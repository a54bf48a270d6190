import ImgVhdx.Reader.Stands

/-! A write that the power is cut in, at any of its calls or inside one: what it leaves stands for the image there
was, but for bytes of the write that made it. -/
namespace ImgVhdx
open Lib ReaderProg

section granted
variable [Crc32c] {r : VhdxReader} {l : Layout} {w w0 : World} {i off : Nat} {s : Sector} {e : Device}

private theorem World.dev_named_put (hs : s.1 = spliceEntry r i off (w.dev.bytes (sectorOffset r i) logSectorSize)) :
    (w.named r i off).dev = (w.logEntry (sectorOffset r i) s).dev.put (sectorOffset r i) s.1 := by
  obtain ⟨b,hb⟩ := s
  dsimp only at hs ⊢
  subst hs
  rw [World.named,dif_pos hb]

private theorem World.Absent.wrote_nil (ha : w.Absent i) : w.wrote r ⟨0,i,0,0⟩ [] = w.granted r i := by
  rw [World.Absent.wrote_eq (c := ⟨0,i,0,0⟩) ha,Device.put_nil]

omit [Crc32c] in
/-- A block allocated is a piece of no bytes. -/
private theorem World.Ready.turn_nil (h : w.Ready r) (ha : w.Absent i) (hg : w.Grants r i) (hi : i < w.bat.length) :
    World.Turn r w ⟨0,i,0,0⟩ [] :=
  ⟨h,.inr ⟨ha,hg⟩,hi,rfl,Nat.zero_le _⟩

theorem World.Session.granted (h : World.Session r l w0 w) (hready : w.Ready r) (ha : w.Absent i) (hg : w.Grants r i)
    (hi : i < w.bat.length) (hnum : w0.number < 2^64) : World.Session r l w0 (w.granted r i) := by
  rw [← ha.wrote_nil]
  exact h.wrote (hready.turn_nil ha hg hi) hnum

private theorem World.Session.blockByte_granted (h : World.Session r l w0 w) (hready : w.Ready r) (ha : w.Absent i)
    (hg : w.Grants r i) (hi : i < w.bat.length) (j : Nat) {k : Nat} (hk : k < r.blockSize) :
    (w.granted r i).blockByte j k = w.blockByte j k := by
  rw [← ha.wrote_nil]
  exact h.blockByte_kept (hready.turn_nil ha hg hi) hk fun hc => by
    have hlo : 0 ≤ k := hc.2.1
    have hhi : k < 0 + 0 := hc.2.2
    omega

theorem World.Writable.granted (h : w.Writable r) (hg : w.Grants r i) (hi : i < w.bat.length) :
    (w.granted r i).Writable r :=
  ⟨h.ready.granted hg,fun v hv =>
    by rw [World.bat_granted h.ready hg hi,List.length_set]; exact h.covers v hv,h.open_rw⟩

theorem World.Writable.wrote {c : BlockChunk} {src : Bytes} (h : w.Writable r) (ht : World.Turn r w c src) :
    (w.wrote r c src).Writable r :=
  ⟨h.ready.wrote ht.takes,fun v hv => by rw [h.ready.length_wrote ht.takes ht.index]; exact h.covers v hv,h.open_rw⟩

/-- The sector of an entry changes no byte but the entry's. -/
private theorem World.byte_put_sector (h : w.Ready r) (hg : w.Grants r i) (hi : i < w.bat.length)
    (hs : s.1 = spliceEntry r i (tailOffset r w.devSize) ((w.extended r).dev.bytes (sectorOffset r i) logSectorSize))
    (haside : ∀ k, sectorOffset r i ≤ k → k < sectorOffset r i + logSectorSize → ¬ noJournal w.header →
      (w.extended r).Aside k)
    {k : Nat} (hk : k < entryOffset r i ∨ entryOffset r i + batEntrySize ≤ k) :
    (((w.extended r).logEntry (sectorOffset r i) s).dev.put (sectorOffset r i) s.1).byte k =
    ((w.extended r).logEntry (sectorOffset r i) s).dev.byte k := by
  have hroom : sectorOffset r i + logSectorSize ≤ (w.extended r).dev.size :=
    (sector_le_tail (h.bat i hi) hg.pads).trans (Nat.le_add_right _ _)
  by_cases hin : sectorOffset r i ≤ k ∧ k < sectorOffset r i + logSectorSize
  · have hsame : ((w.extended r).logEntry (sectorOffset r i) s).dev.byte k = (w.extended r).dev.byte k :=
      World.byte_logEntry (haside k hin.1 hin.2)
    rw [hs,hsame]
    exact Device.byte_put_spliceEntry (h.entry_lt hi) hg.fits (by rw [World.size_logEntry]; exact hroom) hk hsame
  · rw [Device.byte_put_of_outside]
    rw [s.2]
    omega

/-- Without a log, a sector that lands in part is the old one or the new one: its entry is all in one of the 512 bytes
that a device writes whole. -/
private theorem World.dev_torn_sector (h : w.Ready r) (hg : w.Grants r i) (hi : i < w.bat.length)
    (halign : 4096 ∣ r.batRegionOff) (hn : noJournal w.header)
    (hs : s.1 = spliceEntry r i (tailOffset r w.devSize) ((w.extended r).dev.bytes (sectorOffset r i) logSectorSize))
    {landed : Nat → Bool}
    (he : e = ((w.extended r).logEntry (sectorOffset r i) s).dev.putSome (sectorOffset r i) s.1 landed) :
    e = (w.extended r).dev ∨ e = (w.granted r i).dev := by
  have hlogged : (w.extended r).logEntry (sectorOffset r i) s = w.extended r := if_pos hn
  have hgranted : (w.granted r i).dev = ((w.extended r).logEntry (sectorOffset r i) s).dev.put
    (sectorOffset r i) s.1 := World.dev_named_put hs
  have hout : ∀ k, ¬ (entryOffset r i ≤ k ∧ k < entryOffset r i + batEntrySize) →
      (w.granted r i).dev.byte k = (w.extended r).dev.byte k := by
    intro k hk
    rw [hgranted,World.byte_put_sector h hg hi hs (fun _ _ _ hno => absurd hn hno) (by omega),hlogged]
  have hwhole : ∀ k, entryOffset r i ≤ k ∧ k < entryOffset r i + batEntrySize → k / 512 = entryOffset r i / 512 := by
    rintro k ⟨hlo,hhi⟩
    have hplace : entryOffset r i = r.batRegionOff + i * 8 := rfl
    rw [show batEntrySize = 8 from rfl] at hhi
    omega
  rw [hlogged] at he hgranted
  cases hland : landed (entryOffset r i / 512) with
  | false =>
    left
    rw [he]
    refine Device.ext rfl (funext fun k => ?_) rfl rfl
    rw [Device.byte_putSome,← hgranted]
    split_ifs with hk
    · refine hout k fun hin => ?_
      rw [hwhole k hin,hland] at hk
      cases hk
    · rfl
  | true =>
    right
    rw [he,hgranted]
    refine Device.ext rfl (funext fun k => ?_) rfl rfl
    rw [Device.byte_putSome,← hgranted]
    split_ifs with hk
    · rfl
    · refine (hout k fun hin => ?_).symm
      rw [hwhole k hin,hland] at hk
      exact hk rfl

/-- With one, the entry that names the block is at the front of it. -/
private theorem World.Session.fronted_granted (h : World.Session r l w0 w) (hready : w.Ready r) (ha : w.Absent i)
    (hg : w.Grants r i) (hi : i < w.bat.length) (hn : ¬ noJournal w.header) (hnum : w0.number < 2^64)
    (hclear : ClearOf (w0.dev.bytes l.log.start l.log.len) w0.header) :
    ∃ s', (w.granted r i).Fronted r l w.header (w.granted r i).devSize i s' (w0.dev.bytes l.log.start l.log.len) := by
  have hv := h.granted hready ha hg hi hnum
  obtain ⟨s',hheader,hlog,hsector⟩ := h.journalled_wrote (hready.turn_nil ha hg hi) ha hn
  rw [ha.wrote_nil] at hheader hlog hsector
  obtain ⟨n,hrot⟩ := hv.rotated
  exact ⟨s',{
    header := hheader
    journals := hn
    inside := le_rfl
    entry := by rwa [World.bat_granted hready hg hi,List.length_set]
    fits := hg.fits
    room := by
      rw [World.devSize_granted]
      exact (sector_le_tail (hready.bat i hi) hg.pads).trans (Nat.le_add_right _ _)
    length := Device.length_bytes
    logged := hlog.trans (h.log.splice_front (h.placed.front hn).2 length_journalEntry)
    sector := hsector
    past := fun k => by
      rw [hrot,← Function.iterate_add_apply]
      exact hclear.past (k + n) }⟩

end granted

/-- The device stands for the image of `w` but for bytes of the piece, with no number past `n` taken. -/
def World.Restores [Crc32c] (r : VhdxReader) (l : Layout) (n : Nat) (w : World) (c : BlockChunk) (src : Bytes)
    (e : Device) : Prop :=
  ∃ v : World, v.Stands r l e ∧ v.number ≤ n ∧
    ∀ j k, k < r.blockSize → v.blockByte j k = w.blockByte j k ∨ c.Covers j k ∧
      v.blockByte j k = src.getD (k - c.inBlock) 0

section pieces
variable [Crc32c] {r : VhdxReader} {l : Layout} {w : World} {d d' : Device} {t : ReaderState} {c : BlockChunk}
  {src : Bytes} {s : Sector} {i : Nat}
variable (h : SoundlyOpened r l d t d') (hnum : (t.start d').number + 1 < 2^64)
  (hclear : ClearOf (d'.bytes l.log.start l.log.len) t.header)
include h hnum hclear

private theorem SoundlyOpened.restores_session {v : World} (hs : World.Session r l (t.start d') v) (hw : v.Writable r)
    (hb : ∀ j k, k < r.blockSize → v.blockByte j k = w.blockByte j k ∨ c.Covers j k ∧
      v.blockByte j k = src.getD (k - c.inBlock) 0) :
    w.Restores r l (t.start d').number c src v.dev := ⟨v,h.stands hnum hclear hs hw,hs.number,hb⟩

/-- With room made for a block. -/
private theorem SoundlyOpened.restores_extended (hs : World.Session r l (t.start d') w) (hw : w.Writable r)
    (hi : i < w.bat.length) (hn : w.devSize + (r.blockSize - 1) < 2^64)
    (hroom : tailOffset r w.devSize + r.blockSize < 2^64) :
    w.Restores r l (t.start d').number c src (w.extended r).dev :=
  h.restores_session hnum hclear (hs.extended hw.ready hi hn) ⟨hw.ready.extended hn hroom,hw.covers,hw.open_rw⟩
    fun j _ hk => .inl (hs.blockByte_extended hw.ready hn j hk)

/-- With the front of the log broken off, or taken by an entry the header does not know of. -/
private theorem SoundlyOpened.restores_broken {u : World} (hs : World.Session r l (t.start d') u) (hw : u.Writable r)
    (hn : ¬ noJournal u.header) (hseq : u.header.sequenceNumber.toNat + 1 < 2^64)
    (hb : ∀ j k, k < r.blockSize → u.blockByte j k = w.blockByte j k) {n off : Nat} {front : Bytes} {e : Device}
    (he : u.Relogged l e) (hfront : front.length = 8192)
    (hlog : e.bytes l.log.start l.log.len = splice (u.dev.bytes l.log.start l.log.len) 0 front)
    (h0 : slice front 0 512 = slice (u.dev.bytes l.log.start 8192) 0 512 ∨
      slice front 0 512 = slice (journalEntry u.header n off s) 0 512)
    (h8 : slice front 4096 512 = slice (u.dev.bytes l.log.start 8192) 4096 512 ∨
      slice front 4096 512 = slice (journalEntry u.header n off s) 4096 512)
    (hbroken : front = journalEntry u.header n off s ∨ ¬ Sealed front) :
    w.Restores r l (t.start d').number c src e := by
  obtain ⟨regions,chain,hrestart,-⟩ := h.stands hnum hclear hs hw
  have hquiet := hs.quiet_broken hn hclear h0 h8
  obtain ⟨-,hlen⟩ := hs.placed.front hn
  obtain ⟨k,hk⟩ := hs.rotated
  have hback : slice (e.bytes l.log.start l.log.len) 0 8192 = front := by
    rw [hlog]
    exact slice_splice_same (by rw [Device.length_bytes]; omega) hfront.symm
  have hthere : e.bytes l.log.start 8192 = front := by rw [← hback,Device.slice_bytes_front hlen]
  have hlogged : ClearOf (e.bytes l.log.start l.log.len) u.header := by
    rw [hlog,hs.log.splice_front hlen hfront]
    rw [hk] at hquiet ⊢
    exact hclear.splice_front k hquiet hfront (by rw [Device.length_bytes]; exact hlen)
  refine ⟨{ u with dev := e },he.stands_clear hrestart hn hlogged ?_,hs.number,fun j k hk =>
    .inl ((he.blockByte hs.sound j hk).trans (hb j k hk))⟩
  rw [hthere]
  intro hstamped
  refine hbroken.resolve_left fun hentry => ?_
  rw [hentry] at hstamped
  exact unstamped_journalEntry hseq hstamped

/-- With a part of an entry over the front of the log. -/
private theorem SoundlyOpened.restores_entry {u : World} (hs : World.Session r l (t.start d') u) (hw : u.Writable r)
    (hn : ¬ noJournal u.header) (hseq : u.header.sequenceNumber.toNat + 1 < 2^64)
    (hb : ∀ j k, k < r.blockSize → u.blockByte j k = w.blockByte j k) {n off : Nat} {landed : Nat → Bool} {e : Device}
    (he : e = u.dev.putSome u.header.logOffset.toNat (journalEntry u.header n off s) landed)
    (hguard : e.bytes u.header.logOffset.toNat 8192 = u.dev.bytes u.header.logOffset.toNat 8192 ∨
      e.bytes u.header.logOffset.toNat 8192 = journalEntry u.header n off s ∨
      ¬ Sealed (e.bytes u.header.logOffset.toNat 8192)) :
    w.Restores r l (t.start d').number c src e := by
  have hentry : (journalEntry u.header n off s).length = 8192 := length_journalEntry
  obtain ⟨hlow,-,-⟩ := hs.headed.log hn
  obtain ⟨hstart,hlen⟩ := hs.placed.front hn
  obtain ⟨halign,-⟩ := hs.placed.logAligned (by omega)
  have hsize := hw.ready.size
  have hslot := u.slot.other.offset_low
  have hsector : l.log.start % 512 = 0 := Nat.mod_eq_zero_of_dvd ((show 512 ∣ oneMib by decide).trans halign)
  have hstop : l.log.stop ≤ u.devSize := hs.placed.logInside.resolve_left (by omega)
  have hstop' : l.log.stop = l.log.start + l.log.len := rfl
  have houter : ∀ k, (k < l.log.start ∨ l.log.start + 8192 ≤ k) → e.byte k = u.dev.byte k := fun k hk => by
    rw [he]
    exact Device.byte_putSome_of_outside (by omega)
  rw [← hstart] at he hguard hlow
  have hput : e = u.dev.put l.log.start (e.bytes l.log.start 8192) := by
    rw [← hentry,he]
    exact Device.putSome_eq_put
  have hmixed : ∀ k, k % 512 = 0 → k + 512 ≤ 8192 → slice (e.bytes l.log.start 8192) k 512 =
    slice (u.dev.bytes l.log.start 8192) k 512 ∨
      slice (e.bytes l.log.start 8192) k 512 = slice (journalEntry u.header n off s) k 512 := fun k hk hin => by
    have hsides : slice ((u.dev.putSome l.log.start (journalEntry u.header n off s) landed).bytes l.log.start
      (journalEntry u.header n off s).length) k 512 = _ ∨
      _ = slice (journalEntry u.header n off s) k 512 := Device.sector_putSome hsector hk (by omega) (by omega)
    rwa [hentry,← he] at hsides
  have hbroken : e.bytes l.log.start 8192 = journalEntry u.header n off s ∨ ¬ Sealed (e.bytes l.log.start 8192) →
      w.Restores r l (t.start d').number c src e := by
    intro hseal
    have hrelogged : u.Relogged l e := {
      size := by rw [he]; rfl
      writable := by rw [he]; exact hw.ready.writable
      growable := by rw [he]; rfl
      same := fun k hk _ => houter k (by omega)
      other := .inl (Device.bytes_congr fun k _ hhi => houter k (by omega)) }
    refine h.restores_broken hnum hclear hs hw hn hseq hb hrelogged Device.length_bytes ?_
      (hmixed 0 (by decide) (by decide))
      (hmixed 4096 (by decide) (by decide)) hseal
    conv_lhs => rw [hput]
    exact Device.bytes_put_within (a := l.log.start) (k := 0) (by rw [Device.length_bytes]; omega) (by omega)
  rcases hguard with hold | hnew | hseal
  · have hsame : e = u.dev := by
      rw [hput,hold]
      exact Device.put_of_bytes (by rw [Device.length_bytes])
    rw [hsame]
    exact h.restores_session hnum hclear hs hw fun j k hk => .inl (hb j k hk)
  · exact hbroken (.inl hnew)
  · exact hbroken (.inr hseal)

/-- With a part of the sector of an entry. -/
private theorem SoundlyOpened.restores_sector (hs : World.Session r l (t.start d') w) (hw : w.Writable r)
    (ha : w.Absent i) (hg : w.Grants r i) (hi : i < w.bat.length) (halign : 4096 ∣ r.batRegionOff)
    (hsec : s.1 = spliceEntry r i (tailOffset r w.devSize) ((w.extended r).dev.bytes (sectorOffset r i) logSectorSize))
    {landed : Nat → Bool} {e : Device}
    (he : e = ((w.extended r).logEntry (sectorOffset r i) s).dev.putSome (sectorOffset r i) s.1 landed) :
    w.Restores r l (t.start d').number c src e := by
  have hnum' : (t.start d').number < 2^64 := (Nat.le_succ _).trans_lt hnum
  have hv := hs.granted hw.ready ha hg hi hnum'
  have hthen := hw.granted hg hi
  have hblocks : ∀ j k, k < r.blockSize → (w.granted r i).blockByte j k = w.blockByte j k := fun j k hk =>
    hs.blockByte_granted hw.ready ha hg hi j hk
  by_cases hn : noJournal w.header
  · rcases World.dev_torn_sector hw.ready hg hi halign hn hsec he with hold | hnew
    · rw [hold]
      exact h.restores_extended hnum hclear hs hw hi hg.pads hg.room
    · rw [hnew]
      exact h.restores_session hnum hclear hv hthen fun j k hk => .inl (hblocks j k hk)
  -- the sector is replayed, so all it has to keep is what lies beside it
  · obtain ⟨regions,chain,hrestart,-⟩ := h.stands hnum hclear hv hthen
    obtain ⟨s',hfront⟩ := hs.fronted_granted hw.ready ha hg hi hn hnum' hclear
    obtain ⟨chain',hwrites,hplace⟩ := hfront.inPlace hv.headed hv.placed hthen.ready
    have hpending : (w.granted r i).Restartable r l regions chain' := { hrestart with place := hplace }
    have hlogged : (w.granted r i).Logged r l chain' := .fronted hfront hwrites
    have hgranted : (w.granted r i).dev = ((w.extended r).logEntry (sectorOffset r i) s).dev.put
      (sectorOffset r i) s.1 := World.dev_named_put hsec
    refine ⟨w.granted r i,⟨regions,chain',hpending,hpending.behind.partway hpending hlogged ?_,hlogged⟩,hv.number,
      fun j k hk => .inl (hblocks j k hk)⟩
    refine ⟨by rw [he,hgranted]; rfl,by rw [he,hgranted]; rfl,.inl (by rw [he,hgranted]; rfl),fun k hk => ?_⟩
    have hout : k < sectorOffset r i ∨ sectorOffset r i + s.1.length ≤ k := by
      rw [s.2,← s'.2]
      by_contra hin
      rw [not_or,not_lt,not_le] at hin
      exact hk ⟨_,by rw [hwrites]; exact List.mem_singleton_self _,hin.1,hin.2⟩
    rw [he,Device.byte_putSome_of_outside hout,hgranted,Device.byte_put_of_outside hout]

/-- With a part of the header that goes with an entry. -/
private theorem SoundlyOpened.restores_header (hs : World.Session r l (t.start d') w) (hw : w.Writable r)
    (ha : w.Absent i) (hg : w.Grants r i) (hi : i < w.bat.length) (halign : 4096 ∣ r.batRegionOff)
    (hn : ¬ noJournal w.header) (hseq : w.header.sequenceNumber.toNat + 1 < 2^64)
    (hsec : s.1 = spliceEntry r i (tailOffset r w.devSize) ((w.extended r).dev.bytes (sectorOffset r i) logSectorSize))
    {landed : Nat → Bool} {d3 e : Device}
    (hd3 : d3 = (w.extended r).dev.put w.header.logOffset.toNat
      (journalEntry w.header (w.extended r).devSize (sectorOffset r i) s))
    (he : e = d3.putSome w.slot.other.offset (encodeHeader (rotatedHeader w.header)) landed)
    (hguard : e.bytes w.slot.other.offset headerSize = d3.bytes w.slot.other.offset headerSize ∨
      e.bytes w.slot.other.offset headerSize = encodeHeader (rotatedHeader w.header) ∨
      ¬ Sealed (e.bytes w.slot.other.offset headerSize)) :
    w.Restores r l (t.start d').number c src e := by
  have hu := hs.extended hw.ready hi hg.pads
  have hready := hw.ready.extended hg.pads hg.room
  have hlength : (encodeHeader (rotatedHeader w.header)).length = headerSize := length_encodeHeader _
  have hentry : (journalEntry w.header (w.extended r).devSize (sectorOffset r i) s).length = 8192 := length_journalEntry
  obtain ⟨hlow,-,-⟩ := hu.headed.log hn
  obtain ⟨hstart,hlen⟩ := hu.placed.front hn
  have hstart' : l.log.start = w.header.logOffset.toNat := hstart
  have hslot := w.slot.other.offset_low
  have hstop : l.log.start + l.log.len ≤ (w.extended r).dev.size := hu.placed.logInside.resolve_left (by omega)
  have hnew : d3.put w.slot.other.offset (encodeHeader (rotatedHeader w.header)) =
      ((w.extended r).logEntry (sectorOffset r i) s).dev := by
    have hlogged : (w.extended r).logEntry (sectorOffset r i) s = (w.extended r).journalled (sectorOffset r i) s := if_neg hn
    rw [hd3,hlogged]
    rfl
  rw [← hstart'] at hd3
  rw [hstart.symm] at hlow
  have hlaid : d3.bytes l.log.start l.log.len = splice ((w.extended r).dev.bytes l.log.start l.log.len) 0
      (journalEntry w.header (w.extended r).devSize (sectorOffset r i) s) := by
    rw [hd3]
    exact Device.bytes_put_within (a := l.log.start) (k := 0) (by omega) hstop
  have hbroken : e.bytes w.slot.other.offset headerSize = (w.extended r).dev.bytes w.slot.other.offset headerSize ∨
      ¬ Sealed (e.bytes w.slot.other.offset headerSize) → w.Restores r l (t.start d').number c src e := fun hother =>
    h.restores_broken hnum hclear hu ⟨hready,hw.covers,hw.open_rw⟩ hn hseq
      (fun j k hk => hs.blockByte_extended hw.ready hg.pads j hk)
      { size := by rw [he,hd3]; rfl
        writable := by rw [he,hd3]; exact hready.writable
        growable := by rw [he,hd3]; rfl
        same := fun k hlog hslots => by
          have hside : k < w.slot.other.offset ∨ w.slot.other.offset + headerSize ≤ k := hslots
          have hfront : k < l.log.start ∨ l.log.start + 8192 ≤ k := hlog.imp_right (by unfold Span.stop; omega)
          rw [he,Device.byte_putSome_of_outside (by omega),hd3,Device.byte_put_of_outside (by omega)]
        other := hother } hentry
      ((Device.bytes_congr fun k hlo _ => by rw [he,Device.byte_putSome_of_outside (by omega)]).trans hlaid) (.inr rfl)
        (.inr rfl) (.inl rfl)
  rcases hguard with hold | hwhole | hseal
  · refine hbroken (.inl (hold.trans ?_))
    rw [hd3]
    exact Device.bytes_put_of_disjoint (.inl (by omega))
  · have hnone : e = ((w.extended r).logEntry (sectorOffset r i) s).dev.putSome (sectorOffset r i) s.1 fun _ => false := by
      rw [← hnew,he,Device.putSome_of_whole (by rw [hlength,← he]; exact hwhole)]
      exact Device.ext rfl (funext fun k => (Device.byte_putSome (fun _ => false) k).symm) rfl rfl
    exact h.restores_sector hnum hclear hs hw ha hg hi halign hsec hnone
  · exact hbroken (.inr hseal)

/-- A block allocated, and its journal with it. -/
private theorem SoundlyOpened.throughout_allocate (hs : World.Session r l (t.start d') w) (hw : w.Writable r)
    (ha : w.Absent i) (hi : i < w.bat.length) (halign : 4096 ∣ r.batRegionOff) :
    DeviceThroughout (w.Restores r l (t.start d').number c src) (allocateBlockFor r i) w := by
  have hq : w.Restores r l (t.start d').number c src w.dev := h.restores_session hnum hclear hs hw fun _ _ _ => .inl rfl
  have hfits := entryFits_of_aligned halign i
  rw [allocateBlockFor_split]
  refine .bind (throughout_claimTail hw.ready hq (h.restores_extended hnum hclear hs hw hi)) fun off w1 hrun => ?_
  rcases claimTail_cases hw.ready with ⟨-,e,hno⟩ | ⟨hno,-⟩ | ⟨hgrow,hpads,hroom,hyes⟩
  · cases (Prod.mk.inj (hno.symm.trans hrun)).1
  · cases (Prod.mk.inj (hno.symm.trans hrun)).1
  obtain ⟨hoff,rfl⟩ := Prod.mk.inj (hyes.symm.trans hrun)
  obtain rfl := Outcome.ok.inj hoff
  have hg : w.Grants r i := ⟨hgrow,hpads,hroom,hfits⟩
  have hext : w.Restores r l (t.start d').number c src (w.extended r).dev :=
    h.restores_extended hnum hclear hs hw hi hpads hroom
  have hlen : (spliceEntry r i (tailOffset r w.devSize)
    ((w.extended r).dev.bytes (sectorOffset r i) logSectorSize)).length = logSectorSize :=
    length_spliceEntry (hw.ready.entry_lt hi) hfits Device.length_bytes
  have hseq : ¬ noJournal w.header → w.header.sequenceNumber.toNat + 1 < 2^64 := fun _ => by
    have hpos := ha.countP_pos
    have hle := hs.number
    unfold World.number at hle hnum
    omega
  refine throughout_publishEntry (s := ⟨_,hlen⟩) (hw.ready.extended hpads hroom) hi hfits hext rfl ?_ fun m hm => ?_
  · refine throughout_journalSectorWrite (s := ⟨_,hlen⟩) hext (fun hn m hm => ?_) fun hn m hm => ?_
    · obtain ⟨e,he,rfl⟩ := hm
      have hu := hs.extended hw.ready hi hpads
      have hfront := he.whole (.inr ⟨w.slot,w.header,hu.headed.held,congrArg (Span.mk _) length_journalEntry⟩)
      rw [length_journalEntry] at hfront
      obtain ⟨-,-,landed,rfl,-⟩ := he
      exact h.restores_entry hnum hclear hu ⟨hw.ready.extended hpads hroom,hw.covers,hw.open_rw⟩ hn (hseq hn)
        (fun j k hk => hs.blockByte_extended hw.ready hpads j hk) rfl hfront
    · obtain ⟨e,he,rfl⟩ := hm
      have hslot := he.whole (.inl ⟨w.slot.other,congrArg (Span.mk _) (length_encodeHeader _)⟩)
      rw [length_encodeHeader] at hslot
      obtain ⟨-,-,landed,rfl,-⟩ := he
      exact h.restores_header hnum hclear hs hw ha hg hi halign hn (hseq hn) rfl rfl rfl hslot
  · obtain ⟨_,⟨-,-,landed,rfl,-⟩,rfl⟩ := hm
    exact h.restores_sector hnum hclear hs hw ha hg hi halign rfl rfl

/-- The bytes of a piece over a block that is there. -/
private theorem SoundlyOpened.throughout_payload {u : World} {off : Nat} (hs : World.Session r l (t.start d') u)
    (hw : u.Writable r) (hp : u.Present c.batIdx off) (hi : c.batIdx < u.bat.length) (hlen : src.length = c.chunkLen)
    (hblock : c.inBlock + c.chunkLen ≤ r.blockSize) (hb : ∀ j k, k < r.blockSize → u.blockByte j k = w.blockByte j k) :
    DeviceThroughout (w.Restores r l (t.start d').number c src)
    (hostOffset off c.inBlock src.length >>= fun host => devWrite host src) u := by
  have hq : w.Restores r l (t.start d').number c src u.dev := h.restores_session hnum hclear hs hw fun j k hk =>
    .inl (hb j k hk)
  have hidle : (hostOffset off c.inBlock src.length).Only ReaderOp.Idle :=
    reads_hostOffset.mono fun _ => ReaderOp.Reads.idle
  refine throughout_idle_bind hidle hq fun host w1 hrun => ?_
  rcases hostOffset_cases u off c.inBlock src.length with ⟨e,hno⟩ | ⟨hin,hyes⟩
  · cases (Prod.mk.inj (hno.symm.trans hrun)).1
  obtain ⟨hhost,rfl⟩ := Prod.mk.inj (hyes.symm.trans hrun)
  obtain rfl := Outcome.ok.inj hhost
  refine throughout_devWrite hq fun m hm => ?_
  obtain ⟨_,⟨-,-,landed,rfl,-⟩,rfl⟩ := hm
  dsimp only
  -- what landed is a whole write of other bytes
  have hmixed : ∀ n < src.length, ((u.dev.putSome (off + c.inBlock) src landed).bytes (off + c.inBlock) src.length)[n]? =
      some (if landed ((off + c.inBlock + n) / 512) then src.getD n 0 else u.dev.byte (off + c.inBlock + n)) := by
    intro n hn
    rw [Device.getElem?_bytes,if_pos hn,Device.byte_putSome,Device.byte_put_inside (by rw [hw.ready.size]; exact hin) hn,
      List.getD_eq_getElem?_getD,List.getElem?_eq_getElem hn]
    rfl
  have hlength : ((u.dev.putSome (off + c.inBlock) src landed).bytes (off + c.inBlock) src.length).length =
    src.length := Device.length_bytes
  rw [Device.putSome_eq_put]
  generalize (u.dev.putSome (off + c.inBlock) src landed).bytes (off + c.inBlock) src.length = mixed at *
  have hturn : World.Turn r u c mixed := ⟨hw.ready,.inl ⟨off,hp,by omega⟩,hi,hlength.trans hlen,hblock⟩
  have hwrote : u.wrote r c mixed = { u with dev := u.dev.put (off + c.inBlock) mixed } := hp.wrote_eq
  have hthen : w.Restores r l (t.start d').number c src (u.wrote r c mixed).dev :=
    h.restores_session hnum hclear (hs.wrote hturn ((Nat.le_succ _).trans_lt hnum)) (hw.wrote hturn) fun j k hk => ?_
  · rwa [hwrote] at hthen
  by_cases hc : c.Covers j k
  swap
  · exact .inl ((hs.blockByte_kept hturn hk hc).trans (hb j k hk))
  obtain ⟨hj,hlo,hhi⟩ := hc
  obtain ⟨n,rfl⟩ := Nat.exists_eq_add_of_le hlo
  have hn : n < src.length := by omega
  have hbyte := hw.ready.blockByte_wrote hturn.takes hi hturn.length hblock (k := n) (by omega)
  have hplace := hmixed n hn
  rw [List.getElem?_eq_getElem (by omega)] at hplace
  rw [Option.some.inj hplace] at hbyte
  rw [hj,hbyte,Nat.add_sub_cancel_left]
  split_ifs
  · exact .inr ⟨⟨rfl,hlo,hhi⟩,rfl⟩
  · rw [← hb _ _ hk,hp.blockByte,← Nat.add_assoc]
    exact .inl rfl

/-- A piece, whether or not its block is there. -/
private theorem SoundlyOpened.throughout_chunk {buf : Bytes} (hs : World.Session r l (t.start d') w) (hw : w.Writable r)
    (hi : c.batIdx < w.bat.length) (halign : 4096 ∣ r.batRegionOff) (hc : c.bufPos + c.chunkLen ≤ buf.length)
    (hblock : c.inBlock + c.chunkLen ≤ r.blockSize) :
    DeviceThroughout (w.Restores r l (t.start d').number c (slice buf c.bufPos c.chunkLen)) (writeChunk r buf c) w := by
  obtain ⟨⟨state,off⟩,he⟩ : ∃ e, w.bat[c.batIdx]? = some e := ⟨_,List.getElem?_eq_getElem hi⟩
  have hsrc : slice buf c.bufPos (c.bufPos + c.chunkLen - c.bufPos) = slice buf c.bufPos c.chunkLen :=
    by rw [Nat.add_sub_cancel_left]
  have hlen : (slice buf c.bufPos c.chunkLen).length = c.chunkLen := length_slice hc
  have hq : w.Restores r l (t.start d').number c (slice buf c.bufPos c.chunkLen) w.dev :=
    h.restores_session hnum hclear hs hw fun _ _ _ => .inl rfl
  unfold writeChunk
  refine .lift_bind hq fun src hidx => ?_
  rw [index_of_le (by omega) hc,hsrc] at hidx
  obtain rfl := Outcome.ok.inj hidx
  refine throughout_idle_bind (reads_batEntryAt.mono fun _ => ReaderOp.Reads.idle) hq fun e w1 hrun => ?_
  obtain ⟨hentry,rfl⟩ := Prod.mk.inj ((batEntryAt_run he).symm.trans hrun)
  obtain rfl := Outcome.ok.inj hentry
  have hfresh : state.zeroFill = true →
    DeviceThroughout (w.Restores r l (t.start d').number c (slice buf c.bufPos c.chunkLen))
      (allocateBlockFor r c.batIdx >>= fun off =>
      hostOffset off c.inBlock (slice buf c.bufPos c.chunkLen).length >>= fun host =>
        devWrite host (slice buf c.bufPos c.chunkLen)) w := by
    intro hz
    have ha : w.Absent c.batIdx := ⟨_,he,hz⟩
    refine .bind (h.throughout_allocate hnum hclear hs hw ha hi halign) fun a w1 hrun => ?_
    rcases allocateBlockFor_cases hw.ready hi with ⟨-,x,hno⟩ | ⟨⟨v,hno,-⟩,-⟩ | ⟨hg,hyes⟩
    · cases (Prod.mk.inj (hno.symm.trans hrun)).1
    · cases (Prod.mk.inj (hno.symm.trans hrun)).1
    obtain ⟨ha',rfl⟩ := Prod.mk.inj (hyes.symm.trans hrun)
    obtain rfl := Outcome.ok.inj ha'
    have hbat := World.bat_granted hw.ready hg hi
    refine h.throughout_payload hnum hclear (hs.granted hw.ready ha hg hi ((Nat.le_succ _).trans_lt hnum))
      (hw.granted hg hi) ?_ ?_ hlen hblock
      fun j k hk => hs.blockByte_granted hw.ready ha hg hi j hk
    · unfold World.Present
      rw [hbat,List.getElem?_set_self hi]
    · rw [hbat,List.length_set]
      exact hi
  cases state with
  | fullyPresent => exact h.throughout_payload hnum hclear hs hw he hi hlen hblock fun _ _ _ => rfl
  | notPresent => exact hfresh rfl
  | undefined => exact hfresh rfl
  | zero => exact hfresh rfl
  | unmapped => exact hfresh rfl
  | partiallyPresent => exact .done hq
  | reserved v => exact .done hq

end pieces

section partly
variable {r : VhdxReader} {w v u : World} {c : BlockChunk} {src buf : Bytes} {o x : Nat}

/-- A byte that a piece is for is one of the transfer's. -/
theorem BlockChunk.Of.covers {stop : Nat} (hof : c.Of r o stop) (hc : c.Covers (batIdxOf r x) (x % r.blockSize)) :
    ∃ n < c.chunkLen, x = o + c.bufPos + n ∧ x % r.blockSize = c.inBlock + n := by
  obtain ⟨hidx,hlo,hhi⟩ := hc
  obtain ⟨n,hn⟩ := Nat.exists_eq_add_of_le hlo
  have hlt : n < c.chunkLen := by omega
  obtain ⟨hblock,hmod⟩ := hof.byte n hlt
  refine ⟨n,hlt,?_,hn⟩
  have hdiv : x / r.blockSize = (o + c.bufPos + n) / r.blockSize := dataBatIndex_inj (hidx.trans hblock.symm)
  rw [← Nat.div_add_mod x r.blockSize,hdiv,hn,← hmod]
  exact Nat.div_add_mod _ _

def World.Partly (r : VhdxReader) (w v : World) (o : Nat) (buf : Bytes) : Prop :=
  ∀ x, v.disk r x = w.disk r x ∨ o ≤ x ∧ x < o + buf.length ∧ v.disk r x = buf.getD (x - o) 0

theorem World.Partly.trans (h : w.Partly r v o buf) (hv : v.Partly r u o buf) : w.Partly r u o buf := by
  intro x
  rcases hv x with hx | hx
  · rw [hx]
    exact h x
  · exact .inr hx

/-- Part of a piece is part of its write. -/
private theorem World.partly_of_piece (hof : c.Of r o (o + buf.length))
    (hb : ∀ j k, k < r.blockSize → v.blockByte j k = w.blockByte j k ∨ c.Covers j k ∧
      v.blockByte j k = (slice buf c.bufPos c.chunkLen).getD (k - c.inBlock) 0) :
    w.Partly r v o buf := by
  intro x
  have hin := hof.inside
  rcases hb (batIdxOf r x) (x % r.blockSize) (Nat.mod_lt _ r.blockSize_pos) with hx | ⟨hc,hx⟩
  · exact .inl hx
  · obtain ⟨n,hn,hplace,hmod⟩ := hof.covers hc
    refine .inr ⟨by omega,by omega,hx.trans ?_⟩
    rw [hmod,Nat.add_sub_cancel_left,List.getD_eq_getElem?_getD,List.getD_eq_getElem?_getD,getElem?_slice,if_pos hn,
      show x - o = c.bufPos + n by omega]

variable [Crc32c] {l : Layout} {w0 : World}

/-- So is all of it. -/
private theorem World.Session.partly_wrote (h : World.Session r l w0 w)
    (ht : World.Turn r w c (slice buf c.bufPos c.chunkLen)) (hof : c.Of r o (o + buf.length)) :
    w.Partly r (w.wrote r c (slice buf c.bufPos c.chunkLen)) o buf := by
  refine World.partly_of_piece hof fun j k hk => ?_
  by_cases hc : c.Covers j k
  swap
  · exact .inl (h.blockByte_kept ht hk hc)
  obtain ⟨hj,hlo,hhi⟩ := hc
  obtain ⟨n,rfl⟩ := Nat.exists_eq_add_of_le hlo
  have hn : n < (slice buf c.bufPos c.chunkLen).length := by
    rw [ht.length]
    omega
  refine .inr ⟨⟨hj,hlo,hhi⟩,?_⟩
  rw [hj,ht.ready.blockByte_wrote ht.takes ht.index ht.length ht.block hn,Nat.add_sub_cancel_left,
    List.getD_eq_getElem?_getD,
    List.getElem?_eq_getElem hn]
  rfl

end partly

section writes
variable [Crc32c] {r r' : VhdxReader} {l : Layout} {w m : World} {d d' : Device} {t : ReaderState} {o n : Nat} {buf : Bytes}

def World.Survives (r : VhdxReader) (l : Layout) (n : Nat) (w : World) (o : Nat) (buf : Bytes) (e : Device) : Prop :=
  ∃ v : World, v.Stands r l e ∧ v.number ≤ n ∧ w.Partly r v o buf

/-- A write, its pieces one after the other. -/
theorem SoundlyOpened.throughout_write (h : SoundlyOpened r l d t d') (hnum : (t.start d').number + 1 < 2^64)
    (hclear : ClearOf (d'.bytes l.log.start l.log.len) t.header) (halign : 4096 ∣ r.batRegionOff)
    (hs : World.Session r l (t.start d') w) (hw : w.Writable r) (o : Nat) (buf : Bytes) :
    DeviceThroughout (w.Survives r l (t.start d').number o buf) (writeAt r o buf) w := by
  have hthere : ∀ {s : World}, World.Session r l (t.start d') s → s.Writable r → w.Partly r s o buf →
    w.Survives r l (t.start d').number o buf s.dev :=
    fun {s} hs hw hp => ⟨s,h.stands hnum hclear hs hw,hs.number,hp⟩
  have hq : w.Survives r l (t.start d').number o buf w.dev := hthere hs hw fun _ => .inl rfl
  unfold writeAt
  rw [if_neg (by simp [hw.open_rw])]
  refine .lift_bind hq fun stop hstop => ?_
  by_cases hin : InRange r o buf.length
  swap
  · obtain ⟨e,he⟩ := transferEnd_refused hin
    cases he.symm.trans hstop
  by_cases hlen : buf.length = 0
  · rw [transferEnd,if_pos hlen] at hstop
    obtain rfl := Outcome.ok.inj hstop
    exact .done hq
  obtain ⟨hend,h64⟩ := hin.resolve_left hlen
  obtain rfl := Outcome.ok.inj ((transferEnd_of_le hend h64 hlen).symm.trans hstop)
  have hloop : DeviceThroughout (w.Survives r l (t.start d').number o buf)
      (Prog.forEach (writeChunk r buf) (blockChunks r o (o + buf.length))) w := by
    let todo (cs : List BlockChunk) (s : World) : Prop := World.Session r l (t.start d') s ∧ s.Writable r ∧
      w.Partly r s o buf ∧
      ∀ c ∈ cs, c.Of r o (o + buf.length) ∧ c.batIdx < s.bat.length
    have hfirst : todo (blockChunks r o (o + buf.length)) w :=
      ⟨hs,hw,fun _ => .inl rfl,fun c hc => ⟨mem_blockChunks hc,(fits_blockChunks hw.covers hin c hc).1⟩⟩
    have hlast : ∀ s, todo [] s → w.Survives r l (t.start d').number o buf s.dev :=
      fun s hs => hthere hs.1 hs.2.1 hs.2.2.1
    refine .forEach hlast (fun c rest s htodo => ?_) hfirst
    obtain ⟨hs,hw,hp,hall⟩ := htodo
    obtain ⟨hof,hi⟩ := hall c List.mem_cons_self
    have hroom : c.bufPos + c.chunkLen ≤ buf.length := by
      have := hof.inside
      omega
    refine ⟨fun m hm => ?_,fun s1 hrun => ?_⟩
    · obtain ⟨v,hstands,hnumber,hb⟩ := h.throughout_chunk hnum hclear hs hw hi halign hroom hof.block m hm
      exact ⟨v,hstands,hnumber,hp.trans (World.partly_of_piece hof hb)⟩
    · rcases writeChunk_cases hw.ready hi hroom hof.block with ⟨htakes,hyes⟩ | ⟨-,-,e,hno⟩ | ⟨-,-,v,hno,-⟩
      · obtain ⟨-,rfl⟩ := Prod.mk.inj (hyes.symm.trans hrun)
        have hturn : World.Turn r s c (slice buf c.bufPos c.chunkLen) :=
          ⟨hw.ready,htakes,hi,length_slice hroom,hof.block⟩
        refine ⟨hs.wrote hturn ((Nat.le_succ _).trans_lt hnum),hw.wrote hturn,hp.trans (hs.partly_wrote hturn hof),
          fun a ha => ?_⟩
        rw [hw.ready.length_wrote htakes hi]
        exact hall a (List.mem_cons_of_mem _ ha)
      · cases (Prod.mk.inj (hno.symm.trans hrun)).1
      · cases (Prod.mk.inj (hno.symm.trans hrun)).1
  exact hloop.bind fun _ s1 hrun => throughout_of_idle idle_devFlush (hloop.finish hrun)

end writes
end ImgVhdx
