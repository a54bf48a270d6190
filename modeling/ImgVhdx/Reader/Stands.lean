import ImgVhdx.Reader.Repeated
import ImgVhdx.Reader.Torn

/-! The devices that stand for an image: opened, each is its disk, however much of what its log holds has landed already. -/
namespace ImgVhdx
open Lib ReaderProg

section relogged
variable [Crc32c] {r : VhdxReader} {l : Layout} {w : World} {e : Device} {regions : RegionTable} {chain : List LogEntry}

/-- A header that fails its checksum is none. -/
private theorem headerAt_of_broken {n : Nat} {x : HeaderSlot} (h : ¬ Sealed (e.bytes x.offset headerSize)) :
    headerAt e n x = none := by
  unfold headerAt
  split_ifs
  · rfl
  rw [Header.parse_of_le Device.length_bytes.ge]
  have hcrc : headerCrc (e.bytes x.offset headerSize) = checksumOf (e.bytes x.offset headerSize) := by
    unfold headerCrc
    rw [slice_eq_self Device.length_bytes]
    rfl
  split_ifs with hsig hstored
  · rfl
  · rfl
  · exact absurd ((not_not.mp hstored).trans hcrc) h
  · exact absurd ((not_not.mp hstored).trans hcrc) h

/-- The header of a world that can be opened again is the one that is picked. -/
theorem World.Restartable.headed (h : w.Restartable r l regions chain) : w.Headed where
  held := headerAt_of_picked h.identified.picked
  slots := slots_inside h.identified.table
  log hn := by
    obtain ⟨-,hmod,hlow,-,hend⟩ := validateLogRegion_eq_ok h.identified.logRegion fun h0 => hn (.inl h0)
    exact ⟨hlow,hend,hmod⟩
  current := h.identified.picked

omit [Crc32c] in
/-- The first megabyte is off the log. -/
theorem World.Placed.off_log {k : Nat} (h : w.Placed r l) (hk : k < oneMib) : k < l.log.start ∨ l.log.stop ≤ k := by
  by_contra hin
  rw [not_or,not_lt,not_le] at hin
  have hhi : k < headerSection.stop := by rwa [headerSection,Span.stop,Nat.zero_add]
  exact Span.apart_iff.mp h.logHeader k (Nat.zero_le _) hhi hin.1 hin.2

/-- The file of a world with other bytes in the log, and with what there was or no header in the slot that is not current. -/
structure World.Relogged (l : Layout) (w : World) (e : Device) : Prop where
  size : e.size = w.dev.size
  writable : e.writable = true
  growable : e.growable = w.dev.growable
  same : ∀ k, (k < l.log.start ∨ l.log.stop ≤ k) → (k < w.slot.other.offset ∨ w.slot.other.offset + headerSize ≤ k) →
    e.byte k = w.dev.byte k
  other : e.bytes w.slot.other.offset headerSize = w.dev.bytes w.slot.other.offset headerSize ∨
    ¬ Sealed (e.bytes w.slot.other.offset headerSize)

/-- Its header is picked still. -/
theorem World.Relogged.headed (he : w.Relogged l e) (hp : w.Placed r l) (h : w.Headed) :
    World.Headed { w with dev := e } := by
  have hslot : e.bytes w.slot.offset headerSize = w.dev.bytes w.slot.offset headerSize := by
    have hapart := w.slot.apart
    have hbelow := w.slot.offset_low
    exact Device.bytes_congr fun k hlo hhi => he.same k (hp.off_log (by omega)) (by omega)
  have hslots : ∀ x : HeaderSlot, x.offset + headerSize ≤ e.size := fun x => he.size ▸ h.slots x
  have hheld : headerAt e e.size w.slot = some w.header := by
    rw [← h.held]
    exact headerAt_congr hslot (h.slots _) (hslots _)
  refine ⟨⟨hheld,hslots,fun hn => he.size ▸ h.log hn⟩,?_⟩
  change preferHeader (headerAt e e.size .one) (headerAt e e.size .two) = .ok (w.header,w.slot)
  rcases he.other with hback | hbroken
  · have hthere : headerAt e e.size w.slot.other = headerAt w.dev w.dev.size w.slot.other :=
      headerAt_congr hback (h.slots _) (hslots _)
    rw [← h.current]
    rw [← h.held] at hheld
    cases hs : w.slot with
    | one =>
      rw [hs] at hheld hthere
      exact congrArg₂ _ hheld hthere
    | two =>
      rw [hs] at hheld hthere
      exact congrArg₂ _ hthere hheld
  · have hnone := headerAt_of_broken (n := e.size) hbroken
    cases hs : w.slot with
    | one =>
      rw [hs] at hheld hnone
      rw [hheld,show headerAt e e.size .two = _ from hnone]
      rfl
    | two =>
      rw [hs] at hheld hnone
      rw [hheld,show headerAt e e.size .one = _ from hnone]
      rfl

theorem World.Relogged.ready (he : w.Relogged l e) (h : w.Ready r) : World.Ready r { w with dev := e } :=
  ⟨he.writable,⟨h.unlocked.size,h.unlocked.header⟩,he.size.trans h.size,h.small,h.slots,h.log,h.bat⟩

/-- It can be opened again, if what is in its log is in place. -/
theorem World.Restartable.relogged (h : w.Restartable r l regions chain) (he : w.Relogged l e) {chain' : List LogEntry}
    (hplace : World.InPlace { w with dev := e } chain') : World.Restartable r l regions { w with dev := e } chain' := by
  have hlaid : ∀ k, (k < l.log.start ∨ l.log.stop ≤ k) → (∀ x : HeaderSlot, k < x.offset ∨ x.offset + headerSize ≤ k) →
      e.byte k = w.dev.byte k := fun k hlog hslots => he.same k hlog (hslots _)
  refine h.redev he.size he.writable (h.placed.housingKept he.size.ge hlaid)
    (Device.bytes_congr fun k hlo hhi => hlaid k ?_ fun x => .inr ?_)
    (he.headed h.placed h.headed).current hplace
  · by_contra hin
    rw [not_or,not_lt,not_le] at hin
    exact Span.apart_iff.mp h.placed.logBat k hin.1 hin.2 hlo hhi
  · have hpast := Span.apart_iff.mp h.placed.headerBat.symm k hlo hhi (Nat.zero_le _)
    refine x.offset_low.trans (not_lt.mp fun hk => hpast ?_)
    rwa [headerSection,Span.stop,Nat.zero_add]

/-- And its blocks are what they were. -/
theorem World.Relogged.blockByte (he : w.Relogged l e) (hs : SoundBat r l w.devSize w.bat) (j : Nat) {k : Nat}
    (hk : k < r.blockSize) : World.blockByte { w with dev := e } j k = w.blockByte j k := by
  refine World.blockByte_congr (by rfl) fun off hpresent => ?_
  have hclear := hs.clear _ hpresent.mem rfl
  have hhi : off + k < (blockSpan r off).stop := Nat.add_lt_add_left hk _
  have hpast := Span.apart_iff.mp (hclear headerSection List.mem_cons_self) (off + k) (Nat.le_add_right _ _) hhi
    (Nat.zero_le _)
  refine he.same _ ?_ (.inr ?_)
  · by_contra hin
    rw [not_or,not_lt,not_le] at hin
    exact Span.apart_iff.mp (hclear l.log (List.mem_cons_of_mem _ List.mem_cons_self)) (off + k) (Nat.le_add_right _ _)
      hhi hin.1 hin.2
  · refine w.slot.other.offset_low.trans (not_lt.mp fun hlow => hpast ?_)
    rwa [headerSection,Span.stop,Nat.zero_add]

end relogged

section stands
variable [Crc32c] {r : VhdxReader} {l : Layout} {w : World} {i n : Nat} {s : Sector} {h : Header} {log : Bytes} {d e : Device}
  {regions : RegionTable} {chain : List LogEntry}

/-- The entry of a BAT update over the front of a log that is clear past it, its sector in place. -/
structure World.Fronted (r : VhdxReader) (l : Layout) (w : World) (h : Header) (n i : Nat) (s : Sector) (log : Bytes) : Prop where
  header : w.header = rotatedHeader h
  journals : ¬ noJournal h
  inside : n ≤ w.devSize
  entry : i < w.bat.length
  fits : EntryFits r i
  room : sectorOffset r i + logSectorSize ≤ w.devSize
  length : log.length = l.log.len
  logged : w.dev.bytes l.log.start l.log.len = splice log 0 (journalEntry h n (sectorOffset r i) s)
  sector : w.dev.bytes (sectorOffset r i) logSectorSize = s.1
  past : ∀ k, Unstamped log (rotatedHeader^[k] w.header).logGuid 8192

/-- What is in the log of a world that can be opened again: nothing that its header or a later one could claim, or the
last BAT update. -/
inductive World.Logged (r : VhdxReader) (l : Layout) (w : World) : List LogEntry → Prop
  | clear (log : ClearOf (w.dev.bytes l.log.start l.log.len) w.header) : w.Logged r l []
  | fronted {h : Header} {n i : Nat} {s : Sector} {log : Bytes} {chain : List LogEntry}
      (front : w.Fronted r l h n i s log)
      (writes : writesOf chain = [(sectorOffset r i,s.1)]) : w.Logged r l chain

/-- Opened, the device is the image of `w`, once what is in its log has landed. -/
def World.Stands (r : VhdxReader) (l : Layout) (w : World) (e : Device) : Prop :=
  ∃ regions chain, w.Restartable r l regions chain ∧ w.Behind chain e ∧ w.Logged r l chain

theorem World.Fronted.has_log (hf : w.Fronted r l h n i s log) : ¬ noJournal w.header := by
  rw [hf.header]
  exact hf.journals

theorem World.Fronted.front (hf : w.Fronted r l h n i s log) (hlen : 8192 ≤ l.log.len) :
    w.dev.bytes l.log.start 8192 = journalEntry h n (sectorOffset r i) s := by
  have hback : slice (w.dev.bytes l.log.start l.log.len) 0 8192 = journalEntry h n (sectorOffset r i) s := by
    rw [hf.logged]
    exact slice_splice_same (by rw [length_journalEntry,hf.length]; omega) length_journalEntry.symm
  rw [← hback,Device.slice_bytes_front hlen]

/-- The entry is what is pending. -/
theorem World.Fronted.inPlace (hf : w.Fronted r l h n i s log) (hheaded : w.Headed) (hplaced : w.Placed r l)
    (hready : w.Ready r) :
    ∃ chain, writesOf chain = [(sectorOffset r i,s.1)] ∧ w.InPlace chain := by
  obtain ⟨chain,-,hwrites,hplace⟩ := World.inPlace_of_fronted hheaded hplaced hready hf.header hf.journals hf.inside
    hf.entry hf.fits hf.room
    hf.length hf.logged hf.sector (hf.past 0)
  exact ⟨chain,hwrites,hplace⟩

theorem World.Fronted.stands (hf : w.Fronted r l h n i s log) (hr : w.Restartable r l regions chain) :
    w.Stands r l w.dev := by
  obtain ⟨chain',hwrites,hplace⟩ := hf.inPlace hr.headed hr.placed hr.ready
  have hthen : w.Restartable r l regions chain' := { hr with place := hplace }
  exact ⟨regions,chain',hthen,hthen.behind,.fronted hf hwrites⟩

/-- A log with a quiet front, and nothing in it that has its checksum, has nothing pending. -/
theorem World.Relogged.stands_clear (he : w.Relogged l e) (hr : w.Restartable r l regions chain)
    (hn : ¬ noJournal w.header) (hclear : ClearOf (e.bytes l.log.start l.log.len) w.header)
    (hbroken : Stamped (e.bytes l.log.start 8192) w.header.logGuid 0 → ¬ Sealed (e.bytes l.log.start 8192)) :
    World.Stands r l { w with dev := e } e := by
  obtain ⟨-,hlen⟩ := hr.placed.front hn
  have hstart := hr.placed.log_start
  have hlength := hr.placed.log_len
  have hlarge := hr.headed.log_large hn
  have hword := w.header.logLength.toNat_lt
  have hmib : oneMib = 1048576 := rfl
  have hfront : slice (e.bytes l.log.start l.log.len) 0 8192 = e.bytes l.log.start 8192 := Device.slice_bytes_front hlen
  have hquiet := hclear.front
  rw [hfront] at hquiet
  have hpending : pendingChain e w.header = .ok [] := by
    unfold pendingChain
    rw [hstart,hlength]
    split_ifs
    swap
    · rfl
    have hnone := collectReplayChain_of_quiet hquiet hbroken Device.length_bytes (hclear.past 0)
      (by rw [Device.length_bytes]; omega)
      (by rw [Device.length_bytes]; omega)
    rw [← hfront,splice_slice (by rw [Device.length_bytes]; omega)] at hnone
    exact hnone
  have hthen := hr.relogged he (.of_none hpending)
  exact ⟨regions,[],hthen,hthen.behind,.clear hclear⟩

/-- It lands off the first megabyte and off the log. -/
private theorem World.Logged.landsOff (hl : w.Logged r l chain) (hr : w.Restartable r l regions chain) :
    LandsOff chain headerSection ∧ LandsOff chain l.log := by
  cases hl with
  | clear => exact ⟨fun x hx => absurd hx List.not_mem_nil,fun x hx => absurd hx List.not_mem_nil⟩
  | @fronted h n i s _ _ front writes =>
    have hsmall := hr.ready.entry_lt front.entry
    have hwrite : ∀ x ∈ descriptorsOf chain, x.write = (sectorOffset r i,s.1) := by
      intro x hx
      have hmem : x.write ∈ writesOf chain := List.mem_map_of_mem hx
      rw [writes] at hmem
      exact List.mem_singleton.mp hmem
    refine ⟨fun x hx => ?_,fun x hx => ?_⟩
    · rw [hwrite x hx,s.2]
      exact hr.placed.sector_apart_header front.entry hsmall front.fits
    · rw [hwrite x hx,s.2]
      exact hr.placed.sector_apart_log front.entry hsmall front.fits front.has_log

/-- A device that stands for an image opens as it, and what is in its log is clear then. -/
theorem World.Stands.opens (hs : w.Stands r l e) :
    ∃ t d, Reopened r l e w t d ∧ ClearOf (d.bytes l.log.start l.log.len) t.header := by
  obtain ⟨regions,chain,hr,hb,hl⟩ := hs
  refine ⟨_,_,hr.reopened hb,?_⟩
  by_cases hemp : chain = []
  · subst hemp
    cases hl with
    | clear log => exact log
    | fronted front writes => cases writes
  · rw [hr.place.log_opened hr.placed hr.identified hemp]
    exact clearOf_zeros _

/-- With the entries not all landed, it stands for the same image. -/
theorem World.Behind.partway (hb : w.Behind chain d) (hr : w.Restartable r l regions chain) (hl : w.Logged r l chain)
    (hp : Partway d chain e) : w.Behind chain e := by
  obtain ⟨hheader,hlog⟩ := hl.landsOff hr
  have hextent : allowedExtent d.size chain = d.size := by
    rw [hb.size]
    exact hr.place.extent
  have hsize : e.size = d.size := hp.size.elim id fun hs => hs.trans hextent
  have hoff : ∀ {part : Span} {k : Nat}, LandsOff chain part → part.start ≤ k → k < part.stop → e.byte k = d.byte k :=
      fun {part k} hoff hlo hhi => by
    refine hp.byte k fun hcovered => ?_
    obtain ⟨_,hw,hfrom,hto⟩ := hcovered
    obtain ⟨x,hx,rfl⟩ := List.mem_map.mp hw
    exact Span.apart_iff.mp (hoff x hx) k hfrom hto hlo hhi
  have hlow : ∀ {off len : Nat}, off + len ≤ oneMib → e.bytes off len = d.bytes off len := fun {off len} hin =>
    Device.bytes_congr fun k _ hhi => hoff hheader (Nat.zero_le _)
      (by rw [headerSection,Span.stop,Nat.zero_add]; exact hhi.trans_le hin)
  have hregion : (⟨w.header.logOffset.toNat,w.header.logLength.toNat⟩ : Span) = l.log := hr.placed.logRegion
  refine ⟨hsize.trans hb.size,hp.writable.trans hb.writable,hp.growable.trans hb.growable,?_,?_,?_⟩
  · rw [← hb.pending]
    refine pendingChain_congr (Device.bytes_congr fun k hlo hhi => hoff hlog ?_ ?_)
    · exact hr.placed.log_start.symm.le.trans hlo
    · exact hhi.trans_le (congrArg Span.stop hregion).le
  · have hfits : checkDescriptors (allowedExtent d.size chain) (descriptorsOf chain) = .ok () := by
      rw [hb.size]
      exact hr.place.fits
    rw [← hb.replayed]
    refine Device.ext ?_ ?_ ?_ ?_
    · rw [Device.size_replayed,Device.size_replayed,hsize]
    · rw [Device.byte_replayed (hsize ▸ hfits),Device.byte_replayed hfits]
      exact layAll_again hp.byte
    · rw [Device.writable_replayed,Device.writable_replayed,hp.writable]
    · rw [Device.growable_replayed,Device.growable_replayed,hp.growable]
  · obtain ⟨before,hident⟩ := hb.identified
    have hslots : ∀ x : HeaderSlot, headerAt e e.size x = headerAt d d.size x := by
      intro x
      unfold headerAt
      rw [hsize,hlow x.offset_low]
    refine ⟨before,?_⟩
    exact {
      large := hsize ▸ hident.large
      identifier := (hlow (by decide)).trans hident.identifier
      picked := by
        rw [hslots,hslots]
        exact hident.picked
      logVersion := hident.logVersion
      logRegion := hsize ▸ hident.logRegion
      table := by
        have hone : e.bytes regionTable1Offset regionTableSize = d.bytes regionTable1Offset regionTableSize :=
          hlow (by decide)
        have htwo : e.bytes regionTable2Offset regionTableSize = d.bytes regionTable2Offset regionTableSize :=
          hlow (by decide)
        rw [← hident.table]
        unfold regionsAt tableAt
        rw [hsize,hone,htwo]
      clear := hident.clear }

end stands

section sessions
variable [Crc32c] {r : VhdxReader} {l : Layout} {w : World} {d d' : Device} {t : ReaderState}

/-- The file of a session stands for its world. -/
theorem SoundlyOpened.stands (h : SoundlyOpened r l d t d') (hnum : (t.start d').number + 1 < 2^64)
    (hclear : ClearOf (d'.bytes l.log.start l.log.len) t.header) (hs : World.Session r l (t.start d') w)
    (hw : w.Writable r) : w.Stands r l w.dev := by
  obtain ⟨n,hn⟩ := hs.rotated
  have hpast : ∀ k, Unstamped (d'.bytes l.log.start l.log.len) (rotatedHeader^[k] w.header).logGuid 8192 := fun k => by
    rw [hn,← Function.iterate_add_apply]
    exact hclear.past (k + n)
  obtain ⟨regions,chain,hrestart,hempty⟩ := h.restartable hs hw hnum fun _ => hpast 0
  cases hs.log with
  | untouched header same =>
    obtain ⟨-,-,-,-,hnone⟩ := h.found hs hw
    have hpending := hs.nothing_pending h.session.placed hnone header
    obtain rfl : chain = [] := Outcome.ok.inj (hrestart.place.pending.symm.trans hpending)
    obtain ⟨hheader,hlog⟩ := hempty rfl
    refine ⟨regions,[],hrestart,hrestart.behind,.clear ?_⟩
    rwa [hheader,hlog]
  | fronted g m i s header journals later inside entry fits room log sector =>
    have hfront : w.Fronted r l g m i s (d'.bytes l.log.start l.log.len) :=
      ⟨header,journals,inside,entry,fits,room,Device.length_bytes,log,sector,hpast⟩
    exact hfront.stands hrestart

end sessions
end ImgVhdx
