import ImgVhdx.Log.Batches
import ImgVhdx.Reader.Journal
import ImgVhdx.Reader.Opening

/-! The header a reader holds against the one that would be picked on its device: after an open, and
after any number of rotations. -/
namespace ImgVhdx
open Lib DevProg

section
variable [Crc32c]

/-- The header in the reader is the one that is picked on the device. -/
def World.Current (w : World) : Prop := (pickHeader w.dev.size).on w.dev = (.ok (w.header,w.slot),w.dev)

/-- Open by whichever of the two calls on a device. -/
def Opens (d : Device) (r : VhdxReader) (s : ReaderState) (d' : Device) : Prop :=
  (openOnDevice d).on d = (.ok (r,s),d') ∨ (openRwOnDevice d).on d = (.ok (r,s),d')

variable {d d' : Device} {header k : Header} {slot : HeaderSlot} {w w' : World}

theorem Opens.inner {r : VhdxReader} {s : ReaderState} (h : Opens d r s d') :
    ∃ writable rc, (rc = true → d.writable = true) ∧ (openInner writable rc).on d = (.ok (r,s),d') := by
  rcases h with h | h
  · exact ⟨false,d.writable,id,h⟩
  · unfold openRwOnDevice at h
    by_cases hw : d.writable = true
    · rw [if_neg (not_not.mpr hw)] at h
      exact ⟨true,true,fun _ => hw,h⟩
    · rw [if_pos hw] at h
      cases (Prod.mk.inj h).1

theorem World.current_iff : w.Current ↔
    preferHeader (headerAt w.dev w.dev.size .one) (headerAt w.dev w.dev.size .two) = .ok (w.header,w.slot) := by
  unfold World.Current
  rw [on_pickHeader le_rfl,Prod.mk.injEq]
  exact and_iff_left rfl

/-- The header that is picked is the one in its slot. -/
theorem headerAt_of_picked {n : Nat} (h : preferHeader (headerAt d n .one) (headerAt d n .two) = .ok (header,slot)) :
    headerAt d n slot = some header := by
  cases h1 : headerAt d n .one <;> cases h2 : headerAt d n .two <;> rw [h1,h2] at h <;> simp only [preferHeader] at h
  · cases h
  · obtain ⟨rfl,rfl⟩ := Prod.mk.inj (Outcome.ok.inj h)
    exact h2
  · obtain ⟨rfl,rfl⟩ := Prod.mk.inj (Outcome.ok.inj h)
    exact h1
  · split_ifs at h
    · obtain ⟨rfl,rfl⟩ := Prod.mk.inj (Outcome.ok.inj h)
      exact h1
    · obtain ⟨rfl,rfl⟩ := Prod.mk.inj (Outcome.ok.inj h)
      exact h2

theorem headerAt_congr {n m : Nat} {x : HeaderSlot} (hb : d'.bytes x.offset headerSize = d.bytes x.offset headerSize)
    (hn : x.offset + headerSize ≤ n) (hm : x.offset + headerSize ≤ m) : headerAt d' m x = headerAt d n x := by
  unfold headerAt
  rw [if_neg (by omega),if_neg (by omega),hb]

/-- Only the version this crate writes parses. -/
theorem version_of_headerAt {n : Nat} {x : HeaderSlot} (h : headerAt d n x = some header) :
    header.version = headerVersion := by
  unfold headerAt at h
  split_ifs at h with hn
  rw [Outcome.value_eq_some,Header.parse_of_le (by simp)] at h
  split_ifs at h with h1 h2 h3
  rw [← Outcome.ok.inj h]
  exact not_not.mp h3

omit [Crc32c] in
theorem HeaderSlot.apart (x : HeaderSlot) :
    x.offset + headerSize ≤ x.other.offset ∨ x.other.offset + headerSize ≤ x.offset := by
  cases x <;> decide

/-- A header written into a slot is the one there. -/
private theorem headerAt_put_same {n : Nat} {x : HeaderSlot} (hv : k.version = headerVersion)
    (hn : x.offset + headerSize ≤ n) (hd : n ≤ d.size) : headerAt (d.put x.offset (encodeHeader k)) n x = some k := by
  have hlen : (encodeHeader k).length = headerSize := length_encodeHeader k
  have hb := Device.bytes_put_same (d := d) (o := x.offset) (b := encodeHeader k) (by rw [hlen]; omega)
  rw [hlen] at hb
  unfold headerAt
  rw [if_neg (Nat.not_lt.mpr hn),hb,Header.parse_encodeHeader k hv]
  rfl

private theorem headerAt_put_other {n : Nat} {x : HeaderSlot} (hn : x.offset + headerSize ≤ n) :
    headerAt (d.put x.other.offset (encodeHeader k)) n x = headerAt d n x := by
  refine headerAt_congr (Device.bytes_put_of_disjoint ?_) hn hn
  rw [length_encodeHeader]
  exact x.apart

/-- A header with the next sequence number, written into the other slot, is the one picked next. -/
theorem picked_of_rotated {n : Nat} (h : headerAt d n slot = some header) (hv : k.version = headerVersion)
    (hseq : k.sequenceNumber.toNat = header.sequenceNumber.toNat + 1) (hn : ∀ x : HeaderSlot, x.offset + headerSize ≤ n)
    (hd : n ≤ d.size) : preferHeader (headerAt (d.put slot.other.offset (encodeHeader k)) n .one)
      (headerAt (d.put slot.other.offset (encodeHeader k)) n .two) = .ok (k,slot.other) := by
  have hold := (headerAt_put_other (d := d) (k := k) (hn slot)).trans h
  have hnew := headerAt_put_same (d := d) hv (hn slot.other) hd
  cases slot with
  | one =>
    have hlt : ¬ header.sequenceNumber ≥ k.sequenceNumber := by
      rw [ge_iff_le,UInt64.le_iff_toNat_le]
      omega
    rw [show HeaderSlot.one.other = .two from rfl] at *
    rw [hold,hnew,preferHeader,if_neg hlt]
  | two =>
    have hge : k.sequenceNumber ≥ header.sequenceNumber := by
      rw [ge_iff_le,UInt64.le_iff_toNat_le]
      omega
    rw [show HeaderSlot.two.other = .one from rfl] at *
    rw [hold,hnew,preferHeader,if_pos hge]

/-- A header with a smaller sequence number, written into the other slot, is passed over. -/
theorem picked_of_wrapped {n : Nat} (h : headerAt d n slot = some header) (hv : k.version = headerVersion)
    (hseq : k.sequenceNumber.toNat < header.sequenceNumber.toNat) (hn : ∀ x : HeaderSlot, x.offset + headerSize ≤ n)
    (hd : n ≤ d.size) : preferHeader (headerAt (d.put slot.other.offset (encodeHeader k)) n .one)
      (headerAt (d.put slot.other.offset (encodeHeader k)) n .two) = .ok (header,slot) := by
  have hold := (headerAt_put_other (d := d) (k := k) (hn slot)).trans h
  have hnew := headerAt_put_same (d := d) hv (hn slot.other) hd
  cases slot with
  | one =>
    have hge : header.sequenceNumber ≥ k.sequenceNumber := by
      rw [ge_iff_le,UInt64.le_iff_toNat_le]
      omega
    rw [show HeaderSlot.one.other = .two from rfl] at *
    rw [hold,hnew,preferHeader,if_pos hge]
  | two =>
    have hlt : ¬ k.sequenceNumber ≥ header.sequenceNumber := by
      rw [ge_iff_le,UInt64.le_iff_toNat_le]
      omega
    rw [show HeaderSlot.two.other = .one from rfl] at *
    rw [hold,hnew,preferHeader,if_neg hlt]

/-- The header a reader holds is in its slot, both slots are inside the file, and a log that is journalled
into is whole megabytes past the first one. -/
structure World.Anchored (w : World) : Prop where
  held : headerAt w.dev w.dev.size w.slot = some w.header
  slots : ∀ x : HeaderSlot, x.offset + headerSize ≤ w.dev.size
  log : ¬ noJournal w.header → oneMib ≤ w.header.logOffset.toNat ∧
    w.header.logOffset.toNat + w.header.logLength.toNat ≤ w.dev.size ∧ w.header.logLength.toNat % oneMib = 0

/-- And it is the one that would be picked. -/
structure World.Headed (w : World) : Prop extends w.Anchored where
  current : preferHeader (headerAt w.dev w.dev.size .one) (headerAt w.dev w.dev.size .two) = .ok (w.header,w.slot)

/-- A step of the reader that is not a rotation leaves both slots and the file's end at least where it was. -/
structure SlotsKept (a b : World) : Prop where
  header : b.header = a.header
  slot : b.slot = a.slot
  size : a.dev.size ≤ b.dev.size
  bytes : ∀ x : HeaderSlot, b.dev.bytes x.offset headerSize = a.dev.bytes x.offset headerSize

theorem World.Anchored.kept (h : w.Anchored) (hk : SlotsKept w w') : w'.Anchored where
  held := by
    rw [hk.header,hk.slot,← h.held]
    exact headerAt_congr (hk.bytes _) (h.slots _) ((h.slots _).trans hk.size)
  slots x := (h.slots x).trans hk.size
  log hn := by
    rw [hk.header] at hn ⊢
    obtain ⟨hlow,hend,hlen⟩ := h.log hn
    exact ⟨hlow,hend.trans hk.size,hlen⟩

theorem World.Headed.kept (h : w.Headed) (hk : SlotsKept w w') : w'.Headed where
  toAnchored := h.toAnchored.kept hk
  current := by
    rw [hk.header,hk.slot,← h.current]
    exact congrArg₂ _ (headerAt_congr (hk.bytes .one) (h.slots _) ((h.slots _).trans hk.size))
      (headerAt_congr (hk.bytes .two) (h.slots _) ((h.slots _).trans hk.size))

omit [Crc32c] in
theorem HeaderSlot.offset_low (x : HeaderSlot) : x.offset + headerSize ≤ oneMib := by cases x <;> decide

section journalled
variable {off : Nat} {s : Sector}

/-- The entry in the log leaves the slots alone. -/
private theorem World.Anchored.held_logged (h : w.Anchored) (hn : ¬ noJournal w.header) : headerAt
    (w.dev.put w.header.logOffset.toNat (journalEntry w.header w.devSize off s)) w.dev.size w.slot = some w.header := by
  rw [← h.held]
  refine headerAt_congr (Device.bytes_put_of_disjoint (.inl ?_)) (h.slots _) (h.slots _)
  have := w.slot.offset_low
  have := (h.log hn).1
  omega

theorem World.Anchored.version (h : w.Anchored) : w.header.version = headerVersion := version_of_headerAt h.held

theorem World.Anchored.journalled (h : w.Anchored) : (w.journalled off s).Anchored where
  held := headerAt_put_same (k := rotatedHeader w.header) h.version (h.slots _) le_rfl
  slots := h.slots
  log := h.log

/-- A journalled write moves the header on, unless the sequence number has nowhere to go. -/
theorem World.Anchored.headed_journalled (h : w.Anchored) (hn : ¬ noJournal w.header)
    (hseq : w.header.sequenceNumber.toNat + 1 < 2^64) : (w.journalled off s).Headed where
  toAnchored := h.journalled
  current := picked_of_rotated (k := rotatedHeader w.header) (h.held_logged hn) h.version (toNat_succ_seq hseq) h.slots le_rfl

/-- From the last sequence number the rotation goes to zero, and the old header is picked again. -/
theorem World.Anchored.picked_after_last (h : w.Anchored) (hn : ¬ noJournal w.header)
    (hseq : w.header.sequenceNumber.toNat + 1 = 2^64) : preferHeader (headerAt (w.journalled off s).dev w.dev.size .one)
      (headerAt (w.journalled off s).dev w.dev.size .two) = .ok (w.header,w.slot) := by
  refine picked_of_wrapped (k := rotatedHeader w.header) (h.held_logged hn) h.version ?_ h.slots le_rfl
  have hzero : (rotatedHeader w.header).sequenceNumber.toNat = 0 := by
    change (w.header.sequenceNumber + 1).toNat = 0
    rw [UInt64.toNat_add]
    change (w.header.sequenceNumber.toNat + 1) % 2^64 = 0
    rw [hseq,Nat.mod_self]
  omega

private theorem World.Anchored.not_current_of_last (h : w.Anchored) (hn : ¬ noJournal w.header)
    (hseq : w.header.sequenceNumber.toNat + 1 = 2^64) : ¬ (w.journalled off s).Current := by
  intro hc
  have hpick := (World.current_iff.mp hc).symm.trans (h.picked_after_last hn hseq)
  have hslot : w.slot.other = w.slot := (Prod.mk.inj (Outcome.ok.inj hpick)).2
  cases hs : w.slot <;> rw [hs] at hslot <;> cases hslot

end journalled

/-- A journalled write changes no byte of the first megabyte but those of the slot that was not current. -/
private theorem World.Anchored.byte_journalled (h : w.Anchored) (hn : ¬ noJournal w.header) {off : Nat} {s : Sector}
    {i : Nat} (hi : i < oneMib) (hslot : i < w.slot.other.offset ∨ w.slot.other.offset + headerSize ≤ i) :
    (w.journalled off s).dev.byte i = w.dev.byte i := by
  have hlog := (h.log hn).1
  refine (Device.byte_put_of_outside ?_).trans (Device.byte_put_of_outside (.inl (by omega)))
  rwa [length_encodeHeader]

theorem Journals.anchored {n : Nat} (hrun : Journals SlotsKept w n w') (h : w.Anchored) : w'.Anchored := by
  induction hrun with
  | start => exact h
  | other _ hb ih => exact ih.kept hb
  | journal _ hn hr ih =>
    obtain ⟨-,-,-,rfl⟩ := (journalSectorWrite_eq_ok hn).mp hr
    exact ih.journalled

/-- A run of journalled writes that does not wrap the sequence number keeps the header current. -/
theorem Journals.headed {n : Nat} (hrun : Journals SlotsKept w n w') (h : w.Headed)
    (hseq : w.header.sequenceNumber.toNat + n < 2^64) :
    w'.Headed ∧ w'.header.sequenceNumber.toNat = w.header.sequenceNumber.toNat + n := by
  induction hrun with
  | start => exact ⟨h,rfl⟩
  | other _ hb ih =>
    obtain ⟨hh,hq⟩ := ih hseq
    exact ⟨hh.kept hb,by rw [hb.header,hq]⟩
  | journal _ hn hr ih =>
    obtain ⟨hh,hq⟩ := ih (by omega)
    obtain ⟨-,-,-,rfl⟩ := (journalSectorWrite_eq_ok hn).mp hr
    refine ⟨hh.headed_journalled hn (by omega),?_⟩
    exact (toNat_succ_seq (by omega)).trans (by rw [hq,Nat.add_assoc])

/-- An open of the device picks `header` and finds `chain` in its log. -/
def FindsChain (d : Device) (header : Header) (slot : HeaderSlot) (chain : List LogEntry) : Prop :=
  (∃ before, Identified d header slot before) ∧ pendingChain d header = .ok chain

/-- No descriptor of the chain lands on the span. -/
def LandsOff (chain : List LogEntry) (span : Span) : Prop :=
  ∀ x ∈ descriptorsOf chain, (Span.mk x.write.1 x.write.2.length).Apart span

omit [Crc32c] in
/-- A chain that lands off a span leaves its bytes. -/
theorem bytes_replayed {chain : List LogEntry} {off len : Nat} (hc : LandsOff chain ⟨off,len⟩) :
    (d.replayed chain).bytes off len = d.bytes off len := by
  refine Device.bytes_congr fun i hlo hhi => ?_
  refine (Device.byte_putAll_of_outside fun p hp => ?_).trans (Device.byte_resize_of_le (le_allowedExtent _ _) i)
  obtain ⟨e,he,rfl⟩ := List.mem_map.mp hp
  have := hc e he
  unfold Span.Apart Span.stop at this
  dsimp only at this
  omega

theorem headerAt_replayed {chain : List LogEntry} {n : Nat} {x : HeaderSlot} (hc : LandsOff chain ⟨x.offset,headerSize⟩)
    (hn : x.offset + headerSize ≤ d.size) (hm : x.offset + headerSize ≤ n) :
    headerAt (d.replayed chain) n x = headerAt d d.size x := headerAt_congr (bytes_replayed hc) hn hm

private theorem tableAt_replayed {chain : List LogEntry} {off : Nat} (hc : LandsOff chain ⟨off,regionTableSize⟩)
    (hn : off + regionTableSize ≤ d.size) :
    tableAt (d.replayed chain) (d.replayed chain).size off = tableAt d d.size off := by
  have hle : d.size ≤ (d.replayed chain).size := (le_allowedExtent _ _).trans Device.size_replayed.ge
  unfold tableAt
  rw [if_neg (by omega),if_neg (by omega),bytes_replayed hc]

/-- A chain that lands on neither copy of the region table leaves the one that is picked. -/
theorem regionsAt_replayed {chain : List LogEntry} {before : RegionTable} (h : regionsAt d d.size = .ok before)
    (h1 : LandsOff chain ⟨regionTable1Offset,regionTableSize⟩)
    (h2 : LandsOff chain ⟨regionTable2Offset,regionTableSize⟩) :
    regionsAt (d.replayed chain) (d.replayed chain).size = .ok before := by
  have hlater : regionTable1Offset + regionTableSize ≤ regionTable2Offset + regionTableSize := by decide
  have hin : ∀ off t, tableAt d d.size off = some t → off + regionTableSize ≤ d.size := by
    intro off t ht
    unfold tableAt at ht
    split_ifs at ht with hn
    omega
  rw [← h]
  unfold regionsAt at h ⊢
  cases ht1 : tableAt d d.size regionTable1Offset with
  | some t => rw [tableAt_replayed h1 (hin _ t ht1),ht1]
  | none =>
    rw [ht1] at h
    cases ht2 : tableAt d d.size regionTable2Offset with
    | some t => rw [tableAt_replayed h1 (hlater.trans (hin _ t ht2)),tableAt_replayed h2 (hin _ t ht2),ht1,ht2]
    | none =>
      rw [ht2] at h
      cases h

omit [Crc32c] in
theorem HeaderSlot.before_tables (x : HeaderSlot) : x.offset + headerSize ≤ regionTable1Offset := by cases x <;> decide

/-- Past the headers and off the log, consuming the log leaves every byte. -/
theorem Device.bytes_erased {off len : Nat} (hlow : regionTable1Offset ≤ off)
    (hlog : off + len ≤ header.logOffset.toNat ∨ header.logOffset.toNat + header.logLength.toNat ≤ off) :
    (d.erased header slot).bytes off len = d.bytes off len := by
  have hslot := slot.other.before_tables
  unfold Device.erased
  rw [Device.bytes_put_of_disjoint (by rw [length_encodeHeader]; omega),Device.bytes_put_of_disjoint
    (by rw [length_zeros]; omega)]

theorem Device.size_opened {chain : List LogEntry} : (d.opened header slot chain).size = (d.replayed chain).size := by
  unfold Device.opened
  split_ifs with hemp
  · rw [List.isEmpty_iff.mp hemp,Device.replayed_nil]
  · rfl

section opened
variable {writable rc : Bool} {chain : List LogEntry} {regions : RegionTable} {r : VhdxReader} {s : ReaderState}

/-- The reader an open returns holds a header that is in its slot. -/
theorem Opened.anchored (h : Opened d writable rc header slot chain regions r s) :
    (s.start (d.opened header slot chain)).Anchored := by
  obtain ⟨before,hident⟩ := h.identified
  obtain ⟨-,-,hheader,hslot⟩ := loadDisk_inv h.loads
  have hin : ∀ x : HeaderSlot, x.offset + headerSize ≤ d.size := slots_inside hident.table
  have hheld := headerAt_of_picked hident.picked
  have hversion : header.version = headerVersion := version_of_headerAt hheld
  have hle : d.size ≤ (d.replayed chain).size := (le_allowedExtent _ _).trans Device.size_replayed.ge
  have hlog : header.logLength ≠ 0 → oneMib ≤ header.logOffset.toNat ∧
      header.logOffset.toNat + header.logLength.toNat ≤ d.size ∧ header.logLength.toNat % oneMib = 0 := fun hl => by
    obtain ⟨-,hmod,hlow,-,hend⟩ := validateLogRegion_eq_ok hident.logRegion hl
    exact ⟨hlow,hend,hmod⟩
  by_cases hemp : chain = []
  · subst hemp
    exact {
      held := by
        change headerAt d d.size s.slot = some s.header
        rw [hheader,hslot]
        exact hheld
      slots := hin
      log := by
        change ¬ noJournal s.header → oneMib ≤ s.header.logOffset.toNat ∧
          s.header.logOffset.toNat + s.header.logLength.toNat ≤ d.size ∧ s.header.logLength.toNat % oneMib = 0
        rw [hheader]
        exact fun hn => hlog fun h0 => hn (.inl h0) }
  · have hne : ¬ chain.isEmpty = true := by simpa using hemp
    rw [show d.opened header slot chain = (d.replayed chain).erased header slot from if_neg hne]
    rw [show headerAfter header slot chain = (clearedHeader header,slot.other) from if_neg hne] at hheader hslot
    exact {
      held := by
        change headerAt _ (d.replayed chain).size s.slot = some s.header
        rw [hheader,hslot]
        exact headerAt_put_same (k := clearedHeader header) hversion ((hin _).trans hle) le_rfl
      slots x := (hin x).trans hle
      log := by
        change ¬ noJournal s.header → oneMib ≤ s.header.logOffset.toNat ∧
          s.header.logOffset.toNat + s.header.logLength.toNat ≤ (d.replayed chain).size ∧
            s.header.logLength.toNat % oneMib = 0
        rw [hheader]
        intro hn
        obtain ⟨hlow,hend,hmod⟩ := hlog fun h0 => hn (.inl h0)
        exact ⟨hlow,hend.trans hle,hmod⟩ }

/-- And, where the chain left the slots alone, one that is picked on the device open leaves. -/
theorem Opened.headed (h : Opened d writable rc header slot chain regions r s)
    (hc : ∀ x : HeaderSlot, LandsOff chain ⟨x.offset,headerSize⟩)
    (hseq : chain ≠ [] → header.sequenceNumber.toNat + 1 < 2^64) :
    (s.start (d.opened header slot chain)).Headed := by
  refine ⟨h.anchored,?_⟩
  obtain ⟨before,hident⟩ := h.identified
  obtain ⟨-,-,hheader,hslot⟩ := loadDisk_inv h.loads
  by_cases hemp : chain = []
  · subst hemp
    change preferHeader (headerAt d d.size .one) (headerAt d d.size .two) = .ok (s.header,s.slot)
    rw [hheader,hslot]
    exact hident.picked
  · have hne : ¬ chain.isEmpty = true := by simpa using hemp
    have hin : ∀ x : HeaderSlot, x.offset + headerSize ≤ d.size := slots_inside hident.table
    have hle : d.size ≤ (d.replayed chain).size := (le_allowedExtent _ _).trans Device.size_replayed.ge
    obtain ⟨-,-,hlow,-⟩ := hident.log_inside h.replays.pending hemp
    have hheld := headerAt_of_picked hident.picked
    have hversion : header.version = headerVersion := version_of_headerAt hheld
    rw [show d.opened header slot chain = (d.replayed chain).erased header slot from if_neg hne]
    rw [show headerAfter header slot chain = (clearedHeader header,slot.other) from if_neg hne] at hheader hslot
    have hold : headerAt ((d.replayed chain).put header.logOffset.toNat (zeros header.logLength.toNat))
      (d.replayed chain).size slot =
        some header := by
      have hp := slot.offset_low
      rw [headerAt_congr (Device.bytes_put_of_disjoint (.inl (by omega))) (hin slot) ((hin slot).trans hle),
        headerAt_replayed (hc slot) (hin slot) (hin slot),hheld]
    change preferHeader (headerAt _ (d.replayed chain).size .one) (headerAt _ (d.replayed chain).size .two) =
      .ok (s.header,s.slot)
    rw [hheader,hslot]
    exact picked_of_rotated (k := clearedHeader header) hold hversion (toNat_succ_seq (hseq hemp))
      (fun x => (hin x).trans hle) le_rfl

end opened

theorem Opens.anchored {r : VhdxReader} {s : ReaderState} (h : Opens d r s d') : (s.start d').Anchored := by
  obtain ⟨writable,rc,hw,hinner⟩ := h.inner
  obtain ⟨header,slot,chain,regions,hopened,rfl⟩ := openInner_inv hw hinner
  exact hopened.anchored

theorem FindsChain.unique {slot' : HeaderSlot} {chain chain' : List LogEntry} (h : FindsChain d header slot chain)
    (h2 : FindsChain d k slot' chain') : header = k ∧ slot = slot' ∧ chain = chain' := by
  obtain ⟨⟨_,hi⟩,hp⟩ := h
  obtain ⟨⟨_,hi2⟩,hp2⟩ := h2
  obtain ⟨rfl,rfl⟩ := Prod.mk.inj (Outcome.ok.inj (hi.picked.symm.trans hi2.picked))
  exact ⟨rfl,rfl,Outcome.ok.inj (hp.symm.trans hp2)⟩

end

section dirty
variable [Crc32c]

omit [Crc32c] in
private theorem length_one_zeros : (1 :: zeros 15 : Bytes).length = 16 := by rw [List.length_cons,length_zeros]

/-- The image of one block with an entry of one write in its log, which is to grow the file to `last` bytes. -/
def dirtied (w : PendingWrite) (last : UInt64) : Build :=
  { oneLogged 5 with
    header := { (oneLogged 5).header with logGuid := ⟨1 :: zeros 15,length_one_zeros⟩ }
    body := [(oneMib,encodeEntry 7 0 ⟨1 :: zeros 15,length_one_zeros⟩ last last [w])] }

def dirtiedChain (w : PendingWrite) (last : UInt64) :
    List LogEntry := [encodedEntry 0 7 0 ⟨1 :: zeros 15,length_one_zeros⟩ last last [w]]

variable {w : PendingWrite} {last : UInt64} {d : Device} {b : Build} {entries : Nat}

theorem dirtied_valid : (dirtied w last).Valid 1 :=
  { oneLogged_valid 5 with body := by simp [dirtied] }

theorem length_dirtiedEntry {g : Guid} : (encodeEntry 7 0 g last last [w]).length = 8192 :=
  (encodeEntry_isEncoded (by rw [encodedLength_single]; decide)).length.trans (encodedLength_single w)

/-- Whatever else becomes of the file, the entry is pending while its log is as built. -/
theorem dirtied_pending (h : d.bytes oneMib oneMib = (dirtied w last).device.bytes oneMib oneMib) :
    pendingChain d (dirtied w last).header = .ok (dirtiedChain w last) := by
  have hguid : isZeroGuid (dirtied w last).header.logGuid = false := by simp [dirtied,isZeroGuid]
  have hregion : (dirtied w last).device.bytes oneMib oneMib =
      splice (zeros 1048576) 0 (encodeEntry 7 0 (dirtied w last).header.logGuid last last [w]) := by
    rw [Build.bytes_device le_rfl (.inl (show oneMib + oneMib ≤ 2097152 by decide))]
    refine (Device.bytes_put_within (k := 0) ?_ (show oneMib + oneMib ≤ 4194304 by decide)).trans ?_
    · rw [length_dirtiedEntry]
      decide
    · rw [Device.bytes_zeroed]
      rfl
  unfold pendingChain
  rw [if_pos ⟨by rw [hguid]; exact Bool.false_ne_true,show 0 < (1048576 : UInt32).toNat by decide,
    show 0 < (1048576 : UInt64).toNat by decide⟩]
  change collectReplayChain (d.bytes oneMib oneMib) _ = _
  rw [h,hregion]
  exact collect_single (by decide) (by decide) (by decide) (by rw [encodedLength_single]; decide) hguid

omit [Crc32c] in
/-- Its one write lands off whatever is before it. -/
theorem dirtied_landsOff {n : Nat} (h : n ≤ w.fileOffset.toNat) {x : Span} (hx : x.stop ≤ n) :
    LandsOff (dirtiedChain w last) x := by
  intro y hy
  obtain rfl : y = w.descriptor 7 := by simpa [descriptorsOf,dirtiedChain,encodedEntry] using hy
  exact (min_le_right _ _).trans ((hx.trans h).trans (le_max_left _ _))

omit [Crc32c] in
theorem allowedExtent_dirtied {n : Nat} (h : n ≤ last.toNat) (hmax : last.toNat ≤ n + descriptorGrowth)
    (hn : n + descriptorGrowth < 2^64) :
    allowedExtent n (dirtiedChain w last) = last.toNat := by
  have hg : descriptorGrowth = 268435456 := rfl
  simp only [allowedExtent,dirtiedChain,encodedEntry,List.map_cons,List.map_nil,List.sum_cons,List.sum_nil,
    List.length_cons,List.length_nil,
    List.foldl_cons,List.foldl_nil,saturatingAdd,saturatingMul,hg] at *
  omega

omit [Crc32c] in
theorem dirtied_fits (hw : w.fileOffset.toNat + logSectorSize ≤ last.toNat) (h : 4194304 ≤ last.toNat)
    (hmax : last.toNat ≤ 4194304 + descriptorGrowth) :
    checkDescriptors (allowedExtent 4194304 (dirtiedChain w last)) (descriptorsOf (dirtiedChain w last)) = .ok () := by
  have hgrown : allowedExtent 4194304 (dirtiedChain w last) = last.toNat := allowedExtent_dirtied h hmax (by decide)
  rw [hgrown,checkDescriptors_eq_ok]
  intro y hy
  obtain rfl : y = w.descriptor 7 := by simpa [descriptorsOf,dirtiedChain,encodedEntry] using hy
  change w.fileOffset.toNat + w.sector.1.length < 2^64 ∧ w.fileOffset.toNat + w.sector.1.length ≤ last.toNat
  rw [w.sector.2]
  exact ⟨hw.trans_lt last.toNat_lt,hw⟩

/-- The disk of a built image loads off every file that has its metadata where the image has it. -/
theorem Build.Valid.loads (h : b.Valid entries) {d : Device} {n : Nat} (hn : b.size ≤ n) (hd : n ≤ d.size)
    (hm : d.bytes b.metaOffset metadataRegionSize = b.device.bytes b.metaOffset metadataRegionSize) (k : Header)
    (t : HeaderSlot) :
    (loadDisk n k t b.regions true).on d =
    (.ok (b.reader,⟨n,k,t,decodeBat (d.bytes b.batOffset (entries * batEntrySize))⟩),d) := by
  have hmeta := h.meta_high
  have hbat := h.bat_high
  have hsize := h.size
  have hread : (readMetadata n b.regions).on d = (.ok (writtenDisk oneMib b.virtualSize 512),d) := by
    refine ImgVhdx.on_readMetadata (m := ⟨Guids.metadata,b.metaOffset,metadataRegionSize,true⟩) rfl
      (hmeta.trans_lt hsize) (hmeta.trans hn) hd ?_
      (diskParameters_written (by decide) h.virtualSize (by decide))
    rw [hm,h.bytes_metadata,parse_encodeMetadata]
  unfold loadDisk
  simp only [on]
  rw [Prog.run_bind_of_ok hread]
  refine on_finishOpen (r := b.reader) rfl rfl rfl rfl (show 4096 = chunkRatio oneMib 512 by decide) (.inl rfl)
    (show ((0:Nat) &&& 2 != 0) = false by decide) rfl ?_
  exact on_readBat (b := ⟨Guids.bat,b.batOffset,b.batLen,true⟩) rfl (hbat.trans_lt hsize) (hbat.trans hn) h.covers h.entries hd

/-- A dirty image whose one write is past its metadata opens on a device that can be written and grown. -/
theorem dirtied_opened (hlow : 4194304 ≤ w.fileOffset.toNat) (hw : w.fileOffset.toNat + logSectorSize ≤ last.toNat)
    (hmax : last.toNat ≤ 4194304 + descriptorGrowth) :
    ∃ s, Opened (dirtied w last).device true true (dirtied w last).header .one
      (dirtiedChain w last) (dirtied w last).regions (dirtied w last).reader s := by
  have hvalid : (dirtied w last).Valid 1 := dirtied_valid
  have hident := hvalid.identified
  have hsize : (dirtied w last).device.size = 4194304 := Build.size_device
  have hoff : ∀ {x : Span}, x.stop ≤ 4194304 → LandsOff (dirtiedChain w last) x := dirtied_landsOff hlow
  have htable : regionsAt ((dirtied w last).device.replayed (dirtiedChain w last))
    ((dirtied w last).device.replayed (dirtiedChain w last)).size =
      .ok (dirtied w last).regions := regionsAt_replayed hident.table (hoff (by decide)) (hoff (by decide))
  refine ⟨_,{
    identified := ⟨_,hident⟩
    replays := ⟨dirtied_pending rfl,fun _ => ?_,fun _ => .inl rfl⟩
    capable _ := rfl
    table := htable
    known := rfl
    clear := hident.clear
    loads := hvalid.loads ?_ ?_ ?_ _ _ }⟩
  · rw [hsize]
    exact dirtied_fits hw (by omega) hmax
  · exact (Build.size_device (b := dirtied w last)).ge.trans ((le_allowedExtent _ _).trans Device.size_replayed.ge)
  · exact le_rfl
  · have hlog : (dirtied w last).header.logOffset.toNat + (dirtied w last).header.logLength.toNat ≤
      (dirtied w last).metaOffset :=
      show 1048576 + 1048576 ≤ 2097152 by decide
    exact (Device.bytes_erased (show regionTable1Offset ≤ 2097152 by decide) (.inr hlog)).trans
      (bytes_replayed (hoff (show 2097152 + metadataRegionSize ≤ 4194304 by decide)))

/-- An entry that zeroes a sector behind the file and makes it a megabyte longer: the image opens in place. -/
theorem dirtied_openRw :
    let b := dirtied ⟨4194304,⟨zeros logSectorSize,length_zeros _⟩⟩ 5242880
    let chain := dirtiedChain ⟨4194304,⟨zeros logSectorSize,length_zeros _⟩⟩ 5242880
    ∃ s, Opened b.device true true b.header .one chain b.regions b.reader s ∧
      (openRwOnDevice b.device).on b.device = (.ok (b.reader,s),b.device.opened b.header .one chain) ∧
      (b.device.opened b.header .one chain).size = 5242880 := by
  intro b chain
  have hmax : (5242880 : UInt64).toNat ≤ 4194304 + descriptorGrowth := by decide
  have hwritable : b.device.writable = true := rfl
  obtain ⟨s,hs⟩ := dirtied_opened (w := ⟨4194304,⟨zeros logSectorSize,length_zeros _⟩⟩)
    (show 4194304 ≤ (4194304 : UInt64).toNat by decide)
    (show (4194304 : UInt64).toNat + logSectorSize ≤ (5242880 : UInt64).toNat by decide) hmax
  refine ⟨s,hs,?_,?_⟩
  · rw [openRwOnDevice_of_writable hwritable]
    exact hs.on_openInner fun _ => hwritable
  · rw [Device.size_opened,Device.size_replayed,show b.device.size = 4194304 from Build.size_device]
    exact allowedExtent_dirtied (show 4194304 ≤ (5242880 : UInt64).toNat by decide) hmax (by decide)

end dirty

section
variable [Crc32c] {d d' : Device} {header : Header} {slot : HeaderSlot}

/-- After an open, and after any number of journalled writes, the reader's header and slot are what would be picked on
its device, and each rotation overwrote only the slot that was not current, so long as no rotation is made from the last
sequence number there is. -/
theorem header_current_in_every_run {r : VhdxReader} {s : ReaderState} {chain : List LogEntry} (hopen : Opens d r s d')
    (hfinds : FindsChain d header slot chain) (hclear : ∀ x : HeaderSlot, LandsOff chain ⟨x.offset,headerSize⟩)
    (hseq : chain ≠ [] → header.sequenceNumber.toNat + 1 < 2^64) :
    (chain ≠ [] → s.slot = slot.other ∧ ∀ i < oneMib, i < s.slot.offset ∨ s.slot.offset + headerSize ≤ i →
      d'.byte i = (d.replayed chain).byte i) ∧
    ∀ n w, Journals SlotsKept (s.start d') n w → s.header.sequenceNumber.toNat + n < 2^64 → w.Current ∧
      ∀ off (sector : Sector) w', ¬ noJournal w.header → (journalSectorWrite off sector.1).run World.handle w = (.ok (),w') →
        ∀ i < oneMib, i < w.slot.other.offset ∨ w.slot.other.offset + headerSize ≤ i → w'.dev.byte i = w.dev.byte i := by
  obtain ⟨writable,rc,hw,hinner⟩ := hopen.inner
  obtain ⟨h1,slot1,chain1,regions,hopened,rfl⟩ := openInner_inv hw hinner
  obtain ⟨rfl,rfl,rfl⟩ := hfinds.unique ⟨hopened.identified,hopened.replays.pending⟩
  have hheaded := hopened.headed hclear hseq
  refine ⟨fun hne => ?_,fun n w hrun hn => ?_⟩
  · have hemp : ¬ chain.isEmpty = true := by simpa using hne
    obtain ⟨-,-,-,hslot⟩ := loadDisk_inv hopened.loads
    rw [show headerAfter header slot chain = (clearedHeader header,slot.other) from if_neg hemp] at hslot
    obtain ⟨before,hident⟩ := hopened.identified
    obtain ⟨-,-,hlow,-⟩ := hident.log_inside hopened.replays.pending hne
    refine ⟨hslot,fun i hi hout => ?_⟩
    rw [hslot] at hout
    rw [show d.opened header slot chain = (d.replayed chain).erased header slot from if_neg hemp]
    exact (Device.byte_put_of_outside (by rwa [length_encodeHeader])).trans
      (Device.byte_put_of_outside (.inl (by omega)))
  · obtain ⟨hh,-⟩ := hrun.headed hheaded hn
    refine ⟨World.current_iff.mpr hh.current,fun off sector w' hj hr i hi hout => ?_⟩
    obtain ⟨-,-,-,rfl⟩ := (journalSectorWrite_eq_ok hj).mp hr
    exact hh.byte_journalled hj hi hout

end

private theorem oneLogged_finds [Crc32c] (seq : UInt64) :
    FindsChain (oneLogged seq).device (oneLogged seq).header .one [] := by
  refine ⟨⟨_,(oneLogged_valid seq).identified⟩,if_neg fun hc => hc.1 ?_⟩
  simp [isZeroGuid,oneLogged,Guid.zero,zeros]

/-- A dirty image, opened in place, and then three sectors journalled on what open left. -/
theorem header_current_dirtied :
    letI := castagnoli
    let d := (dirtied ⟨4194304,⟨zeros logSectorSize,length_zeros _⟩⟩ 5242880).device
    ∃ r s d' w, Opens d r s d' ∧ s.slot = .two ∧ Journals SlotsKept (s.start d') 3 w ∧ w.Current := by
  let := castagnoli
  intro d
  obtain ⟨s,hs,hrun,hgrown⟩ := dirtied_openRw
  obtain ⟨-,-,hheader,hslot⟩ := loadDisk_inv hs.loads
  generalize hd' : d.opened _ .one _ = d' at hrun hgrown
  have hsize : 4194304 ≤ d'.size := (by decide : 4194304 ≤ 5242880).trans hgrown.ge
  have hlogs : ¬ noJournal (s.start d').header := by
    rw [show (s.start d').header = s.header from rfl,hheader]
    exact oneLogged_logs 5
  have hoffset : (s.start d').header.logOffset.toNat = 1048576 := by
    rw [show (s.start d').header = s.header from rfl,hheader]
    rfl
  obtain ⟨w,hw,-⟩ := exists_journals SlotsKept hlogs (show d'.writable = true by rw [← hd']; rfl)
    (by rw [hoffset]; exact (by decide : 1048576 + 8192 ≤ 4194304).trans hsize)
    ((by decide : header2Offset + headerSize ≤ 4194304).trans hsize) 3
  refine ⟨_,s,d',w,.inr hrun,hslot,hw,
    ((header_current_in_every_run (.inr hrun) ⟨hs.identified,hs.replays.pending⟩ (fun x => ?_)
    (fun _ => by decide)).2 3 w hw ?_).1⟩
  · exact dirtied_landsOff (n := 4194304) (by decide) ((HeaderSlot.offset_low x).trans (by decide))
  · rw [hheader]
    decide

/-- From the last sequence number the rotation wraps to zero, and the header that is picked is the old one. -/
theorem header_not_current_after_the_last :
    letI := castagnoli
    Opens (oneLogged 0xFFFFFFFFFFFFFFFF).device (oneLogged 0xFFFFFFFFFFFFFFFF).reader
      (oneLoggedState 0xFFFFFFFFFFFFFFFF) (oneLogged 0xFFFFFFFFFFFFFFFF).device ∧
    FindsChain (oneLogged 0xFFFFFFFFFFFFFFFF).device (oneLogged 0xFFFFFFFFFFFFFFFF).header .one [] ∧
    ∃ w, Journals SlotsKept ((oneLoggedState 0xFFFFFFFFFFFFFFFF).start (oneLogged 0xFFFFFFFFFFFFFFFF).device) 1 w ∧
      ¬ w.Current := by
  let := castagnoli
  have hopen : Opens (oneLogged 0xFFFFFFFFFFFFFFFF).device (oneLogged 0xFFFFFFFFFFFFFFFF).reader
    (oneLoggedState 0xFFFFFFFFFFFFFFFF) (oneLogged 0xFFFFFFFFFFFFFFFF).device :=
    .inr (oneLogged_opensAs _).opens
  refine ⟨hopen,oneLogged_finds _,_,oneLogged_journals_one SlotsKept _ 0 ⟨zeros logSectorSize,length_zeros _⟩,?_⟩
  obtain ⟨writable,rc,hw,hinner⟩ := hopen.inner
  obtain ⟨h1,slot1,chain1,regions,hopened,hdev⟩ := openInner_inv hw hinner
  obtain ⟨rfl,rfl,rfl⟩ := (oneLogged_finds 0xFFFFFFFFFFFFFFFF).unique ⟨hopened.identified,hopened.replays.pending⟩
  exact (hopened.headed (fun _ _ h => nomatch h) (fun h => absurd rfl h)).not_current_of_last (oneLogged_logs _)
    (show (0xFFFFFFFFFFFFFFFF : UInt64).toNat + 1 = 2^64 by decide)

end ImgVhdx
