import ImgVhdx.Reader.Alone

/-! A sector written through the log: the entry at the start of the region, the header
rotated into the other slot, and runs of such writes. -/
namespace ImgVhdx
open Lib ReaderProg

section
variable [Crc32c] {w w' : World} {off : Nat} {s : Sector}

@[simp] theorem length_journalEntry {h : Header} {n : Nat} : (journalEntry h n off s).length = 8192 := by
  unfold journalEntry
  exact (encodeEntry_isEncoded (by rw [encodedLength_single]; decide)).length.trans (encodedLength_single _)

def World.journalled (w : World) (off : Nat) (s : Sector) : World :=
  { w with
    dev := (w.dev.put w.header.logOffset.toNat (journalEntry w.header w.devSize off s)).put w.slot.other.offset
      (encodeHeader (rotatedHeader w.header))
    header := rotatedHeader w.header
    slot := w.slot.other
    headerHeld := false }

/-- An entry of one sector always fits a log that is journalled into. -/
theorem journalEntry_fits {h : Header} (hn : ¬ noJournal h) {n : Nat} :
    ¬ (journalEntry h n off s).length > h.logLength.toNat := by
  rw [length_journalEntry]
  intro hlt
  refine hn (.inr (.inr ?_))
  rw [UInt32.lt_iff_toNat_lt]
  exact hlt

theorem journalSectorWrite_of_noJournal (hn : noJournal w.header) :
    (journalSectorWrite off s.1).run World.handle w = (.ok (),{ w with headerHeld := false }) := by
  unfold journalSectorWrite
  rw [dif_pos s.2]
  change Prog.run World.handle (if noJournal w.header then _ else _) _ = _
  rw [if_pos hn]
  rfl

omit [Crc32c] in
theorem devWrite_run {o : Nat} {b : Bytes} {u : Unit} : (devWrite o b).run World.handle w = (.ok u,w') ↔
    w.dev.writable = true ∧ o + b.length ≤ w.dev.size ∧ w' = { w with dev := w.dev.put o b } := by
  constructor
  · intro h
    cases hr : (w.handle (.dev (.write o b))).1 with
    | error e =>
      simp only [devWrite,Prog.run,hr] at h
      cases (Prod.mk.inj h).1
    | ok u =>
      obtain ⟨hw,hle,he⟩ := World.handle_write_ok hr
      simp only [devWrite,Prog.run,hr,he] at h
      exact ⟨hw,hle,(Prod.mk.inj h).2.symm⟩
  · rintro ⟨hw,hle,rfl⟩
    exact (runs_devWrite hw hle).run_eq

/-- A journalled write that returned found room for both of its writes, and made them. -/
theorem journalSectorWrite_eq_ok (hn : ¬ noJournal w.header) :
    (journalSectorWrite off s.1).run World.handle w = (.ok (),w') ↔
      w.dev.writable = true ∧ w.header.logOffset.toNat + 8192 ≤ w.dev.size ∧ w.slot.other.offset + headerSize ≤ w.dev.size ∧
        w' = w.journalled off s := by
  unfold journalSectorWrite
  rw [dif_pos s.2]
  change Prog.run World.handle (if noJournal w.header then _ else _) _ = _ ↔ _
  rw [if_neg hn]
  change Prog.run World.handle (if (journalEntry w.header w.devSize off s).length > w.header.logLength.toNat then _
    else _) _ = _ ↔ _
  rw [if_neg (journalEntry_fits hn)]
  change Prog.run World.handle (Prog.releasing
    (devWrite w.header.logOffset.toNat (journalEntry w.header w.devSize off s) >>= fun _ =>
    devFlush >>= fun _ => devWrite w.slot.other.offset (encodeHeader (rotatedHeader w.header)) >>= fun _ => devFlush)
    (unlockHeader w.header w.slot) >>= fun _ => unlockHeader (rotatedHeader w.header) w.slot.other)
      { w with headerHeld := true } = _ ↔ _
  simp only [Prog.run_bind_eq_ok,Prog.run_releasing_eq_ok,devWrite_run,length_journalEntry,length_encodeHeader]
  constructor
  · rintro ⟨_,w1,⟨_,w2,⟨hw,hle,rfl⟩,_,w3,hflush,_,w4,⟨-,hroom,rfl⟩,hflush'⟩,h⟩
    obtain ⟨-,rfl⟩ := Prod.mk.inj hflush
    obtain ⟨-,rfl⟩ := Prod.mk.inj hflush'
    obtain ⟨-,rfl⟩ := Prod.mk.inj h
    exact ⟨hw,hle,hroom,rfl⟩
  · rintro ⟨hw,hle,hroom,rfl⟩
    exact ⟨(),_,⟨(),_,⟨hw,hle,rfl⟩,(),_,rfl,(),_,⟨hw,hroom,rfl⟩,rfl⟩,rfl⟩

omit [Crc32c] in
theorem toNat_succ_seq {h : Header} (hn : h.sequenceNumber.toNat + 1 < 2^64) :
    (h.sequenceNumber + 1).toNat = h.sequenceNumber.toNat + 1 := by
  rw [UInt64.toNat_add]
  exact Nat.mod_eq_of_lt hn

/-- `n` sectors journalled one after the other, and between them steps of the reader that are `between`. -/
inductive Journals (between : World → World → Prop) (w : World) : Nat → World → Prop
  | start : Journals between w 0 w
  | other {n : Nat} {w1 w2 : World} (h : Journals between w n w1) (hb : between w1 w2) : Journals between w n w2
  | journal {n : Nat} {w1 w2 : World} {off : Nat} {s : Sector} (h : Journals between w n w1)
      (hn : ¬ noJournal w1.header)
      (hr : (journalSectorWrite off s.1).run World.handle w1 = (.ok (),w2)) : Journals between w (n+1) w2

/-- The header moves on by one rotation for each. -/
theorem Journals.header {between : World → World → Prop} (hkeep : ∀ a b, between a b → b.header = a.header) {n : Nat}
    (h : Journals between w n w') : w'.header = rotatedHeader^[n] w.header := by
  induction h with
  | start => rfl
  | other _ hb ih => rw [hkeep _ _ hb,ih]
  | journal _ hn hr ih =>
    obtain ⟨-,-,-,rfl⟩ := (journalSectorWrite_eq_ok hn).mp hr
    rw [Function.iterate_succ_apply',← ih]
    rfl

omit [Crc32c] in
theorem HeaderSlot.offset_le (x : HeaderSlot) : x.offset ≤ header2Offset := by cases x <;> decide

/-- There is room for both writes where the log's first two sectors and the slots are inside the file. -/
theorem journalSectorWrite_of_room (hn : ¬ noJournal w.header) (hw : w.dev.writable = true)
    (hlog : w.header.logOffset.toNat + 8192 ≤ w.dev.size) (hslots : header2Offset + headerSize ≤ w.dev.size) :
    (journalSectorWrite off s.1).run World.handle w = (.ok (),w.journalled off s) := by
  have hslot := w.slot.other.offset_le
  exact (journalSectorWrite_eq_ok hn).mpr ⟨hw,hlog,by omega,rfl⟩

/-- A log with room journals as often as it is asked to. -/
theorem exists_journals (between : World → World → Prop) (hn : ¬ noJournal w.header) (hw : w.dev.writable = true)
    (hlog : w.header.logOffset.toNat + 8192 ≤ w.dev.size) (hslots : header2Offset + headerSize ≤ w.dev.size) (n : Nat) :
    ∃ w', Journals between w n w' ∧ w'.dev.size = w.dev.size ∧ w'.dev.writable = true ∧
      w'.header.logRegion = w.header.logRegion ∧ ¬ noJournal w'.header := by
  induction n with
  | zero => exact ⟨w,.start,rfl,hw,rfl,hn⟩
  | succ n ih =>
    obtain ⟨w1,h1,hsize,hw1,hregion,hn1⟩ := ih
    have hoff : w1.header.logOffset.toNat = w.header.logOffset.toNat := congrArg Span.start hregion
    exact ⟨w1.journalled 0 ⟨zeros logSectorSize,length_zeros _⟩,
      .journal h1 hn1 (journalSectorWrite_of_room hn1 hw1 (by omega) (by omega)),hsize,hw1,hregion,hn1⟩

end

def oneLogged (seq : UInt64) : Build where
  size := 4 * 1024 * 1024
  header := ⟨seq,⟨1 :: zeros 15,by simp⟩,⟨1 :: zeros 15,by simp⟩,Guid.zero,logVersionV0,headerVersion,1024 * 1024,1024 * 1024⟩
  batOffset := 3 * 1024 * 1024
  batLen := 8
  metaOffset := 2 * 1024 * 1024
  virtualSize := oneMib
  body := []

theorem oneLogged_valid [Crc32c] (seq : UInt64) : (oneLogged seq).Valid 1 where
  body := by simp [oneLogged]
  meta_low := show oneMib ≤ 2097152 by decide
  meta_high := show 2097152 + metadataRegionSize ≤ 4194304 by decide
  bat_high := show 3145728 + 8 ≤ 4194304 by decide
  bat_len := show 8 < 2^32 by decide
  size := show 4194304 < 2^64 by decide
  virtualSize := show oneMib < 2^64 by decide
  version := rfl
  logVersion := rfl
  logRegion := validateLogRegion_of (show 1048576 % oneMib = 0 by decide) (show 1048576 % oneMib = 0 by decide)
    (show oneMib ≤ 1048576 by decide) (show 1048576 + 1048576 < 2^64 by decide)
      (show 1048576 + 1048576 ≤ 4194304 by decide)
  clear := by
    rw [logRegionClearOfDeclaredRegions,
      if_neg (show (oneLogged seq).header.logLength ≠ 0 from show (1048576 : UInt32) ≠ 0 by decide),
        Outcome.rejectIf_of_not]
    rintro ⟨e,he,-,ho⟩
    simp only [Build.regions,writtenRegions,List.mem_cons,List.not_mem_nil,or_false] at he
    rcases he with rfl | rfl
    · exact absurd ho (show ¬ 3145728 < saturatingAdd 1048576 1048576 by decide)
    · exact absurd ho (show ¬ 2097152 < saturatingAdd 1048576 1048576 by decide)
  covers := show batRegionCoversTheDisk 8 oneMib oneMib 4096 = .ok 1 by decide
  entries := show 1 * batEntrySize ≤ 8 by decide

def oneLoggedState (seq : UInt64) : ReaderState := ⟨(oneLogged seq).size,(oneLogged seq).header,.one,[⟨.notPresent,0⟩]⟩

def oneLoggedLayout (seq : UInt64) : Layout :=
  ⟨(oneLogged seq).header.logRegion,⟨(oneLogged seq).metaOffset,metadataRegionSize⟩,⟨(oneLogged seq).batOffset,8⟩⟩

theorem oneLogged_opensAs [Crc32c] (seq : UInt64) :
    OpensAs (oneLogged seq).device (oneLogged seq).reader (oneLoggedState seq) (oneLogged seq).device
    (oneLoggedLayout seq) := by
  have := (oneLogged_valid seq).opensAs (by simp [isZeroGuid,oneLogged,Guid.zero,zeros])
  have hbat : decodeBat ((oneLogged seq).device.bytes (oneLogged seq).batOffset (1 * batEntrySize)) =
      [⟨.notPresent,0⟩] := by
    rw [Build.bytes_device (b := oneLogged seq)
      (show oneMib ≤ (oneLogged seq).batOffset from show oneMib ≤ 3145728 by decide)
      (.inr (show 2097152 + metadataRegionSize ≤ 3145728 by decide)),show (oneLogged seq).body = [] from
        rfl,Device.putAll_nil,Device.bytes_zeroed,decodeBat_zeros]
    rfl
  rwa [hbat] at this

theorem oneLogged_logs (seq : UInt64) : ¬ noJournal (oneLogged seq).header :=
  show ¬ ((1048576 : UInt32) = 0 ∨ (1048576 : UInt64) = 0 ∨ (1048576 : UInt32) < 8192) by decide

/-- It has room to journal as many sectors as are asked for. -/
theorem oneLogged_journals [Crc32c] (between : World → World → Prop) (seq : UInt64) (n : Nat) :
    ∃ w', Journals between ((oneLoggedState seq).start (oneLogged seq).device) n w' := by
  have hsize : ((oneLoggedState seq).start (oneLogged seq).device).dev.size = 4194304 := Build.size_device
  obtain ⟨w',h,-⟩ := exists_journals between (w := (oneLoggedState seq).start (oneLogged seq).device)
    (oneLogged_logs seq)
    (by simp [ReaderState.start,Build.device,Device.zeroed]) ((show 1048576 + 8192 ≤ 4194304 by decide).trans hsize.ge)
    (by rw [hsize]; decide) n
  exact ⟨w',h⟩

theorem oneLogged_run [Crc32c] (seq : UInt64) (off : Nat) (s : Sector) :
    (journalSectorWrite off s.1).run World.handle ((oneLoggedState seq).start (oneLogged seq).device) =
      (.ok (),((oneLoggedState seq).start (oneLogged seq).device).journalled off s) := by
  have hsize : ((oneLoggedState seq).start (oneLogged seq).device).dev.size = 4194304 := Build.size_device
  exact journalSectorWrite_of_room (oneLogged_logs seq) (by simp [ReaderState.start,Build.device,Device.zeroed])
    ((show 1048576 + 8192 ≤ 4194304 by decide).trans hsize.ge) (by rw [hsize]; decide)

theorem oneLogged_journals_one [Crc32c] (between : World → World → Prop) (seq : UInt64) (off : Nat) (s : Sector) :
    Journals between ((oneLoggedState seq).start (oneLogged seq).device) 1
      (((oneLoggedState seq).start (oneLogged seq).device).journalled off s) :=
  .journal .start (oneLogged_logs seq) (oneLogged_run seq off s)

end ImgVhdx
