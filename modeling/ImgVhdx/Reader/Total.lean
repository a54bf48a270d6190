import ImgVhdx.Reader.Validated

/-! Opening never panics, whatever the device holds and whatever its calls reply. -/
namespace ImgVhdx
open Lib DevProg

section parts

theorem MetadataTable.parse_total (b : Bytes) : MetadataTable.parse b ≠ .panic := by
  have hl : metadataHeaderSize = 32 := rfl
  have he : metadataEntrySize = 32 := rfl
  unfold MetadataTable.parse
  refine Outcome.bind_ne_panic Outcome.rejectIf_ne_panic fun _ h1 => ?_
  have hlong := Outcome.rejectIf_eq_ok.mp h1
  rw [index_of_le (by omega) (by omega),Outcome.ok_bind]
  refine Outcome.bind_ne_panic Outcome.rejectIf_ne_panic fun _ _ => ?_
  rw [readU16Le_of_le (by omega),Outcome.ok_bind]
  refine Outcome.bind_ne_panic Outcome.rejectIf_ne_panic fun _ _ => ?_
  refine Outcome.bind_ne_panic Outcome.rejectIf_ne_panic fun _ h2 => ?_
  have hroom := Outcome.rejectIf_eq_ok.mp h2
  rw [hl,he] at hroom
  rw [Outcome.collectFrom_eq (g := entryAt b) fun j _ hj => MetadataTable.parseEntry_of_le (by omega)]
  exact nofun

theorem FileParameters.parse_total (b : Bytes) : FileParameters.parse b ≠ .panic := by
  refine Outcome.bind_ne_panic Outcome.rejectIf_ne_panic fun _ h => ?_
  have hlong := Outcome.rejectIf_eq_ok.mp h
  rw [readU32Le_of_le (by omega),Outcome.ok_bind,readU32Le_of_le (by omega)]
  exact nofun

private theorem readVirtualDiskSize_total (b : Bytes) : readVirtualDiskSize b ≠ .panic := by
  refine Outcome.bind_ne_panic Outcome.rejectIf_ne_panic fun _ h => ?_
  have hlong := Outcome.rejectIf_eq_ok.mp h
  rw [readU64Le_of_le (by omega)]
  exact nofun

private theorem readSectorSize_total (b : Bytes) : readSectorSize b ≠ .panic := by
  refine Outcome.bind_ne_panic Outcome.rejectIf_ne_panic fun _ h => ?_
  have hlong := Outcome.rejectIf_eq_ok.mp h
  rw [readU32Le_of_le (by omega)]
  exact nofun

private theorem diskParameters_total (t : MetadataTable) : diskParameters t ≠ .panic := by
  refine Outcome.bind_ne_panic Outcome.okOr_ne_panic fun _ _ => Outcome.bind_ne_panic (FileParameters.parse_total _) fun _ _ => ?_
  refine Outcome.bind_ne_panic Outcome.okOr_ne_panic fun _ _ => Outcome.bind_ne_panic (readVirtualDiskSize_total _) fun _ _ => ?_
  refine Outcome.bind_ne_panic Outcome.okOr_ne_panic fun _ _ => Outcome.bind_ne_panic (readSectorSize_total _) fun _ _ => ?_
  cases t.itemData ItemIds.physicalSectorSize with
  | none => exact nofun
  | some bytes =>
    dsimp only
    rw [Outcome.toOption_of_ne_panic (readSectorSize_total bytes)]
    exact nofun

private theorem batRegionCoversTheDisk_total {len size block ratio : Nat} :
    batRegionCoversTheDisk len size block ratio ≠ .panic := by
  refine Outcome.bind_ne_panic Outcome.rejectIf_ne_panic fun _ _ => ?_
  split_ifs
  · intro h
    cases h
  · refine Outcome.bind_ne_panic Outcome.okOr_ne_panic fun _ _ => Outcome.bind_ne_panic Outcome.rejectIf_ne_panic
      fun _ _ h => ?_
    cases h

end parts

section openInner
variable [Crc32c] {n : Nat} {header : Header} {slot : HeaderSlot} {regions : RegionTable} {writable rc : Bool}

omit [Crc32c] in
private theorem strict_readMetadata : Strict (readMetadata n regions) :=
  (strict_lift Outcome.okOr_ne_panic).bind fun _ => (strict_lift spanInsideTheFile_total).bind fun _ =>
    strict_devRead.bind fun _ =>
    (strict_lift (MetadataTable.parse_total _)).bind fun _ => strict_lift (diskParameters_total _)

omit [Crc32c] in
private theorem strict_readBat {size block ratio : Nat} : Strict (readBat n regions size block ratio) :=
  (strict_lift Outcome.okOr_ne_panic).bind fun _ => (strict_lift spanInsideTheFile_total).bind fun _ =>
    (strict_lift batRegionCoversTheDisk_total).bind fun _ => (strict_lift Outcome.okOr_ne_panic).bind fun _ =>
      strict_devRead.bind fun _ => nofun

omit [Crc32c] in
private theorem strict_finishOpen {p : DiskParameters} : Strict (finishOpen n header slot regions p writable) := by
  have hthrow : ∀ e, Strict (Prog.throw e : DevProg (VhdxReader × ReaderState)) := fun _ h => (by cases h)
  unfold finishOpen
  split_ifs <;> first
    | exact hthrow _
    | exact strict_readBat.bind fun _ h => (by cases h)

private theorem strict_consumeLog (l : Located) : Strict (consumeLog l) := by
  unfold consumeLog
  split_ifs
  · exact ((strict_writeZeros _ _).bind fun _ => strict_devFlush).bind fun _ =>
      strict_devWrite.bind fun _ => strict_devFlush.bind fun _ => nofun
  · exact nofun

private theorem strict_openRest {x : Nat × Bool} : Strict (openRest writable header slot x) :=
  strict_settle.bind fun l => (strict_consumeLog l).bind fun _ => strict_readMetadata.bind fun _ => strict_finishOpen

/-- Opening stops at the first call that is refused, and never panics. -/
theorem strict_openInner : Strict (openInner writable rc) := by
  rw [openInner_split]
  refine strict_identify.bind fun x => strict_findChain.bind fun chain => ?_
  refine Prog.Strict.bind ?_ fun _ => strict_openRest
  split_ifs
  · exact nofun
  · exact strict_applyChain.bind fun _ => nofun
  · exact nofun

end openInner
end ImgVhdx
