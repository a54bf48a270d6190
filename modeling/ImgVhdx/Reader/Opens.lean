import ImgVhdx.Reader.Open

/-! What each step of an open finds on a device that has what the step looks for. -/
namespace ImgVhdx
open Lib DevProg

private theorem on_probeAt {α : Type} {d : Device} {n off len : Nat} {parse : Bytes → Outcome Error α} (hn : n ≤ d.size)
    (hp : ∀ b : Bytes, b.length = len → parse b ≠ .panic) : (probeAt n off len parse).on d =
      (.ok (if n < off + len then none else (parse (d.bytes off len)).value),d) := by
  unfold probeAt
  split_ifs with h
  · rfl
  · change (Prog.run _ (devRead off len fsCoreToVhdxError >>= _) d) = _
    rw [Prog.run_bind_of_ok (on_devRead (by omega)),Prog.lift,Prog.run_done,
      Outcome.toOption_of_ne_panic (hp _ Device.length_bytes)]

section
variable [Crc32c] {d : Device} {n : Nat}

private theorem Header.parse_ne_panic {b : Bytes} (h : b.length = headerSize) : Header.parse b ≠ .panic := by
  rw [Header.parse_of_le h.ge]
  split_ifs <;> simp

private theorem RegionTable.parse_ne_panic {b : Bytes} (h : b.length = regionTableSize) :
    RegionTable.parse b ≠ .panic := by
  rw [RegionTable.parse_of_le h.ge]
  split_ifs <;> simp

def headerAt (d : Device) (n : Nat) (s : HeaderSlot) : Option Header :=
  if n < s.offset + headerSize then none else (Header.parse (d.bytes s.offset headerSize)).value

def tableAt (d : Device) (n off : Nat) : Option RegionTable :=
  if n < off + regionTableSize then none else (RegionTable.parse (d.bytes off regionTableSize)).value

def regionsAt (d : Device) (n : Nat) : Outcome Error RegionTable :=
  match tableAt d n regionTable1Offset, tableAt d n regionTable2Offset with
  | some t,_ => .ok t
  | none,some t => .ok t
  | none,none => .err .noValidRegionTable

theorem on_pickHeader (hn : n ≤ d.size) :
    (pickHeader n).on d = (preferHeader (headerAt d n .one) (headerAt d n .two),d) := by
  simp only [pickHeader,on]
  rw [Prog.run_bind_of_ok (on_probeAt hn fun _ => Header.parse_ne_panic),
    Prog.run_bind_of_ok (on_probeAt hn fun _ => Header.parse_ne_panic)]
  rfl

theorem on_pickRegionTable (hn : n ≤ d.size) : (pickRegionTable n).on d = (regionsAt d n,d) := by
  have hprobe : ∀ off, (probeAt n off regionTableSize RegionTable.parse).run Device.handle d =
    (.ok (tableAt d n off),d) :=
    fun _ => on_probeAt hn fun _ => RegionTable.parse_ne_panic
  simp only [pickRegionTable,on]
  rw [Prog.run_bind_of_ok (hprobe regionTable1Offset)]
  cases h1 : tableAt d n regionTable1Offset with
  | some t => simp [regionsAt,h1]
  | none =>
    dsimp only
    rw [Prog.run_bind_of_ok (hprobe regionTable2Offset)]
    cases h2 : tableAt d n regionTable2Offset <;> simp [regionsAt,h1,h2,Prog.throw]

structure Identified (d : Device) (header : Header) (slot : HeaderSlot) (regions : RegionTable) : Prop where
  large : 8 ≤ d.size
  identifier : d.bytes 0 8 = fileIdentifierSignature
  picked : preferHeader (headerAt d d.size .one) (headerAt d d.size .two) = .ok (header,slot)
  logVersion : header.logVersion = logVersionV0
  logRegion : validateLogRegion d.size header = .ok ()
  table : regionsAt d d.size = .ok regions
  clear : logRegionClearOfDeclaredRegions regions header = .ok ()

/-- Nothing to replay: the regions are located and the device is as it was. -/
theorem Identified.on_locateRegions {header : Header} {slot : HeaderSlot} {regions : RegionTable}
    (h : Identified d header slot regions) {b : Bool}
    (hreplay : (replayLog d.size header b).on d = (.ok (d.size,false),d)) (hq : regions.unknownRequired = none) :
    (locateRegions b).on d = (.ok { devSize := d.size, header, slot, regions, replayed := false },d) := by
  simp only [locateRegions,on]
  rw [Prog.run_bind_of_ok on_devSize,Prog.run_bind_of_ok (on_devRead (by have := h.large; omega)),h.identifier,
    Prog.run_bind_of_ok (Prog.run_lift_of_ok (Outcome.rejectIf_of_not _ (by simp))),
    Prog.run_bind_of_ok ((on_pickHeader le_rfl).trans (by rw [h.picked]))]
  dsimp only
  rw [Prog.run_bind_of_ok (Prog.run_lift_of_ok (Outcome.rejectIf_of_not _ (by simp [h.logVersion]))),
    Prog.run_bind_of_ok (Prog.run_lift_of_ok h.logRegion),
    Prog.run_bind_of_ok ((on_pickRegionTable le_rfl).trans (by rw [h.table])),
    Prog.run_bind_of_ok (Prog.run_lift_of_ok h.clear),Prog.run_bind_of_ok hreplay]
  dsimp only
  rw [Prog.run_bind_of_ok ((on_pickRegionTable le_rfl).trans (by rw [h.table])),
    Prog.run_bind_of_ok (Prog.run_lift_of_ok (Outcome.rejectIf_of_not _ (by simp [hq]))),
    Prog.run_bind_of_ok (Prog.run_lift_of_ok h.clear)]
  rfl

/-- A header that names no log has nothing to replay. -/
theorem on_replayLog_of_zero {header : Header} (hg : isZeroGuid header.logGuid = true) (rc : Bool) :
    (replayLog n header rc).on d = (.ok (n,false),d) := by
  unfold replayLog
  rw [if_neg (by simp [hg])]
  rfl

omit [Crc32c] in
theorem spanInsideTheFile_of_le {off len : Nat} {s : String} (h : off + len < 2^64) (hn : off + len ≤ n) :
    spanInsideTheFile n off len s = .ok len := by
  rw [spanInsideTheFile,checkedAdd_of_lt h,Outcome.okOr_some,Outcome.ok_bind,Outcome.rejectIf_of_not _ (by omega)]
  rfl

omit [Crc32c] in
theorem on_readMetadata {regions : RegionTable} {m : RegionEntry} {t : MetadataTable} {p : DiskParameters}
    (hm : regions.find Guids.metadata = some m) (hspan : m.fileOffset + m.length < 2^64)
    (hn : m.fileOffset + m.length ≤ n) (hd : n ≤ d.size)
    (ht : MetadataTable.parse (d.bytes m.fileOffset m.length) = .ok t) (hp : diskParameters t = .ok p) :
    (readMetadata n regions).on d = (.ok p,d) := by
  simp only [readMetadata,on]
  rw [Prog.run_bind_of_ok (Prog.run_lift_of_ok (Outcome.okOr_eq_ok.mpr hm))]
  have hok := spanInsideTheFile_of_le (s := "metadata region reaches past the end of the file") hspan hn
  rw [Prog.run_bind_of_ok (Prog.run_lift_of_ok hok),Prog.run_bind_of_ok (on_devRead (by omega)),
    Prog.run_bind_of_ok (Prog.run_lift_of_ok ht),Prog.run_lift_eq_ok]
  exact ⟨hp,rfl⟩

omit [Crc32c] in
theorem on_readBat {regions : RegionTable} {b : RegionEntry} {virtualSize blockSize ratio entries : Nat}
    (hb : regions.find Guids.bat = some b) (hspan : b.fileOffset + b.length < 2^64) (hn : b.fileOffset + b.length ≤ n)
    (he : batRegionCoversTheDisk b.length virtualSize blockSize ratio = .ok entries)
    (hlen : entries * batEntrySize ≤ b.length) (hd : n ≤ d.size) :
    (readBat n regions virtualSize blockSize ratio).on d =
      (.ok (b.fileOffset,decodeBat (d.bytes b.fileOffset (entries * batEntrySize))),d) := by
  have hok := spanInsideTheFile_of_le (s := "BAT region reaches past the end of the file") hspan hn
  simp only [readBat,on]
  rw [Prog.run_bind_of_ok (Prog.run_lift_of_ok (Outcome.okOr_eq_ok.mpr hb)),Prog.run_bind_of_ok
    (Prog.run_lift_of_ok hok),
    Prog.run_bind_of_ok (Prog.run_lift_of_ok he),
    Prog.run_bind_of_ok (Prog.run_lift_of_ok (Outcome.okOr_eq_ok.mpr (checkedMul_of_lt (by omega)))),
    Prog.run_bind_of_ok (on_devRead (by omega))]
  rfl

omit [Crc32c] in
/-- Any reader whose fields are what was read off the disk is the one that open returns. -/
theorem on_finishOpen {header : Header} {slot : HeaderSlot} {regions : RegionTable} {p : DiskParameters}
    {r : VhdxReader} {bat : List BatEntry} (hv : r.virtualSize = p.virtualSize)
    (hb : r.blockSize = p.fileParams.blockSize) (hs : r.sectorSize = p.sectorSize)
    (hphys : r.physicalSectorSize = p.physicalSectorSize) (hc : r.chunkRatio = chunkRatio r.blockSize r.sectorSize)
    (hsector : r.sectorSize = 512 ∨ r.sectorSize = 4096) (hparent : p.fileParams.hasParent = false)
    (hmeta : p.metadata.unknownRequired = none)
    (hbat : (readBat n regions r.virtualSize r.blockSize r.chunkRatio).on d = (.ok (r.batRegionOff,bat),d)) :
    (finishOpen n header slot regions p r.writable).on d = (.ok (r,{ devSize := n, header, slot, bat }),d) := by
  have hpow := r.blockSize_pow
  have hrange := r.blockSize_range
  have hpos := r.chunkRatio_pos
  rw [hc,hb,hs] at hpos
  rw [hc,hb,hs,hv] at hbat
  rw [hb] at hpow hrange
  unfold finishOpen
  rw [dif_neg (by simpa using hpow),dif_neg (by omega),if_neg (by omega),if_neg (by simp [hparent]),
    if_neg (by simp [hmeta]),dif_neg (by omega)]
  simp only [on]
  rw [Prog.run_bind_of_ok hbat]
  refine Prod.ext (congrArg Outcome.ok (Prod.ext (VhdxReader.ext ?_ ?_ ?_ ?_ ?_ ?_ ?_) rfl)) rfl
  · exact hv.symm
  · exact hb.symm
  · exact hs.symm
  · exact hphys.symm
  · rw [hc,hb,hs]
  · rfl
  · rfl

end
end ImgVhdx
