import ImgVhdx.Reader.Start

/-! An open in parts: finding the header and the log, replaying what the log holds, settling where
the regions are, and consuming the log. What each part has done where open succeeds. -/
namespace ImgVhdx
open Lib DevProg

variable [Crc32c]

def identify : DevProg (Nat × Header × HeaderSlot) := do
  let devSize ← DevProg.devSize
  let sig ← devRead 0 8 fsCoreToVhdxError
  Prog.lift (Outcome.rejectIf (sig ≠ fileIdentifierSignature) .notVhdx)
  let (header,slot) ← pickHeader devSize
  Prog.lift (Outcome.rejectIf (header.logVersion ≠ logVersionV0)
    (.unsupported "log version other than 0 (this crate parses only the v0 log format)"))
  Prog.lift (validateLogRegion devSize header)
  let regionsBeforeReplay ← pickRegionTable devSize
  Prog.lift (logRegionClearOfDeclaredRegions regionsBeforeReplay header)
  return (devSize,header,slot)

def settle (header : Header) (slot : HeaderSlot) (x : Nat × Bool) : DevProg Located := do
  let regions ← pickRegionTable x.1
  Prog.lift (Outcome.rejectIf regions.unknownRequired.isSome
    (.unsupported ("a region marked Required whose GUID this crate does not recognise — " ++
      "the file may transform its payload in a way reading it raw would ignore")))
  Prog.lift (logRegionClearOfDeclaredRegions regions header)
  return { devSize := x.1, header, slot, regions, replayed := x.2 }

theorem locateRegions_split (rc : Bool) :
    locateRegions rc = identify >>= fun x => replayLog x.1 x.2.1 rc >>= settle x.2.1 x.2.2 := by
  simp only [locateRegions,identify,Prog.bind_assoc,Prog.pure_eq,Prog.ok_bind]
  rfl

def pendingChain (d : Device) (header : Header) : Outcome Error (List LogEntry) :=
  if ¬ isZeroGuid header.logGuid ∧ header.logLength.toNat > 0 ∧ header.logOffset.toNat > 0 then
    collectReplayChain (d.bytes header.logOffset.toNat header.logLength.toNat) header.logGuid
  else .ok []

def clearedHeader (header : Header) :
    Header := { header with sequenceNumber := header.sequenceNumber + 1, logGuid := Guid.zero }

def Device.erased (d : Device) (header : Header) (slot : HeaderSlot) : Device :=
  (d.put header.logOffset.toNat (zeros header.logLength.toNat)).put slot.other.offset
    (encodeHeader (clearedHeader header))

section
variable {d d' : Device} {header : Header} {slot : HeaderSlot} {before : RegionTable} {rc : Bool}

theorem on_identify (h : Identified d header slot before) : identify.on d = (.ok (d.size,header,slot),d) := by
  simp only [identify,on]
  rw [Prog.run_bind_of_ok on_devSize,Prog.run_bind_of_ok (on_devRead (by have := h.large; omega)),h.identifier,
    Prog.run_bind_of_ok (Prog.run_lift_of_ok (Outcome.rejectIf_of_not _ (by simp))),
    Prog.run_bind_of_ok ((on_pickHeader le_rfl).trans (by rw [h.picked]))]
  dsimp only
  rw [Prog.run_bind_of_ok (Prog.run_lift_of_ok (Outcome.rejectIf_of_not _ (by simp [h.logVersion]))),
    Prog.run_bind_of_ok (Prog.run_lift_of_ok h.logRegion),
    Prog.run_bind_of_ok ((on_pickRegionTable le_rfl).trans (by rw [h.table])),
    Prog.run_bind_of_ok (Prog.run_lift_of_ok h.clear)]
  rfl

theorem identify_eq_ok {x : Nat × Header × HeaderSlot} (h : identify.on d = (.ok x,d')) :
    d' = d ∧ x.1 = d.size ∧ ∃ before, Identified d x.2.1 x.2.2 before := by
  simp only [identify,on,Prog.run_bind_eq_ok,Prog.run_lift_eq_ok,Outcome.rejectIf_eq_ok,not_not] at h
  obtain ⟨size,d0,hsize,sig,d1,hsig,_,d2,⟨hid,rfl⟩,⟨header,slot⟩,d3,hheader,_,d4,⟨hversion,rfl⟩,_,d5,⟨hvalid,rfl⟩,
    before,d6,hbefore,
    _,d7,⟨hclear,rfl⟩,h⟩ := h
  obtain ⟨hr,rfl⟩ := Prod.mk.inj (on_devSize.symm.trans hsize)
  obtain rfl := Outcome.ok.inj hr
  obtain ⟨h8,rfl,rfl⟩ := on_devRead_eq_ok.mp hsig
  obtain ⟨hpick,rfl⟩ := Prod.mk.inj ((on_pickHeader le_rfl).symm.trans hheader)
  obtain ⟨htable,rfl⟩ := Prod.mk.inj ((on_pickRegionTable le_rfl).symm.trans hbefore)
  obtain ⟨hr,rfl⟩ := Prod.mk.inj h
  obtain rfl := Outcome.ok.inj hr
  exact ⟨rfl,rfl,before,⟨by omega,hid,hpick,hversion,hvalid,htable,hclear⟩⟩

private theorem on_replayLog (h : validateLogRegion d.size header = .ok ()) : (replayLog d.size header rc).on d =
    match pendingChain d header with
    | .ok chain =>
      if chain.isEmpty then (.ok (d.size,false),d)
      else if rc then DevProg.on (applyChain chain >>= fun _ => .done (.ok (replayedExtent d.size chain,true))) d
      else (.err .logNeedsReplay,d)
    | .err e => (.err e,d)
    | .panic => (.panic,d) := by
  unfold replayLog pendingChain
  by_cases hlog : ¬ isZeroGuid header.logGuid ∧ header.logLength.toNat > 0 ∧ header.logOffset.toNat > 0
  · obtain ⟨-,-,-,h64,hend⟩ := validateLogRegion_eq_ok h
      (fun h0 => by rw [h0] at hlog; exact absurd hlog.2.1 (by decide))
    have hspan := spanInsideTheFile_of_le (s := "log region reaches past the end of the file") h64 hend
    rw [if_pos hlog,if_pos hlog]
    simp only [on]
    rw [Prog.run_bind_of_ok (Prog.run_lift_of_ok hspan),Prog.run_bind_of_ok (on_devRead hend)]
    cases collectReplayChain (d.bytes header.logOffset.toNat header.logLength.toNat) header.logGuid with
    | err e => rfl
    | panic => rfl
    | ok chain =>
      dsimp only
      change Prog.run _ (if chain.isEmpty = true then _ else _) d = _
      by_cases hc : chain.isEmpty = true
      · rw [if_pos hc,if_pos hc]
        rfl
      · rw [if_neg hc,if_neg hc]
        cases rc <;> rfl
  · rw [if_neg hlog,if_neg hlog]
    rfl

/-- What replaying did to the device: the chain, where there is one, was applied to it whole. -/
structure Replays (d : Device) (header : Header) (chain : List LogEntry) : Prop where
  pending : pendingChain d header = .ok chain
  fits : chain ≠ [] → checkDescriptors (allowedExtent d.size chain) (descriptorsOf chain) = .ok ()
  room : chain ≠ [] → d.growable = true ∨ allowedExtent d.size chain = d.size

theorem replayLog_inv {x : Nat × Bool} (hw : rc = true → d.writable = true)
    (hv : validateLogRegion d.size header = .ok ()) (h : (replayLog d.size header rc).on d = (.ok x,d')) :
    ∃ chain, Replays d header chain ∧ (chain ≠ [] → rc = true) ∧
      d' = d.replayed chain ∧ x = (d'.size,!chain.isEmpty) := by
  rw [on_replayLog hv] at h
  cases hp : pendingChain d header with
  | err e => rw [hp] at h; cases (Prod.mk.inj h).1
  | panic => rw [hp] at h; cases (Prod.mk.inj h).1
  | ok chain =>
    rw [hp] at h
    dsimp only at h
    cases chain with
    | nil =>
      rw [if_pos List.isEmpty_nil] at h
      obtain ⟨hr,rfl⟩ := Prod.mk.inj h
      obtain rfl := Outcome.ok.inj hr
      exact ⟨[],⟨hp,fun hc => absurd rfl hc,fun hc => absurd rfl hc⟩,fun hc => absurd rfl hc,
        by rw [Device.replayed_nil],rfl⟩
    | cons e rest =>
      rw [if_neg (by simp)] at h
      cases rc with
      | false => cases (Prod.mk.inj h).1
      | true =>
        rw [if_pos rfl] at h
        obtain ⟨_,d1,happly,h⟩ := Prog.run_bind_eq_ok.mp h
        obtain ⟨hc,hg,rfl⟩ := on_applyChain_eq_ok (hw rfl) happly
        obtain ⟨hr,rfl⟩ := Prod.mk.inj h
        obtain rfl := Outcome.ok.inj hr
        exact ⟨e :: rest,⟨hp,fun _ => hc,fun _ => hg⟩,fun _ => rfl,rfl,
          Prod.ext ((replayedExtent_eq hc).trans Device.size_replayed.symm) rfl⟩

theorem settle_eq_ok {x : Nat × Bool} {l : Located} (hn : x.1 ≤ d.size) (h : (settle header slot x).on d = (.ok l,d')) : d' = d ∧
    regionsAt d x.1 = .ok l.regions ∧ l.regions.unknownRequired = none ∧
    logRegionClearOfDeclaredRegions l.regions header = .ok () ∧
      l = ⟨x.1,header,slot,l.regions,x.2⟩ := by
  simp only [settle,on,Prog.run_bind_eq_ok,Prog.run_lift_eq_ok,Outcome.rejectIf_eq_ok] at h
  obtain ⟨regions,d1,hregions,_,d2,⟨hq,rfl⟩,_,d3,⟨hclear,rfl⟩,h⟩ := h
  obtain ⟨htable,rfl⟩ := Prod.mk.inj ((on_pickRegionTable hn).symm.trans hregions)
  obtain ⟨hr,rfl⟩ := Prod.mk.inj h
  obtain rfl := Outcome.ok.inj hr
  exact ⟨rfl,htable,by simpa using hq,hclear,rfl⟩

/-- What consuming the log did to the device. -/
private theorem consumeLog_inv {l : Located} {y : Header × HeaderSlot} (h : (consumeLog l).on d = (.ok y,d')) :
    if l.replayed then d' = d.erased l.header l.slot ∧ y = (clearedHeader l.header,l.slot.other)
    else d' = d ∧ y = (l.header,l.slot) := by
  unfold consumeLog at h
  cases hr : l.replayed with
  | false =>
    rw [hr,if_neg (by simp)] at h
    obtain ⟨hv,rfl⟩ := Prod.mk.inj h
    exact ⟨rfl,(Outcome.ok.inj hv).symm⟩
  | true =>
    rw [hr,if_pos rfl] at h
    simp only [zeroLogRegion,rewriteHeaderClearLog,on,Prog.run_bind_eq_ok] at h
    obtain ⟨_,d1,⟨_,d2,hz,hflush⟩,_,d3,hwrite,_,d4,hflush',h⟩ := h
    obtain ⟨-,rfl⟩ := Prod.mk.inj (on_devFlush.symm.trans hflush)
    obtain ⟨-,-,rfl⟩ := on_devWrite_eq_ok.mp hwrite
    obtain ⟨-,rfl⟩ := Prod.mk.inj (on_devFlush.symm.trans hflush')
    obtain ⟨-,rfl⟩ := on_writeZeros_eq_ok hz
    obtain ⟨hv,rfl⟩ := Prod.mk.inj h
    exact ⟨rfl,(Outcome.ok.inj hv).symm⟩

def loadDisk (devSize : Nat) (header : Header) (slot : HeaderSlot) (regions : RegionTable) (writable : Bool) :
    DevProg (VhdxReader × ReaderState) := do
  let p ← readMetadata devSize regions
  finishOpen devSize header slot regions p writable

def Device.opened (d : Device) (header : Header) (slot : HeaderSlot) (chain : List LogEntry) : Device :=
  if chain.isEmpty then d else (d.replayed chain).erased header slot

def headerAfter (header : Header) (slot : HeaderSlot) (chain : List LogEntry) : Header × HeaderSlot :=
  if chain.isEmpty then (header,slot) else (clearedHeader header,slot.other)

/-- An open that replays `chain`, finds `regions` in the table as the chain left it, and opens the disk they describe. -/
structure Opened (d : Device) (writable rc : Bool) (header : Header) (slot : HeaderSlot) (chain : List LogEntry)
    (regions : RegionTable) (r : VhdxReader) (s : ReaderState) : Prop where
  identified : ∃ before, Identified d header slot before
  replays : Replays d header chain
  capable : chain ≠ [] → rc = true
  table : regionsAt (d.replayed chain) (d.replayed chain).size = .ok regions
  known : regions.unknownRequired = none
  clear : logRegionClearOfDeclaredRegions regions header = .ok ()
  loads : (loadDisk (d.replayed chain).size (headerAfter header slot chain).1 (headerAfter header slot chain).2 regions
    writable).on
    (d.opened header slot chain) = (.ok (r,s),d.opened header slot chain)

omit [Crc32c] in
theorem loadDisk_inv {n : Nat} {regions : RegionTable} {writable : Bool} {r : VhdxReader} {s : ReaderState}
    (h : (loadDisk n header slot regions writable).on d = (.ok (r,s),d')) :
    d' = d ∧ s.devSize = n ∧ s.header = header ∧ s.slot = slot := by
  obtain ⟨p,d1,hp,hf⟩ := Prog.run_bind_eq_ok.mp h
  obtain ⟨hdev,hheader,hslot,-,-,-,-,-,-,hbat⟩ := finishOpen_eq_ok hf
  obtain ⟨-,-,-,-,-,-,-,-,-,rfl⟩ := readBat_eq_ok hbat
  simp only [readMetadata,Prog.run_bind_eq_ok,Prog.run_lift_eq_ok] at hp
  obtain ⟨_,_,⟨-,rfl⟩,_,_,⟨-,rfl⟩,_,_,hread,_,_,⟨-,rfl⟩,-,rfl⟩ := hp
  obtain ⟨-,-,rfl⟩ := on_devRead_eq_ok.mp hread
  exact ⟨rfl,hdev,hheader,hslot⟩

theorem openInner_inv {writable : Bool} {r : VhdxReader} {s : ReaderState} (hw : rc = true → d.writable = true)
    (h : (openInner writable rc).on d = (.ok (r,s),d')) :
    ∃ header slot chain regions, Opened d writable rc header slot chain regions r s ∧
    d' = d.opened header slot chain := by
  obtain ⟨l,d3,hl,h⟩ := Prog.run_bind_eq_ok.mp h
  obtain ⟨⟨y1,y2⟩,d4,hc,hload⟩ := Prog.run_bind_eq_ok.mp h
  rw [locateRegions_split] at hl
  obtain ⟨⟨n,header,slot⟩,d1,hid,hl⟩ := Prog.run_bind_eq_ok.mp hl
  obtain ⟨rfl,hn,before,hident⟩ := identify_eq_ok hid
  obtain rfl : n = d1.size := hn
  obtain ⟨x,d2,hr,hs⟩ := Prog.run_bind_eq_ok.mp hl
  obtain ⟨chain,hreplays,hcap,rfl,rfl⟩ := replayLog_inv hw hident.logRegion hr
  obtain ⟨rfl,htable,hknown,hclear,hl⟩ := settle_eq_ok (x := ((d1.replayed chain).size,!chain.isEmpty)) le_rfl hs
  have hc := consumeLog_inv hc
  rw [hl] at hc hload
  dsimp only at hc hload
  have hboth : d4 = d1.opened header slot chain ∧ (y1,y2) = headerAfter header slot chain := by
    unfold Device.opened headerAfter
    cases hemp : chain.isEmpty with
    | false =>
      rw [hemp] at hc
      exact hc
    | true =>
      rw [hemp] at hc
      obtain rfl := List.isEmpty_iff.mp hemp
      exact ⟨hc.1.trans Device.replayed_nil,hc.2⟩
  obtain ⟨rfl,hy⟩ := hboth
  obtain ⟨rfl,rfl⟩ := Prod.mk.inj hy
  obtain ⟨rfl,-⟩ := loadDisk_inv hload
  exact ⟨header,slot,chain,l.regions,⟨⟨before,hident⟩,hreplays,hcap,htable,hknown,hclear,hload⟩,rfl⟩

/-- Whatever names its regions has both header slots inside it. -/
theorem slots_inside {n : Nat} {regions : RegionTable} (h : regionsAt d n = .ok regions) (x : HeaderSlot) :
    x.offset + headerSize ≤ n := by
  have hslot : x.offset ≤ 131072 := by cases x <;> decide
  have hsize : headerSize = 4096 := rfl
  unfold regionsAt tableAt at h
  by_cases h1 : n < regionTable1Offset + regionTableSize
  · have h2 : n < regionTable2Offset + regionTableSize := h1.trans (by decide)
    rw [if_pos h1,if_pos h2] at h
    cases h
  · have : regionTable1Offset + regionTableSize = 262144 := rfl
    omega

/-- A pending entry stands in a log, and the log is past the first megabyte and inside the file. -/
theorem Identified.log_inside {chain : List LogEntry} (h : Identified d header slot before)
    (hp : pendingChain d header = .ok chain) (hne : chain ≠ []) :
    isZeroGuid header.logGuid = false ∧ header.logLength ≠ 0 ∧ oneMib ≤ header.logOffset.toNat ∧
      header.logOffset.toNat + header.logLength.toNat ≤ d.size := by
  unfold pendingChain at hp
  split_ifs at hp with hlog
  · have hl : header.logLength ≠ 0 := fun h0 => by rw [h0] at hlog; exact absurd hlog.2.1 (by decide)
    obtain ⟨-,-,hlow,-,hend⟩ := validateLogRegion_eq_ok h.logRegion hl
    exact ⟨by simpa using hlog.1,hl,hlow,hend⟩
  · exact absurd (Outcome.ok.inj hp).symm hne

@[simp] theorem Device.size_erased : (d.erased header slot).size = d.size := rfl
@[simp] theorem Device.writable_erased : (d.erased header slot).writable = d.writable := rfl
@[simp] theorem Device.growable_erased : (d.erased header slot).growable = d.growable := rfl

private theorem on_consumeLog {l : Located} (hw : d.writable = true)
    (hlog : l.header.logOffset.toNat + l.header.logLength.toNat ≤ d.size)
    (hslot : l.slot.other.offset + headerSize ≤ d.size) (hr : l.replayed = true) :
    (consumeLog l).on d = (.ok (clearedHeader l.header,l.slot.other),d.erased l.header l.slot) := by
  unfold consumeLog
  rw [hr,if_pos rfl]
  have hz : (zeroLogRegion l.header.logOffset.toNat l.header.logLength.toNat).on d =
      (.ok (),d.put l.header.logOffset.toNat (zeros l.header.logLength.toNat)) := by
    simp only [zeroLogRegion,on]
    rw [Prog.run_bind_of_ok (on_writeZeros hw _ _ hlog)]
    rfl
  simp only [on]
  rw [Prog.run_bind_of_ok hz,rewriteHeaderClearLog]
  change Prog.run _ (devWrite l.slot.other.offset (encodeHeader (clearedHeader l.header)) fsCoreToVhdxError >>= _) _ = _
  rw [Prog.run_bind_of_ok (on_devWrite (d := d.put l.header.logOffset.toNat (zeros l.header.logLength.toNat)) hw
    (by rw [length_encodeHeader]; exact hslot)),Prog.run_bind_of_ok on_devFlush]
  rfl

/-- And where an open has all it needs, it succeeds. -/
theorem Opened.on_openInner {writable : Bool} {chain : List LogEntry} {regions : RegionTable} {r : VhdxReader}
    {s : ReaderState} (h : Opened d writable rc header slot chain regions r s) (hw : chain ≠ [] → d.writable = true) :
    (openInner writable rc).on d = (.ok (r,s),d.opened header slot chain) := by
  obtain ⟨before,hident⟩ := h.identified
  have hreplay : (replayLog d.size header rc).on d = (.ok ((d.replayed chain).size,!chain.isEmpty),d.replayed chain) := by
    rw [on_replayLog hident.logRegion,h.replays.pending]
    dsimp only
    by_cases hc : chain = []
    · subst hc
      rw [if_pos List.isEmpty_nil,Device.replayed_nil]
      rfl
    · have hfit := h.replays.fits hc
      rw [if_neg (by simpa using hc),if_pos (h.capable hc)]
      simp only [on]
      rw [Prog.run_bind_of_ok (on_applyChain (hw hc) hfit (h.replays.room hc)),replayedExtent_eq hfit,
        Device.size_replayed]
      simpa using hc
  have hsettle : (settle header slot ((d.replayed chain).size,!chain.isEmpty)).on (d.replayed chain) =
      (.ok ⟨(d.replayed chain).size,header,slot,regions,!chain.isEmpty⟩,d.replayed chain) := by
    simp only [settle,on]
    rw [Prog.run_bind_of_ok ((on_pickRegionTable le_rfl).trans (by rw [h.table])),
      Prog.run_bind_of_ok (Prog.run_lift_of_ok (Outcome.rejectIf_of_not _ (by simp [h.known]))),
      Prog.run_bind_of_ok (Prog.run_lift_of_ok h.clear)]
    rfl
  have hlocate : (locateRegions rc).on d =
      (.ok ⟨(d.replayed chain).size,header,slot,regions,!chain.isEmpty⟩,d.replayed chain) := by
    rw [locateRegions_split]
    simp only [on]
    rw [Prog.run_bind_of_ok (on_identify hident),Prog.run_bind_of_ok hreplay]
    exact hsettle
  have hconsume : (consumeLog ⟨(d.replayed chain).size,header,slot,regions,!chain.isEmpty⟩).on (d.replayed chain) =
      (.ok (headerAfter header slot chain),d.opened header slot chain) := by
    unfold headerAfter Device.opened
    by_cases hc : chain = []
    · subst hc
      rw [if_pos List.isEmpty_nil,if_pos List.isEmpty_nil,Device.replayed_nil]
      rfl
    · have hne : ¬ chain.isEmpty = true := by simpa using hc
      obtain ⟨-,-,-,hend⟩ := hident.log_inside h.replays.pending hc
      rw [if_neg hne,if_neg hne]
      refine on_consumeLog (by simpa using hw hc) ?_ (slots_inside h.table _) (by simpa using hc)
      exact hend.trans ((le_allowedExtent _ _).trans Device.size_replayed.ge)
  simp only [openInner,on]
  rw [Prog.run_bind_of_ok hlocate,Prog.run_bind_of_ok hconsume]
  exact h.loads

end
end ImgVhdx
