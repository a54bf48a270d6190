import ImgVhdx.Reader.Unknown

/-! Opening a second time: what an open leaves is opened again as it was found, on whatever device holds it. -/
namespace ImgVhdx
open Lib DevProg ReaderProg

/-- The same file on a device that may be written and grown, or may not. -/
def Device.withMode (d : Device) (writable growable : Bool) : Device := { d with writable, growable }

section mode
variable {d : Device} {writable growable : Bool} {α : Type}

theorem on_withMode {p : DevProg α} (hl : Looks p) :
    p.on (d.withMode writable growable) = ((p.on d).1,d.withMode writable growable) := by
  have hview : (p.on (d.withMode writable growable)).2 = d.withMode writable growable := hl.view Device.faithful.looks _
  have hcall : ∀ op s t, DevOp.Looks op → s = t.withMode writable growable →
      (Device.handle op s).1 = (Device.handle op t).1 ∧
        (Device.handle op s).2 = (Device.handle op t).2.withMode writable growable := by
    rintro op s t hop rfl
    cases op with
    | size => exact ⟨rfl,rfl⟩
    | read off len => exact ⟨rfl,rfl⟩
    | flush => exact ⟨rfl,rfl⟩
    | write off bs => cases hop
    | setLen n => cases hop
  exact Prod.ext (hl.alike hcall rfl).1 hview

end mode

section finish
variable {d d' : Device} {n : Nat} {header : Header} {slot : HeaderSlot} {regions : RegionTable} {p : DiskParameters}
  {writable : Bool} {r : VhdxReader} {s : ReaderState}

/-- The header, its slot and the writable flag only pass through the last step. -/
private theorem finishOpen_passes (h : (finishOpen n header slot regions p writable).on d = (.ok (r,s),d')) (k : Header)
    (t : HeaderSlot) (w : Bool) :
    (finishOpen n k t regions p w).on d = (.ok ({ r with writable := w },{ s with header := k, slot := t }),d') := by
  unfold finishOpen at h ⊢
  split_ifs at h ⊢ with hpow hrange hsector hparent hmeta hratio <;> try cases (Prod.mk.inj h).1
  simp only [on,Prog.run_bind_eq_ok] at h ⊢
  obtain ⟨⟨off,bat⟩,d1,hb,h⟩ := h
  obtain ⟨hr,rfl⟩ := Prod.mk.inj h
  obtain ⟨rfl,rfl⟩ := Prod.mk.inj (Outcome.ok.inj hr)
  exact ⟨_,_,hb,rfl⟩

theorem loadDisk_passes (h : (loadDisk n header slot regions writable).on d = (.ok (r,s),d')) (k : Header)
    (t : HeaderSlot) (w : Bool) :
    (loadDisk n k t regions w).on d = (.ok ({ r with writable := w },{ s with header := k, slot := t }),d') := by
  obtain ⟨p,d1,hp,hf⟩ := Prog.run_bind_eq_ok.mp h
  exact Prog.run_bind_eq_ok.mpr ⟨p,d1,hp,finishOpen_passes hf k t w⟩

end finish

structure SameLog (k h : Header) : Prop where
  version : k.logVersion = h.logVersion
  offset : k.logOffset = h.logOffset
  length : k.logLength = h.logLength

section sameLog
variable {k h g : Header} {n : Nat}

theorem SameLog.refl : SameLog h h := ⟨rfl,rfl,rfl⟩

theorem SameLog.symm (hk : SameLog k h) : SameLog h k := ⟨hk.version.symm,hk.offset.symm,hk.length.symm⟩

theorem SameLog.region (hk : SameLog k h) : k.logRegion = h.logRegion := by
  rw [Header.logRegion,hk.offset,hk.length]
  rfl

/-- What is clear of the one's log is clear of the other's. -/
theorem SameLog.clear (hk : SameLog k h) {regions : RegionTable}
    (hc : logRegionClearOfDeclaredRegions regions h = .ok ()) :
    logRegionClearOfDeclaredRegions regions k = .ok () := by
  by_cases h0 : h.logLength = 0
  · rw [logRegionClearOfDeclaredRegions,if_pos (hk.length.trans h0)]
    rfl
  · rw [logRegionClearOfDeclaredRegions,if_neg h0,Outcome.rejectIf_eq_ok] at hc
    rw [logRegionClearOfDeclaredRegions,if_neg (by rwa [hk.length]),Outcome.rejectIf_eq_ok]
    simpa only [overlapsLog,hk.offset,hk.length] using hc

/-- A log region that was inside the file still is. -/
theorem SameLog.valid (hk : SameLog k h) {m : Nat} (hn : n ≤ m) (hv : validateLogRegion n h = .ok ()) :
    validateLogRegion m k = .ok () := by
  by_cases h0 : h.logLength = 0
  · rw [validateLogRegion,if_pos (hk.length.trans h0)]
    rfl
  · obtain ⟨hoff,hlen,hlow,h64,hend⟩ := validateLogRegion_eq_ok hv h0
    rw [← hk.offset] at hoff hlow h64 hend
    rw [← hk.length] at hlen h64 hend
    exact validateLogRegion_of hoff hlen hlow h64 (hend.trans hn)

end sameLog

section again
variable [Crc32c] {d : Device} {writable rc : Bool} {header : Header} {slot : HeaderSlot} {chain : List LogEntry}
  {regions : RegionTable}
  {r : VhdxReader} {s : ReaderState}

/-- Every write of the chain is past the identifier and the headers. -/
def PastHeaders (chain : List LogEntry) : Prop := ∀ x ∈ descriptorsOf chain, regionTable1Offset ≤ x.write.1

omit [Crc32c] in
theorem PastHeaders.off (h : PastHeaders chain) {x : Span} (hx : x.stop ≤ regionTable1Offset) :
    LandsOff chain x := fun y hy =>
  (min_le_right _ _).trans ((hx.trans (h y hy)).trans (le_max_left _ _))

theorem regionsAt_erased {n : Nat} (hlog : oneMib ≤ header.logOffset.toNat) :
    regionsAt (d.erased header slot) n = regionsAt d n := by
  have h1 : (d.erased header slot).bytes regionTable1Offset regionTableSize =
    d.bytes regionTable1Offset regionTableSize :=
    Device.bytes_erased le_rfl (.inl ((show regionTable1Offset + regionTableSize ≤ oneMib by decide).trans hlog))
  have h2 : (d.erased header slot).bytes regionTable2Offset regionTableSize =
    d.bytes regionTable2Offset regionTableSize :=
    Device.bytes_erased (by decide) (.inl ((show regionTable2Offset + regionTableSize ≤ oneMib by decide).trans hlog))
  unfold regionsAt tableAt
  rw [h1,h2]

/-- The file an open leaves is one that is identified with nothing pending, under a header with the same log: the one
the reader holds, or another over a log of zeros. -/
private theorem Opened.again (h : Opened d writable rc header slot chain regions r s) (hc : PastHeaders chain) :
    ∃ k t, Identified (d.opened header slot chain) k t regions ∧ pendingChain (d.opened header slot chain) k = .ok [] ∧
      SameLog k s.header ∧ (k.logGuid = s.header.logGuid ∨
        (d.opened header slot chain).bytes s.header.logOffset.toNat s.header.logLength.toNat =
        zeros s.header.logLength.toNat) := by
  obtain ⟨before,hident⟩ := h.identified
  obtain ⟨-,-,hsame,-⟩ := loadDisk_inv h.loads
  by_cases hemp : chain = []
  · subst hemp
    obtain rfl : before = regions := Outcome.ok.inj (hident.table.symm.trans (by rw [← h.table,Device.replayed_nil]))
    rw [show s.header = header from hsame]
    exact ⟨header,slot,hident,h.replays.pending,.refl,.inl rfl⟩
  · have hne : ¬ chain.isEmpty = true := by simpa using hemp
    obtain ⟨hguid,hlen,hlow,hend⟩ := hident.log_inside h.replays.pending hemp
    have hle : d.size ≤ (d.replayed chain).size := (le_allowedExtent _ _).trans Device.size_replayed.ge
    have hin : ∀ x : HeaderSlot, x.offset + headerSize ≤ d.size := slots_inside hident.table
    have hheld := headerAt_of_picked hident.picked
    have hversion : header.version = headerVersion := version_of_headerAt hheld
    rw [show headerAfter header slot chain = (clearedHeader header,slot.other) from if_neg hne] at hsame
    rw [show d.opened header slot chain = (d.replayed chain).erased header slot from if_neg hne,hsame]
    have hold : headerAt ((d.replayed chain).put header.logOffset.toNat (zeros header.logLength.toNat))
      (d.replayed chain).size slot =
        some header := by
      have hp := slot.offset_low
      rw [headerAt_congr (Device.bytes_put_of_disjoint (.inl (by omega))) (hin slot) ((hin slot).trans hle),
        headerAt_replayed (hc.off slot.before_tables) (hin slot) (hin slot),hheld]
    -- whichever of the two headers is picked, all it says of the log but the GUID is the same
    have hidentified : ∀ k t, SameLog k header →
        preferHeader (headerAt ((d.replayed chain).erased header slot) (d.replayed chain).size .one)
          (headerAt ((d.replayed chain).erased header slot) (d.replayed chain).size .two) = .ok (k,t) →
        Identified ((d.replayed chain).erased header slot) k t regions := fun k t hk hpick => {
      large := hident.large.trans hle
      identifier := by
        have hslot : 8 ≤ slot.other.offset := by cases slot <;> decide
        have hmib : oneMib = 1048576 := rfl
        unfold Device.erased
        rw [Device.bytes_put_of_disjoint (.inl (by omega)),Device.bytes_put_of_disjoint (.inl (by omega)),
          bytes_replayed (hc.off (show 0 + 8 ≤ regionTable1Offset by decide)),hident.identifier]
      picked := hpick
      logVersion := hk.version.trans hident.logVersion
      logRegion := hk.valid hle hident.logRegion
      table := (regionsAt_erased hlow).trans h.table
      clear := hk.clear h.clear }
    have hcleared : SameLog (clearedHeader header) header := ⟨rfl,rfl,rfl⟩
    by_cases hseq : header.sequenceNumber.toNat + 1 < 2^64
    · refine ⟨clearedHeader header,slot.other,hidentified _ _ hcleared ?_,if_neg fun hlog => ?_,.refl,.inl rfl⟩
      · exact picked_of_rotated (k := clearedHeader header) hold hversion (toNat_succ_seq hseq)
          (fun x => (hin x).trans hle) le_rfl
      · exact hlog.1 (by simp [clearedHeader,isZeroGuid,Guid.zero,zeros])
    · have hslot := slot.other.offset_low
      have hzeroed : ((d.replayed chain).erased header slot).bytes header.logOffset.toNat header.logLength.toNat =
          zeros header.logLength.toNat := by
        have hput := Device.bytes_put_same (d := d.replayed chain) (o := header.logOffset.toNat)
          (b := zeros header.logLength.toNat)
          (by rw [length_zeros]; omega)
        unfold Device.erased
        rw [Device.bytes_put_of_disjoint (.inr (by rw [length_encodeHeader]; omega))]
        rwa [length_zeros] at hput
      refine ⟨header,slot,hidentified _ _ .refl ?_,?_,hcleared.symm,.inr hzeroed⟩
      · refine picked_of_wrapped (k := clearedHeader header) hold hversion ?_ (fun x => (hin x).trans hle) le_rfl
        have hzero : (clearedHeader header).sequenceNumber.toNat = 0 := by
          have hlt := header.sequenceNumber.toNat_lt
          change (header.sequenceNumber + 1).toNat = 0
          rw [UInt64.toNat_add]
          change (header.sequenceNumber.toNat + 1) % 2^64 = 0
          omega
        omega
      · unfold pendingChain
        split_ifs
        · rw [hzeroed,collectReplayChain_zeros]
        · rfl

/-- An open of what an open left finds the same disk, by the same BAT. -/
theorem Opened.reopened (h : Opened d writable rc header slot chain regions r s) (hc : PastHeaders chain)
    (writable' growable w2 rc2 : Bool) :
    ∃ k t, Opened ((d.opened header slot chain).withMode writable' growable) w2 rc2 k t [] regions
    { r with writable := w2 }
      { s with header := k, slot := t } := by
  obtain ⟨k,t,hident,hpend,-⟩ := h.again hc
  refine ⟨k,t,{
    identified := ⟨regions,⟨hident.large,hident.identifier,hident.picked,hident.logVersion,hident.logRegion,
      hident.table,hident.clear⟩⟩
    replays := ⟨hpend,fun hne => absurd rfl hne,fun hne => absurd rfl hne⟩
    capable hne := absurd rfl hne
    table := by
      rw [Device.replayed_nil]
      exact hident.table
    known := h.known
    clear := hident.clear
    loads := ?_ }⟩
  rw [Device.replayed_nil]
  change (loadDisk (d.opened header slot chain).size k t regions w2).on
    ((d.opened header slot chain).withMode writable' growable) = _
  rw [on_withMode looks_loadDisk,Device.size_opened,loadDisk_passes h.loads k t w2]
  rfl

end again

def ReaderOp.Reads : ReaderOp → Prop
  | .dev op => op.Looks
  | .loadSize => True
  | .loadBat _ => True
  | _ => False

abbrev Reads {α : Type} (p : ReaderProg α) : Prop := Prog.Only ReaderOp.Reads p

section reads
variable {r : VhdxReader} {w t : World}

theorem reads_devRead {off len : Nat} : Reads (devRead off len) := ⟨rfl,fun x => by cases x <;> trivial⟩

theorem reads_batEntryAt {i : Nat} : Reads (batEntryAt i) := Prog.Only.bind ⟨trivial,fun _ => trivial⟩ fun _ => trivial

theorem reads_hostOffset {off inBlock len : Nat} : Reads (hostOffset off inBlock len) :=
  Prog.Only.bind ⟨trivial,fun _ => trivial⟩ fun _ => Prog.Only.bind (p := Prog.lift _) trivial fun _ =>
    Prog.Only.bind (p := Prog.lift _) trivial fun _ => Prog.Only.bind (p := Prog.lift _) trivial fun _ => trivial

private theorem reads_readChunk (c : BlockChunk) : Reads (readChunk c) := by
  refine reads_batEntryAt.bind fun e => ?_
  cases e.state with
  | fullyPresent => exact reads_hostOffset.bind fun _ => reads_devRead
  | notPresent => trivial
  | undefined => trivial
  | zero => trivial
  | unmapped => trivial
  | partiallyPresent => trivial
  | reserved v => trivial

private theorem reads_readChunks (cs : List BlockChunk) : Reads (readChunks cs) := by
  induction cs with
  | nil => trivial
  | cons c cs ih => exact (reads_readChunk c).bind fun _ => ih.bind fun _ => trivial

theorem reads_readAt (off len : Nat) : Reads (readAt r off len) := by
  refine Prog.Only.bind (p := Prog.lift _) trivial fun stop => ?_
  cases stop with
  | none => trivial
  | some stop => exact reads_readChunks _

structure World.SeesAs (w t : World) : Prop where
  dev : ∃ writable growable, t.dev = w.dev.withMode writable growable
  devSize : t.devSize = w.devSize
  bat : t.bat = w.bat

theorem World.SeesAs.run (h : w.SeesAs t) {α : Type} {p : ReaderProg α} (hp : Reads p) :
    (p.run World.handle t).1 = (p.run World.handle w).1 := by
  refine (hp.alike (R := fun t w => w.SeesAs t) ?_ h).1
  rintro op t w hop ⟨⟨writable,growable,hdev⟩,hsize,hbat⟩
  cases op with
  | dev op =>
    cases op with
    | size =>
      refine ⟨?_,⟨writable,growable,hdev⟩,hsize,hbat⟩
      change t.dev.size = w.dev.size
      rw [hdev]
      rfl
    | read off len =>
      refine ⟨?_,⟨writable,growable,hdev⟩,hsize,hbat⟩
      change t.dev.readAt off len = w.dev.readAt off len
      rw [hdev]
      rfl
    | flush => exact ⟨rfl,⟨writable,growable,hdev⟩,hsize,hbat⟩
    | write off bs => cases hop
    | setLen n => cases hop
  | loadSize => exact ⟨hsize,⟨writable,growable,hdev⟩,hsize,hbat⟩
  | loadBat i => exact ⟨congrArg (·[i]?) hbat,⟨writable,growable,hdev⟩,hsize,hbat⟩
  | lockSize => cases hop
  | unlockSize n => cases hop
  | lockHeader => cases hop
  | unlockHeader k x => cases hop
  | storeBat i e => cases hop

private theorem blockChunksFrom_passes {stop : Nat} (cursor pos : Nat) (b : Bool) :
    blockChunksFrom { r with writable := b } stop cursor pos = blockChunksFrom r stop cursor pos := by
  fun_induction blockChunksFrom r stop cursor pos with
  | case1 cursor pos h inBlock virtBlockIdx chunkLen ih =>
    rw [blockChunksFrom,if_pos h]
    exact congrArg _ ih
  | case2 cursor pos h => rw [blockChunksFrom,if_neg h]

/-- What is read does not depend on whether the reader may write. -/
theorem readAt_passes (off len : Nat) (b : Bool) : readAt { r with writable := b } off len = readAt r off len := by
  unfold readAt blockChunks
  simp only [blockChunksFrom_passes]
  rfl

end reads

section converges
variable [Crc32c] {d d' : Device} {rc : Bool} {p : DevProg (VhdxReader × ReaderState)} {r : VhdxReader}
  {s : ReaderState}

/-- Of every image that opens, by whichever opener: the file open leaves is opened again on any device that holds it,
writable or not, without a call that changes it, and with the same geometry, the same BAT and the same bytes to read. -/
theorem replay_converges (hp : Opener d rc p) (hw : rc = true → d.writable = true) (h : p.on d = (.ok (r,s),d'))
    (hpast : ∀ header slot chain, FindsChain d header slot chain → PastHeaders chain) (writable growable : Bool) :
    ∀ rc2 p2, Opener (d'.withMode writable growable) rc2 p2 →
    (p2 = openRwOnDevice (d'.withMode writable growable) → writable = true) →
      ∃ r2 s2, p2.on (d'.withMode writable growable) = (.ok (r2,s2),d'.withMode writable growable) ∧
        (∀ x ∈ p2.events Device.handle (d'.withMode writable growable), x.1.mutates = false) ∧
        r2 = { r with writable := r2.writable } ∧ s2.devSize = s.devSize ∧ s2.bat = s.bat ∧
        ∀ off len, ((readAt r2 off len).run World.handle (s2.start (d'.withMode writable growable))).1 =
          ((readAt r off len).run World.handle (s.start d')).1 := by
  obtain ⟨w1,rc1,hw1,hinner⟩ : ∃ w1 rc1, (rc1 = true → d.writable = true) ∧ (openInner w1 rc1).on d = (.ok (r,s),d') := by
    cases hp with
    | inner writable => exact ⟨writable,rc,hw,h⟩
    | onDevice => exact ⟨false,_,hw,h⟩
    | rwOnDevice =>
      unfold openRwOnDevice at h
      by_cases hdw : d.writable = true
      · rw [if_neg (not_not.mpr hdw)] at h
        exact ⟨true,true,fun _ => hdw,h⟩
      · rw [if_pos hdw] at h
        cases (Prod.mk.inj h).1
  obtain ⟨header,slot,chain,regions,hopened,rfl⟩ := openInner_inv hw1 hinner
  have hchain := hpast header slot chain ⟨hopened.identified,hopened.replays.pending⟩
  intro rc2 p2 hp2 hrw
  have hagain : ∃ w2 rc3, p2 = openInner w2 rc3 := by
    cases hp2 with
    | inner w2 => exact ⟨w2,rc2,rfl⟩
    | onDevice => exact ⟨false,_,rfl⟩
    | rwOnDevice => exact ⟨true,true,openRwOnDevice_of_writable (hrw rfl)⟩
  obtain ⟨w2,rc3,rfl⟩ := hagain
  obtain ⟨k,t,hre⟩ := hopened.reopened hchain writable growable w2 rc3
  refine ⟨_,_,hre.on_openInner fun hne => absurd rfl hne,fun x hx => ?_,rfl,rfl,rfl,fun off len => ?_⟩
  · cases hm : x.1.mutates with
    | false => rfl
    | true =>
      -- a call that changes the file would have found a chain, and there is none
      obtain ⟨-,_,_,c,hfinds,hne,-⟩ := (Device.faithful.guarded_openInner w2 rc3 _).1 x hx hm
      obtain ⟨-,-,rfl⟩ := hfinds.unique ⟨hre.identified,hre.replays.pending⟩
      exact absurd rfl hne
  · rw [readAt_passes]
    have hsees : (s.start (d.opened header slot chain)).SeesAs
        (({ s with header := k, slot := t } : ReaderState).start
          ((d.opened header slot chain).withMode writable growable)) :=
      ⟨⟨writable,growable,rfl⟩,rfl,rfl⟩
    exact hsees.run (reads_readAt off len)

end converges

/-- A dirty image, opened in place and then again on a device that may not be written. -/
theorem replay_converges_dirtied :
    letI := castagnoli
    let d := (dirtied ⟨4194304,⟨zeros logSectorSize,length_zeros _⟩⟩ 5242880).device
    ∃ r s d', (openRwOnDevice d).on d = (.ok (r,s),d') ∧ d' ≠ d ∧
    ∀ rc2 p2, Opener (d'.withMode false false) rc2 p2 → (p2 = openRwOnDevice (d'.withMode false false) → false = true) →
      ∃ r2 s2, p2.on (d'.withMode false false) = (.ok (r2,s2),d'.withMode false false) ∧
        (∀ x ∈ p2.events Device.handle (d'.withMode false false), x.1.mutates = false) ∧
        r2 = { r with writable := r2.writable } ∧ s2.devSize = s.devSize ∧ s2.bat = s.bat ∧
        ∀ off len, ((readAt r2 off len).run World.handle (s2.start (d'.withMode false false))).1 =
          ((readAt r off len).run World.handle (s.start d')).1 := by
  let := castagnoli
  intro d
  obtain ⟨s,hs,hrun,hgrown⟩ := dirtied_openRw
  refine ⟨_,_,_,hrun,fun heq => ?_,replay_converges .rwOnDevice id hrun (fun _ _ _ hf => ?_) false false⟩
  · have hsize : d.size = 4194304 := Build.size_device
    have hsame := hgrown.symm.trans (congrArg Device.size heq)
    rw [hsize] at hsame
    exact absurd hsame (by decide)
  · obtain ⟨-,-,rfl⟩ := hf.unique ⟨hs.identified,hs.replays.pending⟩
    intro y hy
    obtain rfl := List.mem_singleton.mp hy
    exact show regionTable1Offset ≤ (4194304 : UInt64).toNat by decide

end ImgVhdx
