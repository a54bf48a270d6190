import ImgVhdx.Reader.Image

/-! Where the regions of an opened image lie: what the checks at open guarantee of the
log, and what they leave open of the metadata and the BAT. -/
namespace ImgVhdx
open Lib DevProg

structure Span where
  start : Nat
  len : Nat
  deriving DecidableEq, Repr

namespace Span

def stop (s : Span) : Nat := s.start + s.len

/-- No byte is in both. -/
def Apart (a b : Span) : Prop := min a.stop b.stop ≤ max a.start b.start

instance (a b : Span) : Decidable (a.Apart b) := inferInstanceAs (Decidable (_ ≤ _))

theorem apart_iff {a b : Span} : a.Apart b ↔ ∀ i, a.start ≤ i → i < a.stop → b.start ≤ i → i < b.stop → False := by
  unfold Apart stop
  constructor
  · intro h i h1 h2 h3 h4
    omega
  · intro h
    by_contra hlt
    exact h (max a.start b.start) (by omega) (by omega) (by omega) (by omega)

theorem Apart.symm {a b : Span} (h : a.Apart b) : b.Apart a := by
  unfold Apart at *
  omega

end Span

/-- The first megabyte: the identifier, both headers and both region tables. -/
def headerSection : Span := ⟨0,oneMib⟩

def Header.logRegion (h : Header) : Span := ⟨h.logOffset.toNat,h.logLength.toNat⟩

def RegionEntry.span (e : RegionEntry) : Span := ⟨e.fileOffset,e.length⟩

/-- The header section, the log where there is one, the metadata and the BAT share no byte. -/
structure LaidApart (header : Header) (metadata bat : Span) : Prop where
  log_header : header.logLength ≠ 0 → headerSection.Apart header.logRegion
  log_metadata : header.logLength ≠ 0 → header.logRegion.Apart metadata
  log_bat : header.logLength ≠ 0 → header.logRegion.Apart bat
  header_metadata : headerSection.Apart metadata
  header_bat : headerSection.Apart bat
  metadata_bat : metadata.Apart bat

theorem spanInsideTheFile_eq_ok {devSize off len n : Nat} {what : String} :
    spanInsideTheFile devSize off len what = .ok n ↔ off + len < 2^64 ∧ off + len ≤ devSize ∧ n = len := by
  unfold spanInsideTheFile
  by_cases h : off + len < 2^64
  · rw [checkedAdd_of_lt h]
    simp only [Outcome.okOr_some,Outcome.ok_bind,Outcome.bind_eq_ok,Outcome.rejectIf_eq_ok,Outcome.pure_eq,
      Outcome.ok.injEq]
    constructor
    · rintro ⟨-,h1,h2⟩
      exact ⟨h,by omega,h2.symm⟩
    · rintro ⟨-,h1,h2⟩
      exact ⟨(),by omega,h2.symm⟩
  · rw [checkedAdd,if_neg h]
    exact ⟨fun hc => (by cases hc),fun hc => absurd hc.1 h⟩

/-- What a log region that passed its check is. -/
theorem validateLogRegion_eq_ok {devSize : Nat} {header : Header} (h : validateLogRegion devSize header = .ok ())
    (hl : header.logLength ≠ 0) : header.logOffset.toNat % oneMib = 0 ∧ header.logLength.toNat % oneMib = 0 ∧
      oneMib ≤ header.logOffset.toNat ∧ header.logOffset.toNat + header.logLength.toNat < 2^64 ∧
      header.logOffset.toNat + header.logLength.toNat ≤ devSize := by
  rw [validateLogRegion,if_neg hl] at h
  simp only [Outcome.bind_eq_ok,Outcome.rejectIf_eq_ok] at h
  obtain ⟨-,hmod,-,hlow,n,hspan,-⟩ := h
  obtain ⟨h64,hend,-⟩ := spanInsideTheFile_eq_ok.mp hspan
  exact ⟨by omega,by omega,by omega,h64,hend⟩

/-- A log of whole megabytes past the first one and inside the file passes it. -/
theorem validateLogRegion_of {devSize : Nat} {header : Header} (hoff : header.logOffset.toNat % oneMib = 0)
    (hlen : header.logLength.toNat % oneMib = 0) (hlow : oneMib ≤ header.logOffset.toNat)
    (h64 : header.logOffset.toNat + header.logLength.toNat < 2^64)
    (hend : header.logOffset.toNat + header.logLength.toNat ≤ devSize) : validateLogRegion devSize header = .ok () := by
  have hspan : spanInsideTheFile devSize header.logOffset.toNat header.logLength.toNat
    "log region reaches past the end of the file" =
      .ok header.logLength.toNat := spanInsideTheFile_eq_ok.mpr ⟨h64,hend,rfl⟩
  unfold validateLogRegion
  split_ifs with h0
  · rfl
  · dsimp only
    rw [Outcome.rejectIf_of_not _ (by omega),Outcome.rejectIf_of_not _ (by omega)]
    simp only [Outcome.ok_bind,hspan]
    rfl

/-- A declared region inside the file that passed the check against the log is clear of it. -/
theorem logRegion_apart {header : Header} {regions : RegionTable} {e : RegionEntry}
    (h : logRegionClearOfDeclaredRegions regions header = .ok ()) (hl : header.logLength ≠ 0) (he : e ∈ regions.entries)
    (hlog : header.logOffset.toNat + header.logLength.toNat < 2^64) (hspan : e.fileOffset + e.length < 2^64) :
    header.logRegion.Apart e.span := by
  rw [logRegionClearOfDeclaredRegions,if_neg hl,Outcome.rejectIf_eq_ok] at h
  have hno : ¬ overlapsLog header e := fun ho => h ⟨e,he,ho⟩
  unfold overlapsLog at hno
  rw [saturatingAdd_of_lt hlog,saturatingAdd_of_lt hspan] at hno
  simp only [Span.Apart,Span.stop,Header.logRegion,RegionEntry.span]
  omega

section run
variable [Crc32c] {d d' : Device} {rc : Bool}

/-- What is known of the log once the regions were located. -/
theorem locateRegions_eq_ok {l : Located} (h : (locateRegions rc).on d = (.ok l,d')) :
    (l.header.logLength ≠ 0 → headerSection.Apart l.header.logRegion ∧
      l.header.logOffset.toNat + l.header.logLength.toNat < 2^64) ∧
    logRegionClearOfDeclaredRegions l.regions l.header = .ok () := by
  simp only [locateRegions,on,Prog.run_bind_eq_ok,Prog.run_lift_eq_ok] at h
  obtain ⟨size,d0,-,sig,d1,-,_,d2,-,⟨header,slot⟩,d3,-,_,d4,-,_,d5,⟨hvalid,-⟩,before,d6,-,_,d7,-,
    ⟨size',replayed⟩,d8,-,regions,d9,-,_,d10,-,_,d11,⟨hclear,-⟩,h⟩ := h
  obtain rfl := Outcome.ok.inj (Prod.mk.inj h).1
  refine ⟨fun hl => ?_,hclear⟩
  obtain ⟨-,-,hlow,h64,-⟩ := validateLogRegion_eq_ok hvalid hl
  refine ⟨?_,h64⟩
  simp only [Span.Apart,Span.stop,Header.logRegion,headerSection] at hlow ⊢
  omega

omit [Crc32c] in
theorem readMetadata_eq_ok {devSize : Nat} {regions : RegionTable} {p : DiskParameters}
    (h : (readMetadata devSize regions).on d = (.ok p,d')) :
    ∃ m, regions.find Guids.metadata = some m ∧ m.fileOffset + m.length < 2^64 ∧ m.fileOffset + m.length ≤ devSize := by
  simp only [readMetadata,on,Prog.run_bind_eq_ok,Prog.run_lift_eq_ok] at h
  obtain ⟨m,d1,⟨hm,-⟩,len,d2,⟨hspan,-⟩,-⟩ := h
  obtain ⟨h64,hend,-⟩ := spanInsideTheFile_eq_ok.mp hspan
  exact ⟨m,Outcome.okOr_eq_ok.mp hm,h64,hend⟩

omit [Crc32c] in
theorem readBat_eq_ok {devSize virtualSize blockSize ratio off : Nat} {regions : RegionTable} {bat : List BatEntry}
    (h : (readBat devSize regions virtualSize blockSize ratio).on d = (.ok (off,bat),d')) :
    ∃ b entries, regions.find Guids.bat = some b ∧ off = b.fileOffset ∧ b.fileOffset + b.length < 2^64 ∧
      b.fileOffset + b.length ≤ devSize ∧ batRegionCoversTheDisk b.length virtualSize blockSize ratio = .ok entries ∧
      off + entries * batEntrySize ≤ d.size ∧ bat = decodeBat (d.bytes off (entries * batEntrySize)) ∧ d' = d := by
  simp only [readBat,on,Prog.run_bind_eq_ok,Prog.run_lift_eq_ok] at h
  obtain ⟨b,d1,⟨hb,rfl⟩,_,d2,⟨hspan,rfl⟩,entries,d3,⟨hentries,rfl⟩,len,d4,⟨hlen,rfl⟩,bytes,d5,hread,h⟩ := h
  obtain ⟨hr,rfl⟩ := Prod.mk.inj h
  obtain ⟨rfl,rfl⟩ := Prod.mk.inj (Outcome.ok.inj hr)
  obtain ⟨h64,hend,-⟩ := spanInsideTheFile_eq_ok.mp hspan
  obtain ⟨hroom,rfl,rfl⟩ := on_devRead_eq_ok.mp hread
  obtain rfl : len = entries * batEntrySize := by
    have := Outcome.okOr_eq_ok.mp hlen
    unfold checkedMul at this
    split_ifs at this
    exact (Option.some.inj this).symm
  exact ⟨b,entries,Outcome.okOr_eq_ok.mp hb,rfl,h64,hend,hentries,hroom,rfl,rfl⟩

omit [Crc32c] in
theorem finishOpen_eq_ok {devSize : Nat} {header : Header} {slot : HeaderSlot} {regions : RegionTable}
    {p : DiskParameters} {writable : Bool} {r : VhdxReader} {s : ReaderState}
    (h : (finishOpen devSize header slot regions p writable).on d = (.ok (r,s),d')) :
    s.devSize = devSize ∧ s.header = header ∧ s.slot = slot ∧ r.virtualSize = p.virtualSize ∧
    r.blockSize = p.fileParams.blockSize ∧ r.sectorSize = p.sectorSize ∧ (r.sectorSize = 512 ∨ r.sectorSize = 4096) ∧
    r.chunkRatio = chunkRatio r.blockSize r.sectorSize ∧ r.writable = writable ∧
    (readBat devSize regions r.virtualSize r.blockSize r.chunkRatio).on d = (.ok (r.batRegionOff,s.bat),d') := by
  unfold finishOpen at h
  split_ifs at h with hpow hrange hsector hparent hmeta hratio <;> try cases (Prod.mk.inj h).1
  rw [on,Prog.run_bind_eq_ok] at h
  obtain ⟨⟨off,bat⟩,d1,hb,h⟩ := h
  obtain ⟨hr,rfl⟩ := Prod.mk.inj h
  obtain ⟨rfl,rfl⟩ := Prod.mk.inj (Outcome.ok.inj hr)
  exact ⟨rfl,rfl,rfl,rfl,rfl,rfl,by dsimp only; omega,rfl,rfl,hb⟩

/-- The steps of an open that succeeded. -/
theorem openInner_eq_ok {writable : Bool} {r : VhdxReader} {s : ReaderState}
    (h : (openInner writable rc).on d = (.ok (r,s),d')) :
    ∃ l d1 header slot d2 p d3, (locateRegions rc).on d = (.ok l,d1) ∧ (consumeLog l).on d1 = (.ok (header,slot),d2) ∧
      (readMetadata l.devSize l.regions).on d2 = (.ok p,d3) ∧
      (finishOpen l.devSize header slot l.regions p writable).on d3 = (.ok (r,s),d') := by
  simp only [openInner,on,Prog.run_bind_eq_ok] at h
  obtain ⟨l,d1,hl,⟨header,slot⟩,d2,hc,p,d3,hp,h⟩ := h
  exact ⟨l,d1,header,slot,d2,p,d3,hl,hc,hp,h⟩

end run

/-- Of every image that opens: the regions open used are laid apart exactly when the
metadata and the BAT are clear of the header section and of each other. The log is
clear of everything by the checks. -/
theorem openInner_laidApart_iff [Crc32c] (writable replayCapable : Bool) (d : Device) :
    ∀ r s d', (openInner writable replayCapable).on d = (.ok (r,s),d') →
      ∃ l d1 metadata bat, (locateRegions replayCapable).on d = (.ok l,d1) ∧
        l.regions.find Guids.metadata = some metadata ∧ l.regions.find Guids.bat = some bat ∧
        (LaidApart l.header metadata.span bat.span ↔
          headerSection.Apart metadata.span ∧ headerSection.Apart bat.span ∧ metadata.span.Apart bat.span) := by
  intro r s d' h
  obtain ⟨l,d1,header,slot,d2,p,d3,hl,-,hp,hf⟩ := openInner_eq_ok h
  obtain ⟨m,hm,hm64,-⟩ := readMetadata_eq_ok hp
  obtain ⟨-,-,-,-,-,-,-,-,-,hb⟩ := finishOpen_eq_ok hf
  obtain ⟨b,-,hb,-,hb64,-⟩ := readBat_eq_ok hb
  obtain ⟨hlog,hclear⟩ := locateRegions_eq_ok hl
  refine ⟨l,d1,m,b,hl,hm,hb,fun ha => ⟨ha.header_metadata,ha.header_bat,ha.metadata_bat⟩,fun ⟨h1,h2,h3⟩ => ?_⟩
  exact {
    log_header := fun hn => (hlog hn).1
    log_metadata := fun hn => logRegion_apart hclear hn (RegionTable.mem_of_find hm) (hlog hn).2 hm64
    log_bat := fun hn => logRegion_apart hclear hn (RegionTable.mem_of_find hb) (hlog hn).2 hb64
    header_metadata := h1
    header_bat := h2
    metadata_bat := h3 }

/-- No log, one valid header, and a BAT region declared on top of that header. -/
def batOverHeader : Build where
  size := 4 * 1024 * 1024
  header := ⟨1,Guid.zero,Guid.zero,Guid.zero,logVersionV0,headerVersion,0,0⟩
  batOffset := header1Offset
  batLen := 8
  metaOffset := oneMib
  virtualSize := oneMib
  body := []

private theorem batOverHeader_valid [Crc32c] : batOverHeader.Valid 1 where
  body := by simp [batOverHeader]
  meta_low := by decide
  meta_high := by decide
  bat_high := by decide
  bat_len := by decide
  size := by decide
  virtualSize := by decide
  version := rfl
  logVersion := rfl
  logRegion := rfl
  clear := rfl
  covers := by decide
  entries := by decide

private theorem batOverHeader_opens [Crc32c] (rc : Bool) : ∃ s, (openInner true rc).on batOverHeader.device =
    (.ok (batOverHeader.reader,s),batOverHeader.device) :=
  ⟨_,batOverHeader_valid.on_openInner (by simp [isZeroGuid,batOverHeader,Guid.zero,zeros]) rc⟩

/-- It opens, and what opened has its BAT inside the header section. -/
theorem openInner_batOverHeader :
    letI := castagnoli
    ∃ r s d', (openInner true true).on batOverHeader.device = (.ok (r,s),d') ∧
      ∀ l d1 metadata bat, (locateRegions true).on batOverHeader.device = (.ok l,d1) →
        l.regions.find Guids.metadata = some metadata → l.regions.find Guids.bat = some bat →
        ¬ LaidApart l.header metadata.span bat.span := by
  let := castagnoli
  obtain ⟨s,hs⟩ := batOverHeader_opens true
  refine ⟨_,s,_,hs,fun l d1 m b hl hm hb ha => ?_⟩
  have hloc := batOverHeader_valid.identified.on_locateRegions (b := true)
    (on_replayLog_of_zero (by simp [isZeroGuid,batOverHeader,Guid.zero,zeros]) true) rfl
  obtain rfl := Outcome.ok.inj (Prod.mk.inj (hloc.symm.trans hl)).1
  obtain rfl := Option.some.inj hb
  exact absurd ha.header_bat (by decide)

def batPastMetadata : Build := { batOverHeader with batOffset := 2 * 1024 * 1024 }

private theorem batPastMetadata_valid [Crc32c] : batPastMetadata.Valid 1 :=
  { batOverHeader_valid with
    body := by simp [batPastMetadata,batOverHeader]
    bat_high := by decide
    clear := rfl }

/-- The image with its BAT past the metadata is laid apart, and the one with its BAT over the header is not. -/
theorem openInner_laidApart_iff_bats :
    letI := castagnoli
    (∃ l d1 metadata bat, (locateRegions true).on batPastMetadata.device = (.ok l,d1) ∧
      l.regions.find Guids.metadata = some metadata ∧ l.regions.find Guids.bat = some bat ∧
      headerSection.Apart metadata.span ∧ headerSection.Apart bat.span ∧ metadata.span.Apart bat.span ∧
      LaidApart l.header metadata.span bat.span) ∧
    ∃ l d1 metadata bat, (locateRegions true).on batOverHeader.device = (.ok l,d1) ∧
      l.regions.find Guids.metadata = some metadata ∧ l.regions.find Guids.bat = some bat ∧
      ¬ headerSection.Apart bat.span ∧ ¬ LaidApart l.header metadata.span bat.span := by
  let := castagnoli
  have hzero : ∀ {b : Build}, b.header = batOverHeader.header → isZeroGuid b.header.logGuid = true := fun h => by
    rw [h]
    simp [isZeroGuid,batOverHeader,Guid.zero,zeros]
  constructor
  · obtain ⟨l,d1,metadata,bat,hl,hm,hb,hiff⟩ := openInner_laidApart_iff true true batPastMetadata.device _ _ _
      (batPastMetadata_valid.on_openInner (hzero rfl) true)
    have hloc := batPastMetadata_valid.identified.on_locateRegions (b := true) (on_replayLog_of_zero (hzero rfl) true) rfl
    obtain rfl := Outcome.ok.inj (Prod.mk.inj (hloc.symm.trans hl)).1
    obtain rfl := Option.some.inj hm
    obtain rfl := Option.some.inj hb
    have hapart : headerSection.Apart ⟨oneMib,metadataRegionSize⟩ ∧ headerSection.Apart ⟨2 * 1024 * 1024,8⟩ ∧
        (Span.mk oneMib metadataRegionSize).Apart ⟨2 * 1024 * 1024,8⟩ := by decide
    exact ⟨_,_,_,_,hl,rfl,rfl,hapart.1,hapart.2.1,hapart.2.2,hiff.mpr hapart⟩
  · obtain ⟨l,d1,metadata,bat,hl,hm,hb,hiff⟩ := openInner_laidApart_iff true true batOverHeader.device _ _ _
      (batOverHeader_valid.on_openInner (hzero rfl) true)
    have hloc := batOverHeader_valid.identified.on_locateRegions (b := true) (on_replayLog_of_zero (hzero rfl) true) rfl
    obtain rfl := Outcome.ok.inj (Prod.mk.inj (hloc.symm.trans hl)).1
    obtain rfl := Option.some.inj hm
    obtain rfl := Option.some.inj hb
    have hover : ¬ headerSection.Apart ⟨header1Offset,8⟩ := by decide
    exact ⟨_,_,_,_,hl,rfl,rfl,hover,fun h => hover (hiff.mp h).2.1⟩

end ImgVhdx
