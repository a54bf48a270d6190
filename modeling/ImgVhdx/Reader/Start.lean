import ImgVhdx.Log.Replay
import ImgVhdx.Reader.Steps

/-! What an image that opened for writing starts from: the device as replay left it, the
regions open used, and a BAT with an entry for every block of the disk. -/
namespace ImgVhdx
open Lib DevProg

@[simp] theorem Device.replayed_nil {d : Device} : d.replayed [] = d := by
  change (d.resize (max d.size (min 0 _))).putAll [] = d
  rw [Nat.zero_min,Nat.max_eq_left (Nat.zero_le _),Device.resize_self,Device.putAll_nil]

theorem allowedExtent_lt {n : Nat} {chain : List LogEntry} (h : n < 2^64) : allowedExtent n chain < 2^64 := by
  simp only [allowedExtent,saturatingAdd]
  omega

section
variable [Crc32c] {d d' : Device}

/-- Open goes on with the chain applied, and with the size the device then has. -/
private theorem replayLog_eq_ok {header : Header} {n : Nat} {replayed : Bool} (hw : d.writable = true)
    (h : (replayLog d.size header true).on d = (.ok (n,replayed),d')) :
    ∃ chain : List LogEntry, d' = d.replayed chain ∧ n = d'.size ∧ replayed = !chain.isEmpty := by
  unfold replayLog at h
  by_cases hlog : ¬ isZeroGuid header.logGuid ∧ header.logLength.toNat > 0 ∧ header.logOffset.toNat > 0
  · rw [if_pos hlog] at h
    simp only [on,Prog.run_bind_eq_ok,Prog.run_lift_eq_ok] at h
    obtain ⟨len,_,⟨-,rfl⟩,log,d1,hread,chain,_,⟨-,rfl⟩,h⟩ := h
    obtain ⟨-,-,rfl⟩ := on_devRead_eq_ok.mp hread
    cases hchain : chain.isEmpty with
    | true =>
      rw [hchain,if_pos rfl] at h
      obtain ⟨hr,rfl⟩ := Prod.mk.inj h
      obtain ⟨rfl,rfl⟩ := Prod.mk.inj (Outcome.ok.inj hr)
      exact ⟨[],by rw [Device.replayed_nil],rfl,rfl⟩
    | false =>
      rw [hchain,if_neg (by simp),if_neg (by simp),Prog.run_bind_eq_ok] at h
      obtain ⟨_,d2,happly,h⟩ := h
      obtain ⟨hr,rfl⟩ := Prod.mk.inj h
      obtain ⟨rfl,rfl⟩ := Prod.mk.inj (Outcome.ok.inj hr)
      obtain ⟨hc,-,rfl⟩ := on_applyChain_eq_ok hw happly
      exact ⟨chain,rfl,(replayedExtent_eq hc).trans Device.size_replayed.symm,by rw [hchain]; rfl⟩
  · rw [if_neg hlog] at h
    obtain ⟨hr,rfl⟩ := Prod.mk.inj h
    obtain ⟨rfl,rfl⟩ := Prod.mk.inj (Outcome.ok.inj hr)
    exact ⟨[],by rw [Device.replayed_nil],rfl,rfl⟩

/-- What locating the regions leaves of the device. -/
private theorem locateRegions_device {l : Located} (hw : d.writable = true)
    (h : (locateRegions true).on d = (.ok l,d')) :
    ∃ chain, d' = d.replayed chain ∧ l.devSize = d'.size ∧ l.replayed = !chain.isEmpty ∧ 8 ≤ d.size ∧
      validateLogRegion d.size l.header = .ok () := by
  simp only [locateRegions,on,Prog.run_bind_eq_ok,Prog.run_lift_eq_ok] at h
  obtain ⟨size,d0,hsize,sig,d1,hsig,_,d2,⟨-,rfl⟩,⟨header,slot⟩,d3,hheader,_,d4,⟨-,rfl⟩,_,d5,⟨hvalid,rfl⟩,before,d6,hbefore,_,d7,
    ⟨-,rfl⟩,⟨size',replayed⟩,d8,hreplay,regions,d9,hregions,_,d10,⟨-,rfl⟩,_,d11,⟨-,rfl⟩,h⟩ := h
  obtain ⟨hr,rfl⟩ := Prod.mk.inj (on_devSize.symm.trans hsize)
  obtain rfl := Outcome.ok.inj hr
  obtain ⟨h8,-,rfl⟩ := on_devRead_eq_ok.mp hsig
  obtain ⟨-,rfl⟩ := Prod.mk.inj ((on_pickHeader le_rfl).symm.trans hheader)
  obtain ⟨-,rfl⟩ := Prod.mk.inj ((on_pickRegionTable le_rfl).symm.trans hbefore)
  obtain ⟨chain,rfl,rfl,hreplayed⟩ := replayLog_eq_ok hw hreplay
  obtain ⟨-,rfl⟩ := Prod.mk.inj ((on_pickRegionTable le_rfl).symm.trans hregions)
  obtain ⟨hr,rfl⟩ := Prod.mk.inj h
  obtain rfl := Outcome.ok.inj hr
  exact ⟨chain,rfl,rfl,hreplayed,h8,hvalid⟩

/-- Erasing the log moves neither the device's end nor the log. -/
private theorem consumeLog_eq_ok {l : Located} {header : Header} {slot : HeaderSlot}
    (h : (consumeLog l).on d = (.ok (header,slot),d')) :
    header.logRegion = l.header.logRegion ∧ d'.size = d.size ∧ d'.writable = d.writable ∧ d'.growable = d.growable := by
  unfold consumeLog at h
  split_ifs at h with hr
  · simp only [zeroLogRegion,rewriteHeaderClearLog,on,Prog.run_bind_eq_ok] at h
    obtain ⟨_,d1,⟨_,d2,hz,hflush⟩,_,d3,hwrite,_,d4,hflush',h⟩ := h
    obtain ⟨-,rfl⟩ := Prod.mk.inj (on_devFlush.symm.trans hflush)
    obtain ⟨-,-,rfl⟩ := on_devWrite_eq_ok.mp hwrite
    obtain ⟨-,rfl⟩ := Prod.mk.inj (on_devFlush.symm.trans hflush')
    obtain ⟨hr,rfl⟩ := Prod.mk.inj h
    obtain ⟨rfl,rfl⟩ := Prod.mk.inj (Outcome.ok.inj hr)
    obtain ⟨-,rfl⟩ := on_writeZeros_eq_ok hz
    exact ⟨rfl,rfl,rfl,rfl⟩
  · obtain ⟨hr,rfl⟩ := Prod.mk.inj h
    obtain ⟨rfl,rfl⟩ := Prod.mk.inj (Outcome.ok.inj hr)
    exact ⟨rfl,rfl,rfl,rfl⟩

/-- `d` opens for writing as the reader `r` in the state `s`, which leaves it as `d'`; `l` is
where the regions open used lie. -/
structure OpensAs (d : Device) (r : VhdxReader) (s : ReaderState) (d' : Device) (l : Layout) : Prop where
  opens : (openRwOnDevice d).on d = (.ok (r,s),d')
  regions : ∃ located d1 metadata bat, (locateRegions true).on d = (.ok located,d1) ∧
    located.regions.find Guids.metadata = some metadata ∧ located.regions.find Guids.bat = some bat ∧
    l = ⟨located.header.logRegion,metadata.span,bat.span⟩

omit [Crc32c] in
theorem length_decodeBat {entries : Nat} {b : Bytes} (h : b.length = entries * batEntrySize) :
    (decodeBat b).length = entries := by
  rw [decodeBat,List.length_map,List.length_range,h,Nat.mul_div_cancel _ (by decide)]

omit [Crc32c] in
theorem decodeBat_zeros (n : Nat) : decodeBat (zeros (n * batEntrySize)) = List.replicate n ⟨.notPresent,0⟩ := by
  refine List.eq_replicate_iff.mpr ⟨length_decodeBat (length_zeros _),fun e he => ?_⟩
  obtain ⟨i,hi,rfl⟩ := List.mem_map.mp he
  have hi' : i < n := by
    rw [List.mem_range,length_zeros,Nat.mul_div_cancel _ (by decide)] at hi
    exact hi
  have hend : i * batEntrySize + batEntrySize ≤ n * batEntrySize := by
    rw [← Nat.succ_mul]
    exact Nat.mul_le_mul_right _ hi'
  rw [slice_zeros hend,ofLE_zeros]
  rfl

omit [Crc32c] in
theorem megabytes_decodeBat {b : Bytes} {e : BatEntry} (h : e ∈ decodeBat b) : oneMib ∣ e.fileOffset := by
  obtain ⟨i,-,rfl⟩ := List.mem_map.mp h
  rw [BatEntry.fileOffset_fromU64]
  exact Nat.dvd_mul_left _ _

omit [Crc32c] in
/-- The entries read are enough for the block of every byte of the disk. -/
theorem batRegionCoversTheDisk_eq_ok {len virtualSize blockSize ratio entries : Nat}
    (h : batRegionCoversTheDisk len virtualSize blockSize ratio = .ok entries) (hr : 0 < ratio) (hb : 0 < blockSize) :
    entries * batEntrySize ≤ len ∧ ∀ v < virtualSize, dataBatIndex (v / blockSize) ratio < entries := by
  simp only [batRegionCoversTheDisk,Outcome.bind_eq_ok,Outcome.rejectIf_eq_ok] at h
  obtain ⟨-,-,h⟩ := h
  split_ifs at h with hv
  · cases h
    exact ⟨by omega,fun v hlt => by omega⟩
  · simp only [Outcome.bind_eq_ok,Outcome.rejectIf_eq_ok] at h
    obtain ⟨n,hn,-,hle,h⟩ := h
    cases h
    have h8 : batEntrySize = 8 := rfl
    have he : entries = dataBatIndex ((virtualSize + blockSize - 1) / blockSize - 1) ratio + 1 := by
      have := Outcome.okOr_eq_ok.mp hn
      unfold checkedAdd at this
      split_ifs at this
      exact (Option.some.inj this).symm
    refine ⟨?_,fun v hlt => ?_⟩
    · have := Nat.div_mul_le_self len batEntrySize
      have := Nat.mul_le_mul_right batEntrySize (Nat.not_lt.mp hle)
      omega
    · have hlast : v / blockSize ≤ (virtualSize + blockSize - 1) / blockSize - 1 := by
        have h1 : v / blockSize + 1 = (v + blockSize) / blockSize := (Nat.add_div_right v hb).symm
        have h2 : (v + blockSize) / blockSize ≤ (virtualSize + blockSize - 1) / blockSize :=
          Nat.div_le_div_right (by omega)
        omega
      have := dataBatIndex_mono hr hlast
      omega

/-- What is known of a reader that has just opened, whatever the BAT says. -/
structure Started (r : VhdxReader) (s : ReaderState) (d : Device) (l : Layout) : Prop where
  writable : r.writable = true
  devWritable : d.writable = true
  size : s.devSize = d.size
  pos : 0 < d.size
  logRegion : s.header.logRegion = l.log
  logPlace : l.log.len ≠ 0 → headerSection.Apart l.log ∧ l.log.start % oneMib = 0 ∧ l.log.len % oneMib = 0
  logInside : l.log.len = 0 ∨ l.log.stop ≤ d.size
  logMetadata : l.log.Apart l.metadata
  logBat : l.log.Apart l.bat
  metadataInside : l.metadata.stop ≤ d.size
  batInside : l.bat.stop ≤ d.size
  batSmall : l.bat.stop < 2^64
  batStart : l.bat.start = r.batRegionOff
  batRoom : s.bat.length * batEntrySize ≤ l.bat.len
  bat : s.bat = decodeBat (d.bytes r.batRegionOff (s.bat.length * batEntrySize))
  covers : ∀ v < r.virtualSize, batIdxOf r v < s.bat.length

variable {r : VhdxReader} {s : ReaderState} {l : Layout}

omit [Crc32c] in
theorem Span.Apart.of_empty {a b : Span} (h : a.len = 0) : a.Apart b := by
  unfold Span.Apart Span.stop
  omega

theorem OpensAs.started (h : OpensAs d r s d' l) : Started r s d' l ∧ d'.growable = d.growable ∧
    (d.size < 2^64 → d'.size < 2^64) := by
  have hopen := h.opens
  unfold openRwOnDevice at hopen
  by_cases hw : d.writable = true
  swap
  · rw [if_pos hw] at hopen
    cases (Prod.mk.inj hopen).1
  rw [if_neg (not_not.mpr hw)] at hopen
  obtain ⟨located,d1,header,slot,d2,p,d3,hl,hc,hp,hf⟩ := openInner_eq_ok hopen
  obtain ⟨located',d1',m,b,hl',hm,hb,hlay⟩ := h.regions
  obtain ⟨hr,rfl⟩ := Prod.mk.inj (hl.symm.trans hl')
  obtain rfl := Outcome.ok.inj hr
  obtain ⟨chain,hchain,hsize,-,h8,hvalid⟩ := locateRegions_device hw hl
  obtain ⟨hlog,hclear⟩ := locateRegions_eq_ok hl
  obtain ⟨hregion,hsize2,hw2,hg2⟩ := consumeLog_eq_ok hc
  obtain ⟨m',hm',hm64,hmend⟩ := readMetadata_eq_ok hp
  obtain rfl : m = m' := Option.some.inj (hm.symm.trans hm')
  have hd3 : d3 = d2 := by
    simp only [readMetadata,on,Prog.run_bind_eq_ok,Prog.run_lift_eq_ok] at hp
    obtain ⟨_,_,⟨-,rfl⟩,_,_,⟨-,rfl⟩,_,_,hread,_,_,⟨-,rfl⟩,-,rfl⟩ := hp
    exact (on_devRead_eq_ok.mp hread).2.2
  obtain ⟨hdev,hheader,-,-,-,-,-,-,hwr,hbat⟩ := finishOpen_eq_ok hf
  obtain ⟨b',entries,hb',hoff,hb64,hbend,hentries,hroom,hdecode,hd'⟩ := readBat_eq_ok hbat
  obtain rfl : b = b' := Option.some.inj (hb.symm.trans hb')
  obtain ⟨hlen,hcovers⟩ := batRegionCoversTheDisk_eq_ok hentries r.chunkRatio_pos r.blockSize_pos
  have hlength : s.bat.length = entries := by
    rw [hdecode,length_decodeBat Device.length_bytes]
  subst hlay hd' hd3
  have hsz : d'.size = located.devSize := hsize2.trans hsize.symm
  have hle : d.size ≤ d'.size := by
    rw [hsize2,hchain,Device.size_replayed]
    exact le_allowedExtent _ _
  have hlen0 : located.header.logLength ≠ 0 ∨ located.header.logRegion.len = 0 := by
    by_cases h0 : located.header.logLength = 0
    · exact .inr (by simp [Header.logRegion,h0])
    · exact .inl h0
  refine ⟨?_,hg2.trans (by rw [hchain,Device.growable_replayed]),fun hlt => ?_⟩
  · exact {
      writable := hwr
      devWritable := hw2.trans (by rw [hchain,Device.writable_replayed,hw])
      size := hdev.trans hsz.symm
      pos := by omega
      logRegion := by rw [hheader]; exact hregion
      logPlace := by
        intro hn
        have h0 := hlen0.resolve_right hn
        obtain ⟨hs,hl,-⟩ := validateLogRegion_eq_ok hvalid h0
        exact ⟨(hlog h0).1,hs,hl⟩
      logInside := by
        rcases hlen0 with h0 | h0
        · have := (validateLogRegion_eq_ok hvalid h0).2.2.2.2
          exact .inr (this.trans hle)
        · exact .inl h0
      logMetadata := hlen0.elim (fun h0 => logRegion_apart hclear h0 (RegionTable.mem_of_find hm) (hlog h0).2 hm64)
        fun h0 => .of_empty h0
      logBat := hlen0.elim (fun h0 => logRegion_apart hclear h0 (RegionTable.mem_of_find hb) (hlog h0).2 hb64)
        fun h0 => .of_empty h0
      metadataInside := by rw [hsz]; exact hmend
      batInside := by rw [hsz]; exact hbend
      batSmall := hb64
      batStart := hoff.symm
      batRoom := by rw [hlength]; exact hlen
      bat := by rw [hlength]; exact hdecode
      covers := fun v hv => by rw [hlength]; exact hcovers v hv }
  · rw [hsize2,hchain,Device.size_replayed]
    exact allowedExtent_lt hlt

omit [Crc32c] in
/-- With a sound BAT on top, everything the writes rely on. -/
theorem Started.shared (h : Started r s d l) (hsound : SoundBat r l s.devSize s.bat) (halign : 4096 ∣ r.batRegionOff)
    (hsmall : d.size < 2^64) : Shared r l (s.start d) where
  sound := hsound
  megabytes e he := by
    have hb := h.bat
    change e ∈ s.bat at he
    rw [hb] at he
    exact megabytes_decodeBat he
  logInside := h.logInside.imp id fun hle => hle.trans h.size.ge
  parts part hp := by
    change part.stop ≤ s.devSize
    rw [h.size]
    rcases List.mem_cons.mp hp with rfl | hp
    · exact h.metadataInside
    · rw [List.mem_singleton.mp hp]
      exact h.batInside
  pos := Nat.lt_of_lt_of_le h.pos h.size.ge
  small := Nat.lt_of_le_of_lt h.size.le hsmall
  le := h.size.le
  batStart := h.batStart
  batAligned := halign
  batRoom := h.batRoom
  batSmall := h.batSmall
  logRegion := h.logRegion
  free _ := h.size.symm

omit [Crc32c] in
/-- No call is under way yet. -/
theorem Started.core {ι : Type} (h : Started r s d l) (hsound : SoundBat r l s.devSize s.bat)
    (halign : 4096 ∣ r.batRegionOff) (hsmall : d.size < 2^64) : Core r l (s.start d) fun _ : ι => ⟨.idle,[]⟩ where
  shared := h.shared hsound halign hsmall
  own _ := Own.of_none rfl rfl rfl rfl rfl
  rival _ _ _ := ⟨nofun,nofun,nofun⟩

omit [Crc32c] in
theorem SoundBat.of_absent {n : Nat} {bat : List BatEntry} (h : ∀ e ∈ bat, e.state.blockOnDisk = false) :
    SoundBat r l n bat where
  inside e he hd := by rw [h e he] at hd; cases hd
  clear e he hd := by rw [h e he] at hd; cases hd
  apart i j e f hi _ _ hd := by rw [h e (List.mem_of_getElem? hi)] at hd; cases hd

omit [Crc32c] in
private theorem decodeBat_two {first second : Nat} (h1 : first < 256^8) (h2 : second < 256^8) :
    decodeBat (toLE 8 first ++ toLE 8 second) = [.fromU64 first,.fromU64 second] := by
  have hlen : (toLE 8 first).length = 8 := length_toLE ..
  have ha : slice (toLE 8 first ++ toLE 8 second) 0 8 = toLE 8 first := by
    rw [slice_append_left (by omega)]
    exact slice_eq_self hlen
  have hb : slice (toLE 8 first ++ toLE 8 second) 8 8 = toLE 8 second := by
    rw [slice_append_right (by omega),hlen]
    exact slice_eq_self (length_toLE ..)
  rw [decodeBat,List.length_append,hlen,length_toLE]
  change [BatEntry.fromU64 (ofLE (slice _ 0 8)),BatEntry.fromU64 (ofLE (slice _ 8 8))] = _
  rw [ha,hb,ofLE_toLE h1,ofLE_toLE h2]

/-- A BAT of two words, laid where the region table says. -/
theorem Build.bat_two {b : Build} {first second : Nat} (hbody : b.body = [(b.batOffset,toLE 8 first ++ toLE 8 second)])
    (hlow : oneMib ≤ b.batOffset) (hm : b.metaOffset + metadataRegionSize ≤ b.batOffset)
    (hin : b.batOffset + 16 ≤ b.size) (h1 : first < 256^8) (h2 : second < 256^8) :
    decodeBat (b.device.bytes b.batOffset (2 * batEntrySize)) = [.fromU64 first,.fromU64 second] := by
  have hlen : (toLE 8 first ++ toLE 8 second).length = 2 * batEntrySize := by simp [batEntrySize]
  have hput := Device.bytes_put_same (d := Device.zeroed b.size) (o := b.batOffset) (b := toLE 8 first ++ toLE 8 second)
    (by rw [hlen]; exact hin)
  rw [hlen] at hput
  rw [Build.bytes_device hlow (.inr hm),hbody,← decodeBat_two h1 h2]
  exact congrArg decodeBat hput

/-- A built image without a log opens as it was built. -/
theorem Build.Valid.opensAs {b : Build} {entries : Nat} (h : b.Valid entries)
    (hg : isZeroGuid b.header.logGuid = true) :
    OpensAs b.device b.reader ⟨b.size,b.header,.one,decodeBat (b.device.bytes b.batOffset (entries * batEntrySize))⟩ b.device
      ⟨b.header.logRegion,⟨b.metaOffset,metadataRegionSize⟩,⟨b.batOffset,b.batLen⟩⟩ where
  opens := by
    have hw : b.device.writable = true := by simp [Build.device,Device.zeroed]
    rw [openRwOnDevice_of_writable hw]
    exact h.on_openInner hg true
  regions := ⟨_,_,_,_,h.identified.on_locateRegions (on_replayLog_of_zero hg true) rfl,rfl,rfl,rfl⟩

end

/-- No log, and two blocks: the first is absent, the second stored at the end of the file. -/
def halfStored : Build where
  size := 4 * 1024 * 1024
  header := ⟨1,Guid.zero,Guid.zero,Guid.zero,logVersionV0,headerVersion,0,0⟩
  batOffset := 2 * 1024 * 1024
  batLen := 16
  metaOffset := oneMib
  virtualSize := 2 * 1024 * 1024
  body := [(2 * 1024 * 1024,toLE 8 0 ++ toLE 8 (presentRaw 3145728))]

private theorem halfStored_valid [Crc32c] : halfStored.Valid 2 where
  body := by simp [halfStored,oneMib]
  meta_low := by decide
  meta_high := by decide
  bat_high := by decide
  bat_len := by decide
  size := by decide
  virtualSize := by decide
  version := rfl
  logVersion := rfl
  logRegion := rfl
  clear := rfl
  covers := by decide
  entries := by decide

private theorem halfStored_bat [Crc32c] : decodeBat (halfStored.device.bytes halfStored.batOffset (2 * batEntrySize)) =
    [⟨.notPresent,0⟩,⟨.fullyPresent,3145728⟩] := by
  exact (Build.bat_two rfl (by decide) (by decide) (by decide) (by decide) (by decide)).trans (by decide)

def halfStoredState : ReaderState := ⟨4194304,halfStored.header,.one,[⟨.notPresent,0⟩,⟨.fullyPresent,3145728⟩]⟩

def halfStoredLayout : Layout := ⟨halfStored.header.logRegion,⟨oneMib,metadataRegionSize⟩,⟨2097152,16⟩⟩

theorem halfStored_opensAs [Crc32c] :
    OpensAs halfStored.device halfStored.reader halfStoredState halfStored.device halfStoredLayout := by
  have := halfStored_valid.opensAs (by simp [isZeroGuid,halfStored,Guid.zero,zeros])
  rwa [halfStored_bat] at this

end ImgVhdx
