import ImgVhdx.Reader.Opens

/-! Images written byte by byte, with a region table, a metadata region and one header,
and what opening one of them finds. -/
namespace ImgVhdx
open Lib DevProg

def metadataRegionSize : Nat := 64 * 1024

section regionTable
variable (crc : Bytes) (batOffset batLen metaOffset : Nat)

def regionTableFields : List Bytes :=
  [regionTableSignature,crc,toLE 4 2,zeros 4,Guids.bat.1,toLE 8 batOffset,toLE 4 batLen,toLE 4 1,
    Guids.metadata.1,toLE 8 metaOffset,toLE 4 metadataRegionSize,toLE 4 1,zeros 65456]

def encodeRegionTable [Crc32c] : Bytes :=
  let buf := (regionTableFields (zeros 4) batOffset batLen metaOffset).flatten
  splice buf 4 (toLE 4 (RegionTable.crc buf))

def writtenRegions : RegionTable where
  entries := [{ guid := Guids.bat, fileOffset := batOffset, length := batLen, required := true },
    { guid := Guids.metadata, fileOffset := metaOffset, length := metadataRegionSize, required := true }]

variable {crc batOffset batLen metaOffset}

private theorem table_field (hc : crc.length = 4) {i o n : Nat} {p : Bytes}
    (hp : (regionTableFields crc batOffset batLen metaOffset)[i]? = some p)
    (ho : o = (([4,4,4,4,16,8,4,4,16,8,4,4,65456] : List Nat).take i).sum) (hl : n = p.length) :
    slice (regionTableFields crc batOffset batLen metaOffset).flatten o n = p := by
  refine slice_flatten hp (ho.trans ?_) hl
  rw [List.length_flatten,List.map_take]
  simp [regionTableFields,regionTableSignature,hc]

private theorem length_table (hc : crc.length = 4) :
    (regionTableFields crc batOffset batLen metaOffset).flatten.length = regionTableSize := by
  simp [regionTableFields,regionTableSignature,regionTableSize,hc]

private theorem splice_table (hc : crc.length = 4) {src : Bytes} (hs : src.length = 4) :
    splice (regionTableFields crc batOffset batLen metaOffset).flatten 4 src =
      (regionTableFields src batOffset batLen metaOffset).flatten := by
  simp only [regionTableFields,List.flatten_cons]
  rw [← List.append_assoc,splice_middle (show 4 = regionTableSignature.length from rfl) (by omega),List.append_assoc]

private theorem encodeRegionTable_eq {b : Nat} {l : Nat} {m : Nat} [Crc32c] : ∃ crc, crc < 256^4 ∧
    encodeRegionTable b l m = (regionTableFields (toLE 4 crc) b l m).flatten ∧
    RegionTable.crc (encodeRegionTable b l m) = crc := by
  have h : encodeRegionTable b l m = (regionTableFields (toLE 4
      (RegionTable.crc (regionTableFields (zeros 4) b l m).flatten)) b l m).flatten :=
    splice_table (by simp) (by simp)
  refine ⟨_,crc32c_lt _,h,?_⟩
  rw [h]
  -- the checksum is taken with its own field zeroed, before it is filled in and after
  unfold RegionTable.crc
  rw [slice_eq_self (length_table (by simp)),slice_eq_self (length_table (by simp)),splice_table (by simp) (by simp),
    splice_table (by simp) (by simp)]

@[simp] theorem length_encodeRegionTable [Crc32c] :
    (encodeRegionTable batOffset batLen metaOffset).length = regionTableSize := by
  obtain ⟨crc,-,h,-⟩ := encodeRegionTable_eq (b := batOffset) (l := batLen) (m := metaOffset)
  rw [h,length_table (by simp)]

private theorem parse_encodeRegionTable [Crc32c] (hb : batOffset < 2^64) (hl : batLen < 2^32) (hm : metaOffset < 2^64) :
    RegionTable.parse (encodeRegionTable batOffset batLen metaOffset) =
    .ok (writtenRegions batOffset batLen metaOffset) := by
  obtain ⟨crc,hcrc,h,hc⟩ := encodeRegionTable_eq (b := batOffset) (l := batLen) (m := metaOffset)
  have h4 : (toLE 4 crc).length = 4 := by simp
  have field := @table_field (toLE 4 crc) batOffset batLen metaOffset h4
  rw [RegionTable.parse_of_le (by simp),hc,h,field (i := 0) (o := 0) (n := 4) (p := regionTableSignature) rfl rfl rfl,
    field (i := 1) (o := 4) (n := 4) (p := toLE 4 crc) rfl rfl (by simp),field (i := 2) (o := 8) (n := 4)
      (p := toLE 4 2) rfl rfl (by simp),ofLE_toLE hcrc,
    ofLE_toLE (by decide),if_neg (by simp),if_neg (by simp),if_neg (by decide)]
  have hbat : RegionTable.entryAt (regionTableFields (toLE 4 crc) batOffset batLen metaOffset).flatten 0 =
      { guid := Guids.bat, fileOffset := batOffset, length := batLen, required := true } := by
    rw [RegionTable.entryAt,guidAt_of_slice (field (i := 4) (o := 16) (n := 16) (p := Guids.bat.1) rfl rfl rfl),
      field (i := 5) (o := 32) (n := 8) (p := toLE 8 batOffset) rfl rfl (by simp),field (i := 6) (o := 40) (n := 4)
        (p := toLE 4 batLen) rfl rfl (by simp),
      field (i := 7) (o := 44) (n := 4) (p := toLE 4 1) rfl rfl (by simp),ofLE_toLE hb,ofLE_toLE hl,
        ofLE_toLE (by decide)]
    rfl
  have hmeta : RegionTable.entryAt (regionTableFields (toLE 4 crc) batOffset batLen metaOffset).flatten 1 =
      { guid := Guids.metadata, fileOffset := metaOffset, length := metadataRegionSize, required := true } := by
    rw [RegionTable.entryAt,guidAt_of_slice (field (i := 8) (o := 48) (n := 16) (p := Guids.metadata.1) rfl rfl rfl),
      field (i := 9) (o := 64) (n := 8) (p := toLE 8 metaOffset) rfl rfl (by simp),
      field (i := 10) (o := 72) (n := 4) (p := toLE 4 metadataRegionSize) rfl rfl (by simp),
      field (i := 11) (o := 76) (n := 4) (p := toLE 4 1) rfl rfl (by simp),ofLE_toLE hm,ofLE_toLE (by decide),
        ofLE_toLE (by decide)]
    rfl
  simp only [List.range',List.map_cons,List.map_nil,hbat,hmeta,writtenRegions]

end regionTable

section metadata
variable (blockSize virtualSize sectorSize : Nat)

def metadataFields : List Bytes :=
  [metadataSignature,zeros 2,toLE 2 3,zeros 20,
    ItemIds.fileParameters.1,toLE 4 288,toLE 4 8,toLE 4 6,zeros 4,
    ItemIds.virtualDiskSize.1,toLE 4 296,toLE 4 8,toLE 4 6,zeros 4,
    ItemIds.logicalSectorSize.1,toLE 4 304,toLE 4 4,toLE 4 6,zeros 4,zeros 160,
    toLE 4 blockSize ++ toLE 4 0,toLE 8 virtualSize,toLE 4 sectorSize,zeros 65228]

def encodeMetadata : Bytes := (metadataFields blockSize virtualSize sectorSize).flatten

def writtenMetadata : MetadataTable where
  entries := [{ itemId := ItemIds.fileParameters, offset := 288, length := 8, flags := 6 },
    { itemId := ItemIds.virtualDiskSize, offset := 296, length := 8, flags := 6 },
    { itemId := ItemIds.logicalSectorSize, offset := 304, length := 4, flags := 6 }]
  regionBytes := encodeMetadata blockSize virtualSize sectorSize

def writtenDisk : DiskParameters where
  fileParams := { blockSize, flags := 0 }
  virtualSize := virtualSize
  sectorSize := sectorSize
  physicalSectorSize := none
  metadata := writtenMetadata blockSize virtualSize sectorSize

variable {blockSize virtualSize sectorSize}

private def metadataWidths : List Nat := [8,2,2,20,16,4,4,4,4,16,4,4,4,4,16,4,4,4,4,160,8,8,4,65228]

private theorem metadata_field {i o n : Nat} {p : Bytes}
    (hp : (metadataFields blockSize virtualSize sectorSize)[i]? = some p)
    (ho : o = (metadataWidths.take i).sum) (hl : n = p.length) :
    slice (encodeMetadata blockSize virtualSize sectorSize) o n = p := by
  refine slice_flatten hp (ho.trans ?_) hl
  rw [List.length_flatten,List.map_take]
  simp [metadataFields,metadataSignature,metadataWidths]

@[simp] theorem length_encodeMetadata : (encodeMetadata blockSize virtualSize sectorSize).length =
    metadataRegionSize := by
  simp [encodeMetadata,metadataFields,metadataSignature,metadataRegionSize]

private theorem metadata_entry {i : Nat} {d : Guid} {o n : Nat}
    (hid : (metadataFields blockSize virtualSize sectorSize)[4+i*5]? = some d.1)
    (hoff : (metadataFields blockSize virtualSize sectorSize)[5+i*5]? = some (toLE 4 o))
    (hlen : (metadataFields blockSize virtualSize sectorSize)[6+i*5]? = some (toLE 4 n))
    (hflags : (metadataFields blockSize virtualSize sectorSize)[7+i*5]? = some (toLE 4 6)) (hi : i < 3) (ho : o < 256^4)
    (hl : n < 256^4) :
    MetadataTable.entryAt (encodeMetadata blockSize virtualSize sectorSize) i =
      { itemId := d, offset := o, length := n, flags := 6 } := by
  have h : 32 + i * 32 = (metadataWidths.take (4+i*5)).sum ∧
      32 + i * 32 + 16 = (metadataWidths.take (5+i*5)).sum ∧
      32 + i * 32 + 20 = (metadataWidths.take (6+i*5)).sum ∧
      32 + i * 32 + 24 = (metadataWidths.take (7+i*5)).sum := by
    obtain rfl | rfl | rfl : i = 0 ∨ i = 1 ∨ i = 2 := by omega
    all_goals decide
  rw [MetadataTable.entryAt,guidAt_of_slice (metadata_field (n := 16) hid h.1 d.2.symm),
    metadata_field (n := 4) hoff h.2.1 (by simp),
    metadata_field (n := 4) hlen h.2.2.1 (by simp),metadata_field (n := 4) hflags h.2.2.2 (by simp),ofLE_toLE ho,ofLE_toLE hl,
    ofLE_toLE (by decide)]

theorem parse_encodeMetadata : MetadataTable.parse (encodeMetadata blockSize virtualSize sectorSize) =
    .ok (writtenMetadata blockSize virtualSize sectorSize) := by
  have hl : (encodeMetadata blockSize virtualSize sectorSize).length = 65536 := length_encodeMetadata
  have hcount : ofLE (slice (encodeMetadata blockSize virtualSize sectorSize) 10 2) = 3 := by
    rw [metadata_field (i := 2) (o := 10) (n := 2) (p := toLE 2 3) rfl rfl (by simp),ofLE_toLE (by decide)]
  rw [MetadataTable.parse_of_le (metadata_field (i := 0) (o := 0) (n := 8) (p := metadataSignature) rfl rfl rfl) hcount
    (by decide) (by omega)]
  simp only [List.range',List.map_cons,List.map_nil,writtenMetadata]
  rw [metadata_entry (i := 0) (d := ItemIds.fileParameters) (o := 288) (n := 8) rfl rfl rfl rfl (by omega) (by decide)
    (by decide),
    metadata_entry (i := 1) (d := ItemIds.virtualDiskSize) (o := 296) (n := 8) rfl rfl rfl rfl (by omega) (by decide) (by decide),
    metadata_entry (i := 2) (d := ItemIds.logicalSectorSize) (o := 304) (n := 4) rfl rfl rfl rfl (by omega) (by decide)
      (by decide)]

private theorem itemData_of {b : Nat} {v : Nat} {s : Nat} {d : Guid} {e : MetadataEntry} {p : Bytes}
    (he : (writtenMetadata b v s).entries.find? (fun e => e.itemId = d) = some e)
    (hl : e.offset + e.length ≤ 65536) (hp : slice (encodeMetadata b v s) e.offset e.length = p) :
    (writtenMetadata b v s).itemData d = some p := by
  have hlen : (writtenMetadata b v s).regionBytes.length = 65536 := length_encodeMetadata
  rw [MetadataTable.itemData,he]
  change (if _ then none else some _) = _
  rw [if_neg (by omega),← hp]
  rfl

theorem diskParameters_written (hb : blockSize < 2^32) (hv : virtualSize < 2^64) (hs : sectorSize < 2^32) :
    diskParameters (writtenMetadata blockSize virtualSize sectorSize) =
    .ok (writtenDisk blockSize virtualSize sectorSize) := by
  have h1 := itemData_of (b := blockSize) (v := virtualSize) (s := sectorSize)
    (d := ItemIds.fileParameters) rfl (by decide)
      (metadata_field (i := 20) (p := toLE 4 blockSize ++ toLE 4 0) rfl rfl (by simp))
  have h2 := itemData_of (b := blockSize) (v := virtualSize) (s := sectorSize)
    (d := ItemIds.virtualDiskSize) rfl (by decide)
      (metadata_field (i := 21) (p := toLE 8 virtualSize) rfl rfl (by simp))
  have h3 := itemData_of (b := blockSize) (v := virtualSize) (s := sectorSize)
    (d := ItemIds.logicalSectorSize) rfl (by decide)
      (metadata_field (i := 22) (p := toLE 4 sectorSize) rfl rfl (by simp))
  have h4 : (writtenMetadata blockSize virtualSize sectorSize).itemData ItemIds.physicalSectorSize = none := rfl
  have hparams : FileParameters.parse (toLE 4 blockSize ++ toLE 4 0) = .ok { blockSize, flags := 0 } := by
    rw [FileParameters.parse,Outcome.rejectIf_of_not _ (by simp),readU32Le_of_le (by simp),readU32Le_of_le (by simp),
      slice_append_left (by simp),slice_append_right (by simp),slice_eq_self (by simp),
      show 4 - (toLE 4 blockSize).length = 0 by simp,slice_eq_self (by simp),ofLE_toLE hb,ofLE_toLE (by decide)]
    rfl
  have hsize : readVirtualDiskSize (toLE 8 virtualSize) = .ok virtualSize := by
    rw [readVirtualDiskSize,Outcome.rejectIf_of_not _ (by simp),readU64Le_of_le (by simp),slice_eq_self (by simp),ofLE_toLE hv]
    rfl
  have hsector : readSectorSize (toLE 4 sectorSize) = .ok sectorSize := by
    rw [readSectorSize,Outcome.rejectIf_of_not _ (by simp),readU32Le_of_le (by simp),slice_eq_self (by simp),ofLE_toLE hs]
    rfl
  simp only [diskParameters,h1,h2,h3,h4,Outcome.okOr_some,Outcome.ok_bind,hparams,hsize,hsector]
  rfl

end metadata

def Device.zeroed (n : Nat) : Device where
  size := n
  byte _ := 0
  writable := true
  growable := true
  blank _ _ := rfl

/-- What an image is built from: blocks of one megabyte, and whatever bytes go past the first one. -/
structure Build where
  size : Nat
  header : Header
  batOffset : Nat
  batLen : Nat
  metaOffset : Nat
  virtualSize : Nat
  body : List (Nat × Bytes)

namespace Build
variable [Crc32c] (b : Build)

def regions : RegionTable := writtenRegions b.batOffset b.batLen b.metaOffset

/-- Header 1 is valid, header 2 is zero, so the reader picks header 1. -/
def device : Device :=
  ((((Device.zeroed b.size).putAll b.body).put b.metaOffset (encodeMetadata oneMib b.virtualSize 512)).put
    regionTable1Offset
    (encodeRegionTable b.batOffset b.batLen b.metaOffset)).put header1Offset (encodeHeader b.header)|>.put 0
      fileIdentifierSignature

def reader : VhdxReader where
  virtualSize := b.virtualSize
  blockSize := oneMib
  sectorSize := 512
  physicalSectorSize := none
  chunkRatio := 4096
  batRegionOff := b.batOffset
  writable := true
  blockSize_pow := ⟨20,by decide,rfl⟩
  blockSize_range := by decide
  chunkRatio_pos := by decide

structure Valid (entries : Nat) : Prop where
  body : ∀ p ∈ b.body, oneMib ≤ p.1
  meta_low : oneMib ≤ b.metaOffset
  meta_high : b.metaOffset + metadataRegionSize ≤ b.size
  bat_high : b.batOffset + b.batLen ≤ b.size
  bat_len : b.batLen < 2^32
  size : b.size < 2^64
  virtualSize : b.virtualSize < 2^64
  version : b.header.version = headerVersion
  logVersion : b.header.logVersion = logVersionV0
  logRegion : validateLogRegion b.size b.header = .ok ()
  clear : logRegionClearOfDeclaredRegions b.regions b.header = .ok ()
  covers : batRegionCoversTheDisk b.batLen b.virtualSize oneMib 4096 = .ok entries
  entries : entries * batEntrySize ≤ b.batLen

end Build

theorem Device.bytes_zeroed {n off len : Nat} : (Device.zeroed n).bytes off len = zeros len := by
  refine (Device.bytes_eq_iff (by simp)).mpr fun i hi => ?_
  simp [Device.zeroed,zeros]

namespace Build
variable [Crc32c] {b : Build} {entries : Nat}

@[simp] theorem size_device : b.device.size = b.size := by simp [device,Device.zeroed]

/-- Past the first megabyte and the metadata lies the body alone. -/
theorem bytes_device {off len : Nat} (h : oneMib ≤ off)
    (hm : off + len ≤ b.metaOffset ∨ b.metaOffset + metadataRegionSize ≤ off) :
    b.device.bytes off len = ((Device.zeroed b.size).putAll b.body).bytes off len := by
  have hmib : oneMib = 1048576 := rfl
  unfold device
  rw [Device.bytes_put_of_disjoint (by rw [show fileIdentifierSignature.length = 8 from rfl]; omega),
    Device.bytes_put_of_disjoint (by rw [length_encodeHeader]; unfold header1Offset headerSize; omega),
    Device.bytes_put_of_disjoint (by rw [length_encodeRegionTable]; unfold regionTable1Offset regionTableSize; omega),
    Device.bytes_put_of_disjoint (by rw [length_encodeMetadata]; omega)]

omit [Crc32c] in
theorem Valid.large (h : b.Valid entries) : 1048576 + 65536 ≤ b.size := by
  have := h.meta_low
  have := h.meta_high
  unfold oneMib metadataRegionSize at *
  omega

theorem Valid.bytes_identifier (h : b.Valid entries) : b.device.bytes 0 8 = fileIdentifierSignature := by
  have := h.large
  unfold device
  exact Device.bytes_put_same (by simp [Device.zeroed,fileIdentifierSignature]; omega)

private theorem Valid.headerAt_one (h : b.Valid entries) : headerAt b.device b.size .one = some b.header := by
  have hsize := h.large
  unfold headerAt
  rw [if_neg (by simp only [HeaderSlot.offset,header1Offset,headerSize]; omega),Outcome.value_eq_some]
  unfold device HeaderSlot.offset
  dsimp only
  rw [Device.bytes_put_of_disjoint
    (by rw [show fileIdentifierSignature.length = 8 from rfl]; unfold header1Offset; omega)]
  have hb := Device.bytes_put_same (d := (((Device.zeroed b.size).putAll b.body).put b.metaOffset
    (encodeMetadata oneMib b.virtualSize 512)).put regionTable1Offset
      (encodeRegionTable b.batOffset b.batLen b.metaOffset))
    (o := header1Offset) (b := encodeHeader b.header)
    (by simp only [Device.size_put,Device.size_putAll,Device.zeroed,length_encodeHeader,header1Offset,headerSize]
        omega)
  rw [length_encodeHeader] at hb
  rw [hb,Header.parse_encodeHeader _ h.version]

/-- What no part of the header section covers is zero. -/
private theorem Valid.bytes_gap (h : b.Valid entries) {off len : Nat} (hlo : header1Offset + headerSize ≤ off)
    (hhi : off + len ≤ regionTable1Offset) : b.device.bytes off len = zeros len := by
  have hm := h.meta_low
  have e1 : header1Offset = 65536 := rfl
  have e2 : headerSize = 4096 := rfl
  have e3 : regionTable1Offset = 196608 := rfl
  have e4 : oneMib = 1048576 := rfl
  unfold device
  rw [Device.bytes_put_of_disjoint (by rw [show fileIdentifierSignature.length = 8 from rfl]; omega),
    Device.bytes_put_of_disjoint (by rw [length_encodeHeader]; omega),Device.bytes_put_of_disjoint (by omega),
    Device.bytes_put_of_disjoint (by omega),
    Device.bytes_putAll_of_disjoint fun p hp => (by have := h.body p hp; omega),Device.bytes_zeroed]

private theorem Valid.headerAt_two (h : b.Valid entries) : headerAt b.device b.size .two = none := by
  unfold headerAt
  split_ifs with hn
  · rfl
  · have hz : b.device.bytes HeaderSlot.two.offset headerSize = zeros headerSize := h.bytes_gap (by decide) (by decide)
    rw [hz,Header.parse_of_le (by simp),if_pos ?_]
    · rfl
    · rw [slice_zeros (by decide)]
      simp [zeros,headerSignature]

theorem Valid.regionsAt (h : b.Valid entries) : regionsAt b.device b.size = .ok b.regions := by
  have hsize := h.large
  have hbytes : b.device.bytes regionTable1Offset regionTableSize =
      encodeRegionTable b.batOffset b.batLen b.metaOffset := by
    unfold device
    rw [Device.bytes_put_of_disjoint
      (by rw [show fileIdentifierSignature.length = 8 from rfl]; unfold regionTable1Offset; omega),
      Device.bytes_put_of_disjoint
        (by rw [length_encodeHeader]; unfold header1Offset headerSize regionTable1Offset; omega)]
    have hb := Device.bytes_put_same (d := ((Device.zeroed b.size).putAll b.body).put b.metaOffset
      (encodeMetadata oneMib b.virtualSize 512)) (o := regionTable1Offset)
      (b := encodeRegionTable b.batOffset b.batLen b.metaOffset)
      (by simp only [Device.size_put,Device.size_putAll,Device.zeroed,length_encodeRegionTable,regionTable1Offset,
            regionTableSize]
          omega)
    rwa [length_encodeRegionTable] at hb
  have ht : tableAt b.device b.size regionTable1Offset = some b.regions := by
    have := h.size
    have := h.meta_high
    have := h.bat_high
    rw [tableAt,if_neg (by unfold regionTable1Offset regionTableSize; omega),hbytes,
      parse_encodeRegionTable (by omega) h.bat_len (by omega)]
    rfl
  simp [ImgVhdx.regionsAt,ht]

theorem Valid.identified (h : b.Valid entries) : Identified b.device b.header .one b.regions where
  large := by have := h.large; rw [size_device]; omega
  identifier := h.bytes_identifier
  picked := by rw [size_device,h.headerAt_one,h.headerAt_two]; rfl
  logVersion := h.logVersion
  logRegion := by rw [size_device]; exact h.logRegion
  table := by rw [size_device]; exact h.regionsAt
  clear := h.clear

theorem Valid.bytes_metadata (h : b.Valid entries) :
    b.device.bytes b.metaOffset metadataRegionSize = encodeMetadata oneMib b.virtualSize 512 := by
  have hlo := h.meta_low
  have hhi := h.meta_high
  have hmib : oneMib = 1048576 := rfl
  unfold device
  rw [Device.bytes_put_of_disjoint (by rw [show fileIdentifierSignature.length = 8 from rfl]; omega),
    Device.bytes_put_of_disjoint (by rw [length_encodeHeader]; unfold header1Offset headerSize; omega),
    Device.bytes_put_of_disjoint (by rw [length_encodeRegionTable]; unfold regionTable1Offset regionTableSize; omega)]
  have hb := Device.bytes_put_same (d := (Device.zeroed b.size).putAll b.body) (o := b.metaOffset)
    (b := encodeMetadata oneMib b.virtualSize 512) (by simp [Device.zeroed]; omega)
  rwa [length_encodeMetadata] at hb

theorem Valid.on_readMetadata (h : b.Valid entries) :
    (readMetadata b.size b.regions).on b.device = (.ok (writtenDisk oneMib b.virtualSize 512),b.device) := by
  refine ImgVhdx.on_readMetadata (m := ⟨Guids.metadata,b.metaOffset,metadataRegionSize,true⟩) ?_ ?_ h.meta_high
    (by simp) ?_ (diskParameters_written (by decide) h.virtualSize (by decide))
  · rfl
  · have := h.meta_high
    have := h.size
    dsimp only
    omega
  · rw [h.bytes_metadata,parse_encodeMetadata]

/-- What opening a built image finds: the geometry it was built with, and the BAT in its region. -/
theorem Valid.on_openInner (h : b.Valid entries) (hg : isZeroGuid b.header.logGuid = true) (rc : Bool) :
    (openInner true rc).on b.device = (.ok (b.reader,
      ⟨b.size,b.header,.one,decodeBat (b.device.bytes b.batOffset (entries * batEntrySize))⟩),b.device) := by
  have hloc := h.identified.on_locateRegions (b := rc) (on_replayLog_of_zero hg rc) rfl
  simp only [openInner,on]
  rw [Prog.run_bind_of_ok hloc]
  change Prog.run _ ((pure (b.header,HeaderSlot.one) : DevProg (Header × HeaderSlot)) >>= _) b.device = _
  rw [Prog.pure_eq,Prog.ok_bind]
  dsimp only
  rw [size_device,Prog.run_bind_of_ok h.on_readMetadata]
  refine on_finishOpen (r := b.reader) rfl rfl rfl rfl (show 4096 = chunkRatio oneMib 512 by decide) (.inl rfl)
    (show ((0:Nat) &&& 2 != 0) = false by decide) rfl ?_
  refine on_readBat (b := ⟨Guids.bat,b.batOffset,b.batLen,true⟩) rfl ?_
    h.bat_high h.covers h.entries (by simp)
  have := h.bat_high
  have := h.size
  dsimp only
  omega

end Build
end ImgVhdx
