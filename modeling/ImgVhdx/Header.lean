import ImgVhdx.Endian
import ImgVhdx.Crc
import ImgVhdx.Error

/-! The two header slots: decoding one, and encoding it for a rotation. -/
namespace ImgVhdx
open Lib

def headerSize : Nat := 4096
def header1Offset : Nat := 64 * 1024
def header2Offset : Nat := 128 * 1024
def headerSignature : Bytes := [0x68,0x65,0x61,0x64]
def headerVersion : UInt16 := 1
def logVersionV0 : UInt16 := 0

@[ext] structure Header where
  sequenceNumber : UInt64
  fileWriteGuid : Guid
  dataWriteGuid : Guid
  logGuid : Guid
  logVersion : UInt16
  version : UInt16
  logLength : UInt32
  logOffset : UInt64
  deriving DecidableEq

variable [Crc32c]

def headerCrc (bytes : Bytes) : Nat := crc32c (splice (slice bytes 0 headerSize) 4 (zeros 4))

def computeCrc (bytes : Bytes) : Outcome Error Nat := do
  Outcome.rejectIf (bytes.length < headerSize) (.corrupt "header shorter than 4 KiB")
  return headerCrc bytes

def Header.parse (bytes : Bytes) : Outcome Error Header := do
  Outcome.rejectIf (bytes.length < headerSize) (.corrupt "header shorter than 4 KiB")
  let signature ← index bytes 0 4
  Outcome.rejectIf (signature ≠ headerSignature) (.corrupt "header signature mismatch")
  let storedCrc ← readU32Le bytes 4
  let computed ← computeCrc bytes
  Outcome.rejectIf (storedCrc ≠ computed) (.badChecksum storedCrc computed "header")
  let sequenceNumber ← readU64Le bytes 8
  let fileWriteGuid ← readGuid bytes 16
  let dataWriteGuid ← readGuid bytes 32
  let logGuid ← readGuid bytes 48
  let logVersion ← readU16Le bytes 64
  let version ← readU16Le bytes 66
  Outcome.rejectIf (UInt16.ofNat version ≠ headerVersion) (.corrupt "unsupported VHDX header version")
  let logLength ← readU32Le bytes 68
  let logOffset ← readU64Le bytes 72
  return {
    sequenceNumber := UInt64.ofNat sequenceNumber
    fileWriteGuid := fileWriteGuid
    dataWriteGuid := dataWriteGuid
    logGuid := logGuid
    logVersion := UInt16.ofNat logVersion
    version := UInt16.ofNat version
    logLength := UInt32.ofNat logLength
    logOffset := UInt64.ofNat logOffset }

def encodeHeaderFields (h : Header) : Bytes :=
  let buf := zeros headerSize
  let buf := splice buf 0 headerSignature
  let buf := splice buf 8 (toLE 8 h.sequenceNumber.toNat)
  let buf := splice buf 16 h.fileWriteGuid
  let buf := splice buf 32 h.dataWriteGuid
  let buf := splice buf 48 h.logGuid
  let buf := splice buf 64 (toLE 2 h.logVersion.toNat)
  let buf := splice buf 66 (toLE 2 h.version.toNat)
  let buf := splice buf 68 (toLE 4 h.logLength.toNat)
  splice buf 72 (toLE 8 h.logOffset.toNat)

def encodeHeader (h : Header) : Bytes :=
  let buf := encodeHeaderFields h
  splice buf 4 (toLE 4 (headerCrc buf))

omit [Crc32c] in
private theorem encodeHeaderFields_eq (h : Header) : encodeHeaderFields h =
    [headerSignature,zeros 4,toLE 8 h.sequenceNumber.toNat,h.fileWriteGuid,h.dataWriteGuid,h.logGuid,
      toLE 2 h.logVersion.toNat,toLE 2 h.version.toNat,toLE 4 h.logLength.toNat,
      toLE 8 h.logOffset.toNat,zeros 4016].flatten := by
  have hs : headerSignature.length = 4 := rfl
  unfold encodeHeaderFields
  rw [show zeros headerSize = [] ++ zeros 4096 from rfl]
  dsimp only
  repeat rw [splice_zeros (by simp [hs]) (by simp [hs])]
  simp [hs]

omit [Crc32c] in
private theorem length_encodeHeaderFields (h : Header) : (encodeHeaderFields h).length = headerSize := by
  rw [encodeHeaderFields_eq]
  simp [headerSignature,headerSize]

omit [Crc32c] in
private theorem splice_checksum {rest src : Bytes} (h : src.length = 4) {old : Bytes} (ho : old.length = 4) :
    splice (headerSignature ++ (old ++ rest)) 4 src = headerSignature ++ (src ++ rest) := by
  rw [← List.append_assoc,splice_middle (by rfl) (by omega),List.append_assoc]

private theorem encodeHeader_eq (h : Header) : encodeHeader h =
    [headerSignature,toLE 4 (headerCrc (encodeHeaderFields h)),toLE 8 h.sequenceNumber.toNat,
      h.fileWriteGuid,h.dataWriteGuid,h.logGuid,toLE 2 h.logVersion.toNat,toLE 2 h.version.toNat,
      toLE 4 h.logLength.toNat,toLE 8 h.logOffset.toNat,zeros 4016].flatten := by
  rw [encodeHeader]
  generalize headerCrc (encodeHeaderFields h) = crc
  rw [encodeHeaderFields_eq,List.flatten_cons,List.flatten_cons,splice_checksum (by simp) (by simp)]
  rfl

@[simp] theorem length_encodeHeader (h : Header) : (encodeHeader h).length = headerSize := by
  rw [encodeHeader_eq]
  simp [headerSignature,headerSize]

/-- The stored checksum is the one the parser computes: it zeroes the field first. -/
private theorem headerCrc_encodeHeader (h : Header) :
    headerCrc (encodeHeader h) = headerCrc (encodeHeaderFields h) := by
  unfold headerCrc
  rw [slice_eq_self (length_encodeHeader h),slice_eq_self (length_encodeHeaderFields h)]
  refine congrArg crc32c ?_
  rw [encodeHeader_eq]
  generalize headerCrc (encodeHeaderFields h) = crc
  rw [encodeHeaderFields_eq]
  simp only [List.flatten_cons]
  rw [splice_checksum (by simp) (by simp),splice_checksum (by simp) (by simp)]

/-- What the parser makes of 4 KiB or more, once every read is known to be in range. -/
theorem Header.parse_of_le {bytes : Bytes} (h : headerSize ≤ bytes.length) : Header.parse bytes =
    if slice bytes 0 4 ≠ headerSignature then .err (.corrupt "header signature mismatch")
    else if ofLE (slice bytes 4 4) ≠ headerCrc bytes then
      .err (.badChecksum (ofLE (slice bytes 4 4)) (headerCrc bytes) "header")
    else if UInt16.ofNat (ofLE (slice bytes 66 2)) ≠ headerVersion then
      .err (.corrupt "unsupported VHDX header version")
    else .ok {
      sequenceNumber := UInt64.ofNat (ofLE (slice bytes 8 8))
      fileWriteGuid := ⟨slice bytes 16 16,length_slice (by unfold headerSize at h; omega)⟩
      dataWriteGuid := ⟨slice bytes 32 16,length_slice (by unfold headerSize at h; omega)⟩
      logGuid := ⟨slice bytes 48 16,length_slice (by unfold headerSize at h; omega)⟩
      logVersion := UInt16.ofNat (ofLE (slice bytes 64 2))
      version := UInt16.ofNat (ofLE (slice bytes 66 2))
      logLength := UInt32.ofNat (ofLE (slice bytes 68 4))
      logOffset := UInt64.ofNat (ofLE (slice bytes 72 8)) } := by
  have hb : 4096 ≤ bytes.length := h
  unfold Header.parse computeCrc
  rw [Outcome.rejectIf_of_not _ (by omega),index_of_le (by omega) (by omega),readU32Le_of_le (by omega),
    readU64Le_of_le (by omega),readGuid_of_le (by omega),readGuid_of_le (by omega),readGuid_of_le (by omega),
    readU16Le_of_le (by omega),readU16Le_of_le (by omega),readU32Le_of_le (by omega),readU64Le_of_le (by omega)]
  simp only [Outcome.ok_bind,Outcome.pure_eq,Outcome.rejectIf]
  split_ifs <;> simp_all

private theorem field {h : Header} {i o n : Nat} {p : Bytes}
    (hp : [headerSignature,toLE 4 (headerCrc (encodeHeaderFields h)),toLE 8 h.sequenceNumber.toNat,
      h.fileWriteGuid,h.dataWriteGuid,h.logGuid,toLE 2 h.logVersion.toNat,toLE 2 h.version.toNat,
      toLE 4 h.logLength.toNat,toLE 8 h.logOffset.toNat,zeros 4016][i]? = some p)
    (ho : o = (([4,4,8,16,16,16,2,2,4,8,4016] : List Nat).take i).sum) (hl : n = p.length) :
    slice (encodeHeader h) o n = p := by
  rw [encodeHeader_eq]
  refine slice_flatten hp (ho.trans ?_) hl
  rw [List.length_flatten,List.map_take]
  simp [headerSignature]

/-- A header of the version this crate writes survives being encoded. -/
theorem Header.parse_encodeHeader (h : Header) (hv : h.version = headerVersion) :
    Header.parse (encodeHeader h) = .ok h := by
  have hsig := field (h := h) (i := 0) (o := 0) (n := 4) rfl rfl rfl
  have hcrc := field (h := h) (i := 1) (o := 4) (n := 4) rfl rfl rfl
  have hseq := field (h := h) (i := 2) (o := 8) (n := 8) rfl rfl rfl
  have hfile := field (h := h) (i := 3) (o := 16) (n := 16) rfl rfl (by simp)
  have hdata := field (h := h) (i := 4) (o := 32) (n := 16) rfl rfl (by simp)
  have hlog := field (h := h) (i := 5) (o := 48) (n := 16) rfl rfl (by simp)
  have hlogv := field (h := h) (i := 6) (o := 64) (n := 2) rfl rfl rfl
  have hver := field (h := h) (i := 7) (o := 66) (n := 2) rfl rfl rfl
  have hlen := field (h := h) (i := 8) (o := 68) (n := 4) rfl rfl rfl
  have hoff := field (h := h) (i := 9) (o := 72) (n := 8) rfl rfl rfl
  have hlt : headerCrc (encodeHeaderFields h) < 256^4 := crc32c_lt _
  rw [Header.parse_of_le (by simp),headerCrc_encodeHeader]
  simp [hsig,hcrc,hseq,hfile,hdata,hlog,hlogv,hver,hlen,hoff,ofLE_toLE hlt,hv]
  rw [← hv]

omit [Crc32c] in
private theorem parts_of_length {bytes : Bytes} (h : bytes.length = headerSize) : bytes =
    [slice bytes 0 4,slice bytes 4 4,slice bytes 8 8,slice bytes 16 16,slice bytes 32 16,slice bytes 48 16,
      slice bytes 64 2,
      slice bytes 66 2,slice bytes 68 4,slice bytes 72 8,slice bytes 80 4016].flatten := by
  conv_lhs => rw [← slice_eq_self h,show headerSize = 4+(4+(8+(16+(16+(16+(2+(2+(4+(8+4016))))))))) from rfl]
  rw [slice_add,slice_add,slice_add,slice_add,slice_add,slice_add,slice_add,slice_add,slice_add,slice_add]
  simp only [List.flatten_cons,List.flatten_nil,List.append_nil]

/-- Any other version is refused. -/
private theorem Header.parse_encodeHeader_of_ne (h : Header) (hv : h.version ≠ headerVersion) :
    Header.parse (encodeHeader h) = .err (.corrupt "unsupported VHDX header version") := by
  have hsig := field (h := h) (i := 0) (o := 0) (n := 4) rfl rfl rfl
  have hcrc := field (h := h) (i := 1) (o := 4) (n := 4) rfl rfl rfl
  have hver := field (h := h) (i := 7) (o := 66) (n := 2) rfl rfl rfl
  have hlt : headerCrc (encodeHeaderFields h) < 256^4 := crc32c_lt _
  rw [Header.parse_of_le (by simp),headerCrc_encodeHeader,hsig,hcrc,hver,if_neg (by simp),ofLE_toLE hlt,
    if_neg (by simp),ofLE_toLE_u16,
    UInt16.ofNat_toNat,if_pos hv]

/-- The fields of a parsed buffer are laid out again as they stood in it. -/
private theorem encodeHeaderFields_of_parse {bytes : Bytes} {h : Header} (hlen : bytes.length = headerSize)
    (hp : Header.parse bytes = .ok h) (hzero : slice bytes 80 4016 = zeros 4016) :
    encodeHeaderFields h = splice bytes 4 (zeros 4) := by
  have hle : ∀ {o n : Nat}, o + n ≤ 4096 → toLE n (ofLE (slice bytes o n)) = slice bytes o n := fun {o n} hin => by
    have := toLE_ofLE (slice bytes o n)
    rwa [length_slice (by rw [hlen]; exact hin)] at this
  have hlt : ∀ (o n : Nat), ofLE (slice bytes o n) < 256^n := fun o n => ofLE_slice_lt bytes o n
  rw [Header.parse_of_le hlen.ge] at hp
  split_ifs at hp with hsig hcrc hver
  rw [← Outcome.ok.inj hp,encodeHeaderFields_eq]
  simp only [UInt64.toNat_ofNat_of_lt' (hlt _ 8),UInt32.toNat_ofNat_of_lt' (hlt _ 4),UInt16.toNat_ofNat_of_lt' (hlt _ 2)]
  rw [hle (by decide),hle (by decide),hle (by decide),hle (by decide),hle (by decide),← hzero]
  conv_rhs => rw [parts_of_length hlen,not_not.mp hsig,List.flatten_cons,List.flatten_cons]
  rw [splice_checksum (length_zeros 4) (length_slice (by rw [hlen]; decide))]
  rfl

/-- The codec is a bijection on what it represents: a header of the version this crate writes is parsed back whole,
any other is refused, and a buffer that parses, with nothing past its fields, is the one its header encodes to. -/
theorem Header.codec_exact :
    (∀ h : Header, (h.version = headerVersion → Header.parse (encodeHeader h) = .ok h) ∧
      (h.version ≠ headerVersion → ∃ e, Header.parse (encodeHeader h) = .err e)) ∧
    ∀ (bytes : Bytes) (h : Header), bytes.length = headerSize → Header.parse bytes = .ok h →
      (∀ i, 80 ≤ i → i < headerSize → bytes[i]? = some 0) → encodeHeader h = bytes := by
  refine ⟨fun h => ⟨h.parse_encodeHeader,fun hv => ⟨_,h.parse_encodeHeader_of_ne hv⟩⟩,fun bytes h hlen hp htail => ?_⟩
  have hzero : slice bytes 80 4016 = zeros 4016 := by
    apply List.ext_getElem?
    intro i
    rw [getElem?_slice]
    split_ifs with hi
    · rw [htail _ (by omega) (by rw [headerSize]; omega),getElem?_zeros hi]
    · exact (List.getElem?_eq_none (by simpa using hi)).symm
  have hfields := encodeHeaderFields_of_parse hlen hp hzero
  have hfour : 4 + 4 ≤ bytes.length := by rw [hlen]; decide
  have hin : 4 + (zeros 4).length ≤ bytes.length := by rwa [length_zeros]
  have hstored : toLE 4 (headerCrc bytes) = slice bytes 4 4 := by
    rw [Header.parse_of_le hlen.ge] at hp
    split_ifs at hp with hsig hcrc hver
    have hback := toLE_ofLE (slice bytes 4 4)
    rw [length_slice hfour] at hback
    rw [← not_not.mp hcrc,hback]
  -- the checksum is taken with its own field zeroed, which is how the fields are first laid out
  have hcrc : headerCrc (encodeHeaderFields h) = headerCrc bytes := by
    unfold headerCrc
    rw [slice_eq_self (length_encodeHeaderFields h),slice_eq_self hlen,hfields,splice_splice_same hin rfl]
  rw [encodeHeader,hcrc,hstored,hfields]
  rw [splice_splice_same hin ((length_slice hfour).trans (length_zeros 4).symm),splice_slice hfour]

private theorem encodeHeader_tail {h : Header} {i : Nat} (hlo : 80 ≤ i) (hhi : i < headerSize) :
    (encodeHeader h)[i]? = some 0 := by
  have htail := field (h := h) (i := 10) (o := 80) (n := 4016) rfl rfl (by simp)
  have hi : i - 80 < 4016 := Nat.sub_lt_left_of_lt_add hlo hhi
  have hget := (getElem?_slice (encodeHeader h) 80 4016 (i - 80)).symm
  rw [htail,if_pos hi,getElem?_zeros hi,Nat.add_sub_cancel' hlo] at hget
  exact hget

omit [Crc32c] in
/-- A header of version 1, the same of version 2, and the buffer of the first whatever is read from it. -/
theorem Header.codec_exact_versions :
    letI := castagnoli
    let h : Header :=
      ⟨7,⟨1 :: zeros 15,by simp⟩,⟨2 :: zeros 15,by simp⟩,⟨3 :: zeros 15,by simp⟩,logVersionV0,headerVersion,1048576,1048576⟩
    Header.parse (encodeHeader h) = .ok h ∧ (∃ e, Header.parse (encodeHeader { h with version := 2 }) = .err e) ∧
    ∀ h', Header.parse (encodeHeader h) = .ok h' → encodeHeader h' = encodeHeader h := by
  let := castagnoli
  intro h
  obtain ⟨hencoded,hparsed⟩ := Header.codec_exact
  refine ⟨(hencoded h).1 rfl,(hencoded { h with version := 2 }).2 (show (2 : UInt16) ≠ 1 by decide),fun h' hp => ?_⟩
  exact hparsed _ h' (length_encodeHeader h) hp fun i => encodeHeader_tail

end ImgVhdx
