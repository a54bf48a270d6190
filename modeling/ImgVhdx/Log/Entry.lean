import ImgVhdx.Endian
import ImgVhdx.Crc
import ImgVhdx.Error
import ImgVhdx.Lib.Circular
import ImgVhdx.Lib.Words

/-! One log entry: deciding whether a slot of the log region holds one, and decoding it. -/
namespace ImgVhdx
open Lib

def logSectorSize : Nat := 4096
def logEntryHeaderSize : Nat := 64
def logDescriptorSize : Nat := 32
def logEntrySignature : Bytes := [0x6C,0x6F,0x67,0x65]
def zeroDescSignature : Bytes := [0x7A,0x65,0x72,0x6F]
def dataDescSignature : Bytes := [0x64,0x65,0x73,0x63]
def dataSectorSignature : Bytes := [0x64,0x61,0x74,0x61]

inductive EntryReject where
  | empty
  | corrupt
  | foreignChain
  | malformed
  deriving DecidableEq, Repr

abbrev Sector := { bs : Bytes // bs.length = logSectorSize }

structure LogEntryHeader where
  entryLength : Nat
  tail : Nat
  sequenceNumber : Nat
  descriptorCount : Nat
  logGuid : Guid
  flushedFileOffset : Nat
  lastFileOffset : Nat
  deriving DecidableEq

inductive Descriptor where
  | zero (zeroLength fileOffset sequenceNumber : Nat)
  | data (trailingBytes leadingBytes fileOffset sequenceNumber : Nat) (sector : Sector)
  deriving DecidableEq

structure LogEntry where
  header : LogEntryHeader
  descriptors : List Descriptor
  logOffsetInRegion : Nat
  /-- An entry holds its own first sector, so a scan that steps over it advances. -/
  long : logSectorSize ≤ header.entryLength
  deriving DecidableEq

def roundUpSector (n : Nat) : Nat := clearLow (n + logSectorSize - 1) logSectorSize

def sectorAt (entry : Bytes) (base : Nat) : Outcome EntryReject Sector :=
  if h : base + logSectorSize ≤ entry.length then .ok ⟨slice entry base logSectorSize,length_slice h⟩ else .panic

/-- The sector with its stamps replaced by the bytes they displaced. -/
def reconstruct (s : Sector) (leadingBytes trailingBytes : Nat) : Sector :=
  ⟨splice (splice s.1 0 (toLE 8 leadingBytes)) (logSectorSize - 4) (toLE 4 trailingBytes),by
    have hs : s.1.length = 4096 := s.2
    rw [length_splice] <;> rw [length_splice] <;> simp [hs,logSectorSize]⟩

section parse
variable (log : Bytes) (pos : Nat) (expectedLogGuid : Guid)

/-- What a slot costs to check, once nothing in its first sector rules it out. -/
def declaredLength : Outcome EntryReject ({ n : Nat // logSectorSize ≤ n } × Guid) := do
  Outcome.rejectIf (pos + logSectorSize > log.length) .empty
  let head ← index log pos (pos + logSectorSize)
  let signature ← index head 0 4
  Outcome.rejectIf (signature ≠ logEntrySignature) .empty
  let entryLength ← readU32Le head 8
  if bad : entryLength < logSectorSize ∨ entryLength % logSectorSize ≠ 0 ∨ entryLength > log.length then
    .err .corrupt
  else
    let logGuid ← readGuid head 32
    Outcome.rejectIf (logGuid ≠ expectedLogGuid) .foreignChain
    return (⟨entryLength,by omega⟩,logGuid)

def readDescriptor (entry : Bytes) (entryLength sequenceNumber i dataSectorBase : Nat) :
    Outcome EntryReject (Descriptor × Nat) := do
  let off := logEntryHeaderSize + i * logDescriptorSize
  let sig ← index entry off (off + 4)
  let descSeq ← readU64Le entry (off + 24)
  Outcome.rejectIf (descSeq ≠ sequenceNumber) .malformed
  if sig = zeroDescSignature then
    let zeroLength ← readU64Le entry (off + 8)
    let fileOffset ← readU64Le entry (off + 16)
    return (.zero zeroLength fileOffset descSeq,dataSectorBase)
  else if sig = dataDescSignature then
    let trailingBytes ← readU32Le entry (off + 4)
    let leadingBytes ← readU64Le entry (off + 8)
    let fileOffset ← readU64Le entry (off + 16)
    Outcome.rejectIf (dataSectorBase + logSectorSize > entryLength) .malformed
    let sector ← sectorAt entry dataSectorBase
    let signature ← index sector.1 0 4
    Outcome.rejectIf (signature ≠ dataSectorSignature) .malformed
    let seqHi ← readU32Le sector.1 4
    let seqLo ← readU32Le sector.1 (logSectorSize - 4)
    Outcome.rejectIf (seqHi <<< 32 ||| seqLo ≠ sequenceNumber) .malformed
    return (.data trailingBytes leadingBytes fileOffset descSeq (reconstruct sector leadingBytes trailingBytes),
      dataSectorBase + logSectorSize)
  else .err .malformed

def readDescriptors (entry : Bytes) (entryLength sequenceNumber : Nat) :
    Nat → Nat → Nat → Outcome EntryReject (List Descriptor)
  | _, 0, _ => .ok []
  | i, n+1, dataSectorBase => do
    let (d,dataSectorBase) ← readDescriptor entry entryLength sequenceNumber i dataSectorBase
    let rest ← readDescriptors entry entryLength sequenceNumber (i+1) n dataSectorBase
    return d :: rest

variable [Crc32c]

def entryCrc (bytes : Bytes) : Nat :=
  crc32cAppend (crc32cAppend (crc32c (slice bytes 0 4)) (zeros 4)) (bytes.drop 8)

def readFields (entry : Bytes) (entryLength : { n : Nat // logSectorSize ≤ n }) (logGuid : Guid) :
    Outcome EntryReject LogEntry := do
  let tail ← readU32Le entry 12
  let sequenceNumber ← readU64Le entry 16
  let descriptorCount ← readU32Le entry 24
  let flushedFileOffset ← readU64Le entry 48
  let lastFileOffset ← readU64Le entry 56
  let descriptorsSize ← Outcome.okOr .malformed (checkedMul descriptorCount logDescriptorSize)
  Outcome.rejectIf (logEntryHeaderSize + descriptorsSize > entryLength) .malformed
  let dataSectorBase := roundUpSector (logEntryHeaderSize + descriptorsSize)
  let descriptors ← readDescriptors entry entryLength sequenceNumber 0 descriptorCount dataSectorBase
  return {
    header := {
      entryLength := entryLength
      tail, sequenceNumber, descriptorCount, logGuid, flushedFileOffset, lastFileOffset }
    descriptors
    logOffsetInRegion := pos
    long := entryLength.2 }

/-- Everything after the budget was charged: the checksum over both halves, then the fields. -/
def readEntry (entryLength : { n : Nat // logSectorSize ≤ n }) (logGuid : Guid) : Outcome EntryReject LogEntry := do
  let tailLen := pos + entryLength - log.length
  let first ← index log pos (pos + entryLength - tailLen)
  let second ← index log 0 tailLen
  let storedCrc ← readU32Le first 4
  Outcome.rejectIf (storedCrc ≠ crc32cAppend (entryCrc first) second) .corrupt
  let entry := if tailLen = 0 then first else first ++ second
  readFields pos entry entryLength logGuid

/-- How many bytes discovery may still checksum, and whether it ever wanted more. -/
structure ChecksumBudget where
  left : Nat
  exhausted : Bool
  deriving DecidableEq

def parseLogEntry (budget : ChecksumBudget) : Outcome EntryReject LogEntry × ChecksumBudget :=
  match declaredLength log pos expectedLogGuid with
  | .err why => (.err why,budget)
  | .panic => (.panic,budget)
  | .ok (entryLength,logGuid) =>
    if budget.left < entryLength then (.err .corrupt,{ budget with exhausted := true })
    else (readEntry log pos entryLength logGuid,{ budget with left := budget.left - entryLength })

end parse

variable {log : Bytes} {pos : Nat} {guid : Guid}

/-- Nothing was written in a slot without the signature. -/
theorem declaredLength_of_unsigned (h : slice log pos 4 ≠ logEntrySignature) :
    declaredLength log pos guid = .err .empty := by
  unfold declaredLength
  by_cases hp : pos + logSectorSize > log.length
  · rw [Outcome.rejectIf_of _ hp]
    rfl
  · rw [Outcome.rejectIf_of_not _ hp,index_of_le (by omega) (by omega),Outcome.ok_bind,Outcome.ok_bind,
      Nat.add_sub_cancel_left]
    have hh : (slice log pos logSectorSize).length = logSectorSize := length_slice (by omega)
    have hs : slice (slice log pos logSectorSize) 0 (4 - 0) = slice log pos 4 := slice_slice (by decide)
    rw [index_of_le (by omega) (by rw [hh]; decide),Outcome.ok_bind,hs,Outcome.rejectIf_of _ h]
    rfl

private theorem declaredLength_of_past (h : log.length < pos + logSectorSize) :
    declaredLength log pos guid = .err .empty := by
  unfold declaredLength
  rw [Outcome.rejectIf_of _ h]
  rfl

/-- What the first sector of a slot says, as slices of the region. -/
theorem declaredLength_of_le (hp : pos + logSectorSize ≤ log.length) (hs : slice log pos 4 = logEntrySignature) :
    declaredLength log pos guid =
      if bad : ofLE (slice log (pos+8) 4) < logSectorSize ∨ ofLE (slice log (pos+8) 4) % logSectorSize ≠ 0 ∨
        ofLE (slice log (pos+8) 4) > log.length then .err .corrupt
      else if slice log (pos+32) 16 = guid.1 then .ok (⟨ofLE (slice log (pos+8) 4),by omega⟩,guid)
      else .err .foreignChain := by
  have hh : (slice log pos logSectorSize).length = 4096 := length_slice (by omega)
  have h0 : slice (slice log pos logSectorSize) 0 (4 - 0) = slice log pos 4 := slice_slice (by decide)
  have he : slice (slice log pos logSectorSize) 8 4 = slice log (pos+8) 4 := slice_slice (by decide)
  have hg : slice (slice log pos logSectorSize) 32 16 = slice log (pos+32) 16 := slice_slice (by decide)
  unfold declaredLength
  rw [Outcome.rejectIf_of_not _ (by omega),index_of_le (by omega) (by omega),Outcome.ok_bind,Outcome.ok_bind,
    Nat.add_sub_cancel_left,index_of_le (by omega) (by omega),Outcome.ok_bind,h0,
    Outcome.rejectIf_of_not _ (by simpa using hs),Outcome.ok_bind,readU32Le_of_le (by omega),Outcome.ok_bind,
    readGuid_of_le (by omega)]
  simp only [he,hg,Outcome.ok_bind,Outcome.rejectIf,Subtype.ext_iff,ne_eq,ite_not,Outcome.pure_eq]
  split_ifs with hbad hguid
  · rfl
  · simp only [Outcome.ok_bind,Outcome.ok.injEq,Prod.mk.injEq,true_and]
    exact Subtype.ext hguid
  · rfl

theorem declaredLength_eq_ok {n : { n : Nat // logSectorSize ≤ n }} {g : Guid}
    (h : declaredLength log pos guid = .ok (n,g)) :
    pos + logSectorSize ≤ log.length ∧ n.1 % logSectorSize = 0 ∧ n.1 ≤ log.length ∧ g = guid := by
  by_cases hp : pos + logSectorSize ≤ log.length
  · by_cases hs : slice log pos 4 = logEntrySignature
    · rw [declaredLength_of_le hp hs] at h
      split_ifs at h with hbad hguid
      obtain ⟨rfl,rfl⟩ := Prod.mk.inj (Outcome.ok.inj h)
      exact ⟨hp,by dsimp only; omega,by dsimp only; omega,rfl⟩
    · rw [declaredLength_of_unsigned hs] at h
      cases h
  · rw [declaredLength_of_past (by omega)] at h
    cases h

theorem declaredLength_ne_panic : declaredLength log pos guid ≠ .panic := by
  by_cases hp : pos + logSectorSize ≤ log.length
  · by_cases hs : slice log pos 4 = logEntrySignature
    · rw [declaredLength_of_le hp hs]
      split_ifs <;> simp
    · rw [declaredLength_of_unsigned hs]
      simp
  · rw [declaredLength_of_past (by omega)]
    simp

def checksumOf [Crc32c] (entry : Bytes) : Nat := crc32c (splice entry 4 (zeros 4))

private theorem readDescriptor_ne_panic {entry : Bytes} {n q i b : Nat} (hn : entry.length = n)
    (h : logEntryHeaderSize + (i+1) * logDescriptorSize ≤ n) : readDescriptor entry n q i b ≠ .panic := by
  have hb : 64 + (i+1) * 32 ≤ entry.length := by rw [hn]; exact h
  have ho : logEntryHeaderSize + i * logDescriptorSize = 64 + i * 32 := rfl
  rw [readDescriptor,ho,index_of_le (by omega) (by omega),readU64Le_of_le (by omega)]
  simp only [Outcome.ok_bind]
  refine Outcome.bind_ne_panic Outcome.rejectIf_ne_panic fun _ _ => ?_
  split_ifs
  · rw [readU64Le_of_le (by omega),readU64Le_of_le (by omega)]
    simp
  · rw [readU32Le_of_le (by omega),readU64Le_of_le (by omega),readU64Le_of_le (by omega)]
    simp only [Outcome.ok_bind]
    refine Outcome.bind_ne_panic Outcome.rejectIf_ne_panic fun _ hroom => ?_
    have hr : b + logSectorSize ≤ entry.length := by
      have := Outcome.rejectIf_eq_ok.mp hroom
      omega
    rw [sectorAt,dif_pos hr,Outcome.ok_bind]
    generalize (⟨slice entry b logSectorSize,length_slice hr⟩ : Sector) = sector
    have hs : sector.1.length = 4096 := sector.2
    rw [index_of_le (by omega) (by omega),Outcome.ok_bind]
    refine Outcome.bind_ne_panic Outcome.rejectIf_ne_panic fun _ _ => ?_
    rw [readU32Le_of_le (by omega),readU32Le_of_le (show logSectorSize - 4 + 4 ≤ _ by rw [hs]; decide)]
    simp only [Outcome.ok_bind]
    exact Outcome.bind_ne_panic Outcome.rejectIf_ne_panic fun _ _ => by simp
  · simp

private theorem readDescriptors_ne_panic {entry : Bytes} {n q : Nat} (hn : entry.length = n) (k i base : Nat)
    (h : logEntryHeaderSize + (i+k) * logDescriptorSize ≤ n) : readDescriptors entry n q i k base ≠ .panic := by
  induction k generalizing i base with
  | zero => simp [readDescriptors]
  | succ k ih =>
    have h' : 64 + (i+(k+1)) * 32 ≤ n := h
    have hfirst := readDescriptor_ne_panic (q := q) (i := i) (b := base) hn
      (show 64 + (i+1) * 32 ≤ n by omega)
    rw [readDescriptors]
    cases he : readDescriptor entry n q i base with
    | panic => exact absurd he hfirst
    | err e => simp
    | ok r =>
      have hrest := ih (i+1) r.2 (by rw [show i + 1 + k = i + (k+1) by omega]; exact h)
      rw [Outcome.ok_bind]
      dsimp only
      cases hr : readDescriptors entry n q (i+1) k r.2 with
      | panic => exact absurd hr hrest
      | err e => simp
      | ok rest => simp

section entry
variable [Crc32c] {n : { n : Nat // logSectorSize ≤ n }}

omit [Crc32c] in
private theorem splice_checksum_append {a b : Bytes} (h : 8 ≤ a.length) :
    splice (a ++ b) 4 (zeros 4) = splice a 4 (zeros 4) ++ b := by
  simp only [splice,length_zeros]
  rw [List.take_append_of_le_length (by omega),List.drop_append_of_le_length (by omega),List.append_assoc,
    List.append_assoc,List.append_assoc]

theorem entryCrc_eq (bytes : Bytes) : entryCrc bytes = checksumOf bytes := by
  rw [entryCrc,crc32cAppend_crc32c,crc32cAppend_crc32c,checksumOf,splice,length_zeros,slice,List.drop_zero]

/-- The checksum of a slot, over its bytes read round the end of the region. -/
theorem readEntry_of_le (hp : pos + logSectorSize ≤ log.length) (hn : n.1 ≤ log.length) :
    readEntry log pos n guid =
      if ofLE (slice (circSlice log pos n) 4 4) = checksumOf (circSlice log pos n) then
        readFields pos (circSlice log pos n) n guid
      else .err .corrupt := by
  have hlong : 4096 ≤ n.1 := n.2
  have hsector : pos + 4096 ≤ log.length := hp
  have hfirst : slice log pos (pos + n.1 - (pos + n.1 - log.length) - pos) = slice log pos n := by
    rcases Nat.le_total (pos + n.1) log.length with h | h
    · congr 1; omega
    · rw [slice,slice,List.take_of_length_le (by rw [List.length_drop]; omega),
        List.take_of_length_le (by rw [List.length_drop]; omega)]
  have hl : 4096 ≤ (slice log pos n).length := by
    simp only [slice,List.length_take,List.length_drop]; omega
  have hentry : (if pos + n.1 - log.length = 0 then slice log pos n
      else slice log pos n ++ slice log 0 (pos + n.1 - log.length)) = circSlice log pos n := by
    rw [circSlice]
    split_ifs with h
    · rw [h,slice_zero_length,List.append_nil]
    · rfl
  have hcrc : crc32cAppend (checksumOf (slice log pos n)) (slice log 0 (pos + n.1 - log.length)) =
      checksumOf (circSlice log pos n) := by
    rw [checksumOf,crc32cAppend_crc32c,← splice_checksum_append (by omega)]
    rfl
  have hstored : slice (circSlice log pos n) 4 4 = slice (slice log pos n) 4 4 := slice_append_left (by omega)
  rw [readEntry]
  dsimp only
  rw [index_of_le (by omega) (by omega),index_of_le (by omega) (by omega)]
  simp only [hfirst,Nat.sub_zero,Outcome.ok_bind]
  rw [readU32Le_of_le (by omega),entryCrc_eq]
  simp only [Outcome.ok_bind,hentry,hcrc,hstored,Outcome.rejectIf]
  split_ifs <;> first | rfl | contradiction

omit [Crc32c] in
/-- What an entry's first 64 bytes say, as slices of it. -/
theorem readFields_of_length {entry : Bytes} (h : entry.length = n.1) : readFields pos entry n guid =
    if logEntryHeaderSize + ofLE (slice entry 24 4) * logDescriptorSize > n then .err .malformed
    else (readDescriptors entry n (ofLE (slice entry 16 8)) 0 (ofLE (slice entry 24 4))
      (roundUpSector (logEntryHeaderSize + ofLE (slice entry 24 4) * logDescriptorSize))).bind fun descriptors => .ok {
        header := {
          entryLength := n
          tail := ofLE (slice entry 12 4)
          sequenceNumber := ofLE (slice entry 16 8)
          descriptorCount := ofLE (slice entry 24 4)
          logGuid := guid
          flushedFileOffset := ofLE (slice entry 48 8)
          lastFileOffset := ofLE (slice entry 56 8) }
        descriptors
        logOffsetInRegion := pos
        long := n.2 } := by
  have hlong : 4096 ≤ n.1 := n.2
  have hcount := ofLE_slice_lt entry 24 4
  have hd : logDescriptorSize = 32 := rfl
  rw [readFields,readU32Le_of_le (by omega),readU64Le_of_le (by omega),readU32Le_of_le (by omega),
    readU64Le_of_le (by omega),readU64Le_of_le (by omega)]
  simp only [Outcome.ok_bind]
  rw [checkedMul_of_lt (by rw [hd]; omega)]
  simp only [Outcome.okOr_some,Outcome.ok_bind,Outcome.rejectIf]
  split_ifs
  · rfl
  · rfl

theorem readEntry_ne_panic (hp : pos + logSectorSize ≤ log.length) (hn : n.1 ≤ log.length) :
    readEntry log pos n guid ≠ .panic := by
  have hsector : pos + 4096 ≤ log.length := hp
  rw [readEntry_of_le hp hn]
  split_ifs
  · have hl := length_circSlice (p := pos) (by omega) hn
    rw [readFields_of_length hl]
    split_ifs with hcount
    · simp
    · have hds := readDescriptors_ne_panic (q := ofLE (slice (circSlice log pos n) 16 8)) hl
        (ofLE (slice (circSlice log pos n) 24 4)) 0
        (roundUpSector (logEntryHeaderSize + ofLE (slice (circSlice log pos n) 24 4) * logDescriptorSize))
        (by rw [Nat.zero_add]; omega)
      revert hds
      generalize readDescriptors _ _ _ _ _ _ = o
      cases o <;> simp [Outcome.bind]
  · simp

structure LogEntry.Sound (log : Bytes) (guid : Guid) (e : LogEntry) : Prop where
  within : e.logOffsetInRegion + logSectorSize ≤ log.length
  whole : e.header.entryLength % logSectorSize = 0
  fits : e.header.entryLength ≤ log.length
  ours : e.header.logGuid = guid
  checked : ofLE (slice (circSlice log e.logOffsetInRegion e.header.entryLength) 4 4) =
    checksumOf (circSlice log e.logOffsetInRegion e.header.entryLength)
  word : e.header.sequenceNumber < 2^64

/-- An accepted entry stands where it was looked for and is as long as its slot declared. -/
theorem readEntry_eq_ok (hp : pos + logSectorSize ≤ log.length) (hn : n.1 ≤ log.length)
    (hw : n.1 % logSectorSize = 0) {e : LogEntry} (h : readEntry log pos n guid = .ok e) :
    e.logOffsetInRegion = pos ∧ e.header.entryLength = n ∧ e.Sound log guid := by
  have hsector : pos + 4096 ≤ log.length := hp
  rw [readEntry_of_le hp hn] at h
  split_ifs at h with hc
  rw [readFields_of_length (length_circSlice (by omega) hn)] at h
  split_ifs at h with hcount
  obtain ⟨ds,-,he⟩ := Outcome.bind_eq_ok.mp h
  cases he
  exact ⟨rfl,rfl,hp,hw,hn,rfl,hc,ofLE_slice_lt _ 16 8⟩

end entry
end ImgVhdx
