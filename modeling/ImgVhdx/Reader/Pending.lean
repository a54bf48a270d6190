import ImgVhdx.Log.Front
import ImgVhdx.Log.Batches
import ImgVhdx.Reader.Current
import ImgVhdx.Reader.Guids

/-! What a reader that opened the file right after a journalled write would replay: the entry that
write made, unless the region already held entries under its GUID. -/
namespace ImgVhdx
open Lib DevProg

section
variable [Crc32c]

/-- The chain under the header that would be picked is one entry, which writes the sector at the offset and no other. -/
def World.PendingIs (w : World) (off : Nat) (s : Sector) : Prop :=
  ∃ header slot e, (pickHeader w.dev.size).on w.dev = (.ok (header,slot),w.dev) ∧
    collectReplayChain (w.dev.bytes header.logOffset.toNat header.logLength.toNat) header.logGuid = .ok [e] ∧
    e.descriptors.map Descriptor.write = [(off,s.1)]

def World.logged (w : World) (off : Nat) (s : Sector) : Bytes :=
  splice (w.dev.bytes w.header.logOffset.toNat w.header.logLength.toNat) 0 (journalEntry w.header w.devSize off s)

def World.frontEntry (w : World) (off : Nat) (s : Sector) : LogEntry :=
  encodedEntry 0 (rotatedHeader w.header).sequenceNumber 0 (rotatedHeader w.header).logGuid (UInt64.ofNat w.devSize)
    (UInt64.ofNat w.devSize) [⟨UInt64.ofNat off,s⟩]

/-- The entries past it that carry its GUID leave it to be the chain, or one of them doubles it. -/
def World.Unobstructed (w : World) (off : Nat) (s : Sector) : Prop :=
  ∃ rest b, leftovers (w.logged off s) (rotatedHeader w.header).logGuid = .ok (rest,b) ∧ b.exhausted = false ∧
    (OutOfTheWay (rotatedHeader w.header).sequenceNumber.toNat rest ∨
      Doubled w.header.logLength.toNat (w.frontEntry off s) rest)

variable {w w' : World} {off : Nat} {s : Sector}

theorem journalEntry_isEncoded {h : Header} {n : Nat} :
    IsEncoded (rotatedHeader h).sequenceNumber 0 (rotatedHeader h).logGuid
    (UInt64.ofNat n) (UInt64.ofNat n) [⟨UInt64.ofNat off,s⟩] (journalEntry h n off s) := by
  unfold journalEntry
  exact encodeEntry_isEncoded (by rw [encodedLength_single]; decide)

omit [Crc32c] in
theorem rotated_logGuid_ne_zero (h : Header) :
    isZeroGuid (rotatedHeader h).logGuid = false := stirSequenceIntoGuid_ne_zero _ _

/-- A log that is journalled into is a megabyte at least. -/
theorem World.Anchored.log_large (h : w.Anchored) (hn : ¬ noJournal w.header) : oneMib ≤ w.header.logLength.toNat := by
  obtain ⟨-,-,hmod⟩ := h.log hn
  have hne : w.header.logLength.toNat ≠ 0 := fun h0 => hn (.inl (UInt32.toNat.inj h0))
  exact Nat.le_of_dvd (Nat.pos_of_ne_zero hne) (Nat.dvd_of_mod_eq_zero hmod)

/-- The region after the write is the region with the entry over its front. -/
theorem World.Anchored.bytes_journalled (h : w.Anchored) (hn : ¬ noJournal w.header) :
    (w.journalled off s).dev.bytes w.header.logOffset.toNat w.header.logLength.toNat = w.logged off s := by
  obtain ⟨hlow,hend,-⟩ := h.log hn
  have hlarge := h.log_large hn
  have hmib : oneMib = 1048576 := rfl
  have hslot := w.slot.other.offset_low
  refine (Device.bytes_put_of_disjoint (.inr ?_)).trans ?_
  · rw [length_encodeHeader]
    omega
  · exact Device.bytes_put_within (k := 0) (by rw [length_journalEntry]; omega) hend

/-- Under the GUID the write took, the chain is the entry alone just when nothing is in its way. -/
private theorem World.Anchored.collect_journalled (h : w.Anchored) (hn : ¬ noJournal w.header) (hoff : off < 2^64) :
    (∃ e, collectReplayChain ((w.journalled off s).dev.bytes w.header.logOffset.toNat w.header.logLength.toNat)
        (rotatedHeader w.header).logGuid = .ok [e] ∧ e.descriptors.map Descriptor.write = [(off,s.1)]) ↔
        w.Unobstructed off s := by
  have hlarge := h.log_large hn
  have hmib : oneMib = 1048576 := rfl
  have hregion : (w.dev.bytes w.header.logOffset.toNat w.header.logLength.toNat).length = w.header.logLength.toNat :=
    Device.length_bytes
  have hlen : (w.logged off s).length = w.header.logLength.toNat := by
    rw [World.logged,length_splice (by rw [length_journalEntry,hregion]; omega),hregion]
  have hfront : slice (w.logged off s) 0 8192 = journalEntry w.header w.devSize off s :=
    slice_splice_same (by rw [length_journalEntry,hregion]; omega) length_journalEntry.symm
  obtain ⟨rest,b,hrest,-⟩ := (discoverFrom_ok 8192
    { left := saturatingMul (w.logged off s).length discoveryChecksumPasses - 8192, exhausted := false } :
      ∃ found b, discoverFrom (w.logged off s) (rotatedHeader w.header).logGuid _ _ = .ok (found,b) ∧
        Discovered _ _ _ found)
  have hiff := collect_front_iff (p := ⟨UInt64.ofNat off,s⟩) (q := (rotatedHeader w.header).sequenceNumber)
    (f := UInt64.ofNat w.devSize)
    (l := UInt64.ofNat w.devSize) (by omega) (by have := w.header.logLength.toNat_lt; omega)
      (rotated_logGuid_ne_zero w.header)
    (encodedLength_single _) (hfront ▸ journalEntry_isEncoded) hrest
  rw [h.bytes_journalled hn]
  rw [hlen,show (UInt64.ofNat off).toNat = off from UInt64.toNat_ofNat_of_lt' hoff] at hiff
  refine hiff.trans ⟨fun hb => ⟨rest,b,hrest,hb⟩,?_⟩
  rintro ⟨rest',b',hrest',hb⟩
  obtain ⟨rfl,rfl⟩ := Prod.mk.inj (Outcome.ok.inj (hrest'.symm.trans hrest))
  exact hb

private theorem World.pendingIs_iff {header : Header} {slot : HeaderSlot}
    (h : preferHeader (headerAt w.dev w.dev.size .one) (headerAt w.dev w.dev.size .two) = .ok (header,slot)) :
    w.PendingIs off s ↔
      ∃ e, collectReplayChain (w.dev.bytes header.logOffset.toNat header.logLength.toNat) header.logGuid = .ok [e] ∧
        e.descriptors.map Descriptor.write = [(off,s.1)] := by
  have hpick : (pickHeader w.dev.size).on w.dev = (.ok (header,slot),w.dev) := by rw [on_pickHeader le_rfl,h]
  constructor
  · rintro ⟨header',slot',e,hpick',he⟩
    obtain ⟨rfl,rfl⟩ := Prod.mk.inj (Outcome.ok.inj (Prod.mk.inj (hpick'.symm.trans hpick)).1)
    exact ⟨e,he⟩
  · rintro ⟨e,he⟩
    exact ⟨header,slot,e,hpick,he⟩

omit [Crc32c] in
/-- Stirring in zero, the number after the last one, changes no GUID but the zero one. -/
private theorem stirSequenceIntoGuid_zero {g : Guid} (hg : isZeroGuid g = false) : stirSequenceIntoGuid g 0 = g := by
  obtain ⟨hhigh,hlow⟩ := stirSequenceIntoGuid_halves g 0
  have hne : ¬ (g.low = zeros 8 ∧ g.high = (0 : UInt64).toNat) := by
    rintro ⟨h1,h2⟩
    have hz : g.1 = zeros 16 := by
      calc
        g.1 = g.low ++ g.1.drop 8 := (List.take_append_drop 8 g.1).symm
        _ = zeros 8 ++ zeros 8 := by rw [h1,(ofLE_eq_zero (n := 8) (by simp)).mp h2]
        _ = zeros 16 := (zeros_add 8 8).symm
    have hall : isZeroGuid g = true := (all_zero_iff g.2).mpr hz
    rw [hall] at hg
    cases hg
  rw [if_neg hne] at hlow
  refine Guid.ext_iff_halves.mpr ⟨hlow,?_⟩
  rw [hhigh]
  exact Nat.xor_zero _

/-- One journalled write, from any header a reader may hold. -/
private theorem World.Anchored.pendingIs_iff (h : w.Anchored) (hn : ¬ noJournal w.header) (hoff : off < 2^64) :
    (w.journalled off s).PendingIs off s ↔
      (w.header.sequenceNumber.toNat + 1 < 2^64 ∨ isZeroGuid w.header.logGuid = false) ∧ w.Unobstructed off s := by
  have hiff := h.collect_journalled (s := s) hn hoff
  rcases Nat.lt_or_ge (w.header.sequenceNumber.toNat + 1) (2^64) with hseq | hseq
  · rw [World.pendingIs_iff (h.headed_journalled hn hseq).current]
    exact hiff.trans (and_iff_right (.inl hseq)).symm
  · -- the number wraps to zero, and the header picked is the old one
    have hlast : w.header.sequenceNumber.toNat + 1 = 2^64 := Nat.le_antisymm w.header.sequenceNumber.toNat_lt hseq
    rw [World.pendingIs_iff (h.picked_after_last hn hlast)]
    have hzero : w.header.sequenceNumber + 1 = 0 := UInt64.toNat.inj (by
      rw [UInt64.toNat_add]
      change (w.header.sequenceNumber.toNat + 1) % 2^64 = 0
      rw [hlast,Nat.mod_self])
    cases hg : isZeroGuid w.header.logGuid with
    | false =>
      have hguid : (rotatedHeader w.header).logGuid = w.header.logGuid := by
        change stirSequenceIntoGuid w.header.logGuid (w.header.sequenceNumber + 1) = _
        rw [hzero,stirSequenceIntoGuid_zero hg]
      rw [hguid] at hiff
      exact hiff.trans (and_iff_right (.inr rfl)).symm
    | true =>
      refine ⟨?_,?_⟩
      · rintro ⟨e,he,-⟩
        rw [collectReplayChain,if_pos hg] at he
        cases he
      · rintro ⟨hlt | hf,-⟩
        · omega
        · cases hf

/-- After an open and any number of journalled writes, the next one is the whole of its chain just when the header it
moves to is the one picked, or carries the same GUID, and nothing the region held under its GUID is in its way. -/
theorem journalled_write_whole_chain_iff {d d' : Device} {r : VhdxReader} {st : ReaderState} (hopen : Opens d r st d')
    {n : Nat} (hrun : Journals SlotsKept (st.start d') n w) (hn : ¬ noJournal w.header) (hoff : off < 2^64)
    (hr : (journalSectorWrite off s.1).run World.handle w = (.ok (),w')) : w'.PendingIs off s ↔
      (w.header.sequenceNumber.toNat + 1 < 2^64 ∨ isZeroGuid w.header.logGuid = false) ∧ w.Unobstructed off s := by
  obtain ⟨-,-,-,rfl⟩ := (journalSectorWrite_eq_ok hn).mp hr
  exact (hrun.anchored hopen.anchored).pendingIs_iff hn hoff

end

/-- Over a log of zeros nothing is in the way, and the entry is the whole of its chain. -/
theorem journalled_write_whole_chain_oneLogged :
    letI := castagnoli
    let w := (oneLoggedState 5).start (oneLogged 5).device
    let s : Sector := ⟨zeros logSectorSize,length_zeros _⟩
    (w.journalled 0 s).PendingIs 0 s ∧ w.Unobstructed 0 s := by
  let := castagnoli
  intro w s
  have hlogged : w.logged 0 s = splice (zeros 1048576) 0 (journalEntry w.header w.devSize 0 s) := by
    have hregion : w.dev.bytes 1048576 1048576 = zeros 1048576 := by
      refine (Build.bytes_device (b := oneLogged 5) (show oneMib ≤ 1048576 by decide)
        (.inl (show 1048576 + 1048576 ≤ 2097152 by decide))).trans ?_
      exact Device.bytes_zeroed
    exact congrArg (fun b => splice b 0 (journalEntry w.header w.devSize 0 s)) hregion
  have hopen : Opens (oneLogged 5).device (oneLogged 5).reader (oneLoggedState 5) (oneLogged 5).device :=
    .inr (oneLogged_opensAs 5).opens
  have hiff := journalled_write_whole_chain_iff hopen (.start : Journals SlotsKept w 0 w) (oneLogged_logs 5)
    (by decide) (oneLogged_run 5 0 s)
  have hanchored := hopen.anchored
  have hpending : (w.journalled 0 s).PendingIs 0 s := by
    rw [World.pendingIs_iff (hanchored.headed_journalled (oneLogged_logs 5)
      (show (5 : UInt64).toNat + 1 < 2^64 by decide)).current]
    refine ⟨w.frontEntry 0 s,?_,rfl⟩
    change collectReplayChain ((w.journalled 0 s).dev.bytes w.header.logOffset.toNat w.header.logLength.toNat)
      (rotatedHeader w.header).logGuid = _
    rw [hanchored.bytes_journalled (oneLogged_logs 5),hlogged]
    unfold journalEntry World.frontEntry
    exact collect_single (show 1048576 < 2^32 by decide) (show 1048576 % logSectorSize = 0 by decide)
      (show 0 < 1048576 by decide)
      (by rw [encodedLength_single]; exact (by decide : 8192 ≤ 1048576)) (rotated_logGuid_ne_zero _)
  exact ⟨hpending,(hiff.mp hpending).2⟩

def leftGuid : Guid := stirSequenceIntoGuid Guid.zero 101

/-- An entry of no writes past the first two sectors of the log, under the GUID the next journalled write will take and
with the number after that write's. -/
def leftBehind [Crc32c] : Build := { oneLogged 100 with body := [(oneMib + 8192,encodeEntry 102 0 leftGuid 0 0 [])] }

section left
variable [Crc32c]

private theorem leftBehind_valid : leftBehind.Valid 1 :=
  { oneLogged_valid 100 with body := by simp [leftBehind] }

def leftBehindState : ReaderState :=
  ⟨leftBehind.size,leftBehind.header,.one,decodeBat (leftBehind.device.bytes leftBehind.batOffset (1 * batEntrySize))⟩

private theorem leftBehind_opens : Opens leftBehind.device leftBehind.reader leftBehindState leftBehind.device :=
  .inr (leftBehind_valid.opensAs (by simp [leftBehind,isZeroGuid,oneLogged,Guid.zero,zeros])).opens

private theorem length_leftEntry : (encodeEntry 102 0 leftGuid 0 0 []).length = 4096 :=
  (encodeEntry_isEncoded (by decide)).length.trans (by decide)

/-- The region the next write leaves: its own entry, and the other right behind. -/
private theorem leftBehind_logged (s : Sector) : (leftBehindState.start leftBehind.device).logged 0 s =
    circLay (zeros 1048576) 0 (encodeBatches 0 leftGuid 101
      [⟨UInt64.ofNat leftBehind.size,UInt64.ofNat leftBehind.size,[⟨0,s⟩]⟩,⟨0,0,[]⟩]) := by
  have hfront : (journalEntry leftBehind.header leftBehind.size 0 s).length = 8192 := length_journalEntry
  have hregion : leftBehind.device.bytes 1048576 1048576 =
      splice (zeros 1048576) 8192 (encodeEntry 102 0 leftGuid 0 0 []) := by
    rw [Build.bytes_device (show oneMib ≤ 1048576 by decide)
      (.inl (show 1048576 + 1048576 ≤ 2 * 1024 * 1024 by decide))]
    refine (Device.bytes_put_within (k := 8192) ?_ (show 1048576 + 1048576 ≤ 4 * 1024 * 1024 by decide)).trans ?_
    · rw [length_leftEntry]
      decide
    · rw [Device.bytes_zeroed]
  have hencode : encodeEntry 101 0 leftGuid (UInt64.ofNat leftBehind.size) (UInt64.ofNat leftBehind.size) [⟨0,s⟩] =
      journalEntry leftBehind.header leftBehind.size 0 s := by
    unfold journalEntry
    rfl
  calc
    (leftBehindState.start leftBehind.device).logged 0 s
      = splice (leftBehind.device.bytes 1048576 1048576) 0 (journalEntry leftBehind.header leftBehind.size 0 s) := rfl
    _ = splice (splice (zeros 1048576) 0 (journalEntry leftBehind.header leftBehind.size 0 s)) 8192
      (encodeEntry 102 0 leftGuid 0 0 []) := by
      rw [hregion,← splice_splice_of_disjoint (by rw [hfront]) (by rw [length_leftEntry,length_zeros]; decide)]
    _ = circLay (zeros 1048576) 0 [journalEntry leftBehind.header leftBehind.size 0 s,encodeEntry 102 0 leftGuid 0 0 []] := by
      have hlen : (splice (zeros 1048576) 0 (journalEntry leftBehind.header leftBehind.size 0 s)).length = 1048576 := by
        rw [length_splice (by rw [hfront,length_zeros]; decide),length_zeros]
      rw [circLay,circSplice_of_le (by rw [hfront,length_zeros]; decide),hfront,length_zeros,
        wrap_of_lt (show 0 + 8192 < 1048576 by decide),circLay,
          circSplice_of_le (by rw [length_leftEntry,hlen]; decide),circLay]
    _ = _ := by
      rw [encodeBatches,encodeBatches,encodeBatches,hencode]
      rfl

/-- A reader that opens the file right after the write finds two entries in its chain, where the write made one. -/
private theorem leftBehind_not_pendingIs (s : Sector) :
    ¬ ((leftBehindState.start leftBehind.device).journalled 0 s).PendingIs 0 s := by
  have hopened := leftBehind_opens.anchored
  have hlogs : ¬ noJournal leftBehind.header := oneLogged_logs 100
  rw [World.pendingIs_iff (hopened.headed_journalled hlogs (show (100 : UInt64).toNat + 1 < 2^64 by decide)).current]
  rintro ⟨e,he,-⟩
  change collectReplayChain (((leftBehindState.start leftBehind.device).journalled 0 s).dev.bytes
    (leftBehindState.start leftBehind.device).header.logOffset.toNat
    (leftBehindState.start leftBehind.device).header.logLength.toNat) leftGuid = _ at he
  rw [hopened.bytes_journalled hlogs,leftBehind_logged] at he
  have hfits : (encodeBatches 0 leftGuid 101
    [⟨UInt64.ofNat leftBehind.size,UInt64.ofNat leftBehind.size,[⟨0,s⟩]⟩,⟨0,0,[]⟩]).flatten.length ≤
      1048576 := by
    have hone := (encodeEntry_isEncoded (q := 101) (t := 0) (g := leftGuid) (f := UInt64.ofNat leftBehind.size)
      (l := UInt64.ofNat leftBehind.size)
        (show encodedLength [⟨0,s⟩] < 2^32 by rw [encodedLength_single]; decide)).length
    rw [encodeBatches,encodeBatches,encodeBatches,List.flatten_cons,List.flatten_cons,List.flatten_nil,List.append_nil,
      List.length_append,hone,encodedLength_single]
    exact show 8192 + _ ≤ 1048576 from (Nat.add_le_add_left length_leftEntry.le _).trans (by decide)
  have hslots := slots_of_lay (by decide) (by decide) (show (0 : UInt32).toNat < 1048576 by decide) (by decide) hfits
  have hchain := hslots.collect (by rw [length_circLay (by simp) (by simpa using hfits),length_zeros]; decide)
    (stirSequenceIntoGuid_ne_zero _ _) ?_ rfl rfl rfl
  · have := Outcome.ok.inj (hchain.symm.trans he)
    cases this
  · rw [length_circLay (by simp) (by simpa using hfits),length_zeros]
    refine List.isChain_cons_cons.mpr ⟨⟨?_,rfl⟩,List.isChain_singleton _⟩
    simp only [encodedEntry,encodedLength_single]
    decide

private theorem leftBehind_run (s : Sector) :
    (journalSectorWrite 0 s.1).run World.handle (leftBehindState.start leftBehind.device) =
    (.ok (),(leftBehindState.start leftBehind.device).journalled 0 s) := by
  have hsize : (leftBehindState.start leftBehind.device).dev.size = 4194304 := Build.size_device
  exact journalSectorWrite_of_room (oneLogged_logs 100) (by simp [ReaderState.start,Build.device,Device.zeroed])
    ((show 1048576 + 8192 ≤ 4194304 by decide).trans hsize.ge) (by rw [hsize]; decide)

end left

/-- A file that opens, and the first write journalled on it. -/
theorem journalled_write_joins_leftover :
    letI := castagnoli
    ∃ r st d', Opens leftBehind.device r st d' ∧ ∃ w', ¬ noJournal st.header ∧
      (journalSectorWrite 0 (zeros logSectorSize)).run World.handle (st.start d') = (.ok (),w') ∧
      ¬ w'.PendingIs 0 ⟨zeros logSectorSize,length_zeros _⟩ := by
  let := castagnoli
  exact ⟨_,_,_,leftBehind_opens,_,oneLogged_logs 100,leftBehind_run ⟨zeros logSectorSize,length_zeros _⟩,
    leftBehind_not_pendingIs _⟩

end ImgVhdx
