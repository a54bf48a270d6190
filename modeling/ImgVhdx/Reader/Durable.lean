import ImgVhdx.Log.Stamped
import ImgVhdx.Reader.Refused
import ImgVhdx.Reader.Session

/-! What a session of writes leaves on the device, opened again: the same disk, by the same BAT, and nothing in the log. -/
namespace ImgVhdx
open Lib DevProg ReaderProg

private theorem sameLog_rotated (h : Header) (n : Nat) : SameLog (rotatedHeader^[n] h) h := by
  induction n with
  | zero => exact .refl
  | succ n ih =>
    rw [Function.iterate_succ_apply']
    exact ⟨ih.version,ih.offset,ih.length⟩

private theorem sameLog_after (h : Header) (slot : HeaderSlot) (chain : List LogEntry) :
    SameLog (headerAfter h slot chain).1 h := by
  unfold headerAfter
  split_ifs
  · exact .refl
  · exact ⟨rfl,rfl,rfl⟩

private theorem LaidApart.of_sameLog {k h : Header} {metadata bat : Span} (hl : LaidApart h metadata bat)
    (hs : SameLog k h) : LaidApart k metadata bat where
  log_header hn := hs.region ▸ hl.log_header (hs.length ▸ hn)
  log_metadata hn := hs.region ▸ hl.log_metadata (hs.length ▸ hn)
  log_bat hn := hs.region ▸ hl.log_bat (hs.length ▸ hn)
  header_metadata := hl.header_metadata
  header_bat := hl.header_bat
  metadata_bat := hl.metadata_bat

/-- Consuming the log takes one number. -/
private theorem sequenceNumber_after {h : Header} (hseq : h.sequenceNumber.toNat + 1 < 2^64) (slot : HeaderSlot)
    (chain : List LogEntry) :
    (headerAfter h slot chain).1.sequenceNumber.toNat ≤ h.sequenceNumber.toNat + 1 := by
  unfold headerAfter
  split_ifs
  · exact Nat.le_succ _
  · exact (toNat_succ_seq hseq).le

section opened
variable [Crc32c] {d d' : Device} {writable rc : Bool} {header : Header} {slot : HeaderSlot} {chain : List LogEntry}
  {regions : RegionTable}
  {r : VhdxReader} {s : ReaderState} {l : Layout}

/-- Locating the regions, on its own, finds what the open found. -/
theorem Opened.located (h : Opened d writable rc header slot chain regions r s) (hw : rc = true → d.writable = true)
    {x : Located} {d1 : Device} (hl : (locateRegions rc).on d = (.ok x,d1)) :
    x.header = header ∧ x.regions = regions := by
  rw [locateRegions_split] at hl
  obtain ⟨⟨n,k,t⟩,d2,hid,hl⟩ := Prog.run_bind_eq_ok.mp hl
  obtain ⟨rfl,hn,before,hident⟩ := identify_eq_ok hid
  obtain rfl : n = d2.size := hn
  obtain ⟨y,d3,hr,hs⟩ := Prog.run_bind_eq_ok.mp hl
  obtain ⟨found,hreplays,-,rfl,rfl⟩ := replayLog_inv hw hident.logRegion hr
  obtain ⟨rfl,htable,-,-,hx⟩ := settle_eq_ok (x := ((d2.replayed found).size,!found.isEmpty)) le_rfl hs
  obtain ⟨rfl,rfl,rfl⟩ := FindsChain.unique ⟨⟨before,hident⟩,hreplays.pending⟩ ⟨h.identified,h.replays.pending⟩
  rw [hx]
  exact ⟨rfl,Outcome.ok.inj (htable.symm.trans h.table)⟩

/-- An image opened for writing, with the regions its layout is of. -/
theorem OpensAs.opened (h : OpensAs d r s d' l) :
    ∃ header slot chain regions, Opened d true true header slot chain regions r s ∧
    d' = d.opened header slot chain ∧ (∃ x, regions.find Guids.metadata = some x ∧ x.span = l.metadata) ∧
    ∃ x, regions.find Guids.bat = some x ∧ x.span = l.bat := by
  have hopen := h.opens
  unfold openRwOnDevice at hopen
  by_cases hw : d.writable = true
  · rw [if_neg (not_not.mpr hw)] at hopen
    obtain ⟨header,slot,chain,regions,hopened,rfl⟩ := openInner_inv (fun _ => hw) hopen
    obtain ⟨located,d1,m,b,hl,hm,hb,rfl⟩ := h.regions
    obtain ⟨-,hregions⟩ := hopened.located (fun _ => hw) hl
    rw [hregions] at hm hb
    exact ⟨header,slot,chain,regions,hopened,rfl,⟨m,hm,rfl⟩,b,hb,rfl⟩
  · rw [if_pos hw] at hopen
    cases (Prod.mk.inj hopen).1

/-- The other way round: an open that has all it needs, on a device that can be written. -/
theorem Opened.opensAs (h : Opened d true true header slot chain regions r s) (hw : d.writable = true)
    {m b : RegionEntry} (hm : regions.find Guids.metadata = some m) (hb : regions.find Guids.bat = some b) :
    OpensAs d r s (d.opened header slot chain) ⟨header.logRegion,m.span,b.span⟩ := by
  have hinner := h.on_openInner fun _ => hw
  obtain ⟨located,d1,_,_,_,_,_,hl,-⟩ := openInner_eq_ok hinner
  obtain ⟨hheader,hregions⟩ := h.located (fun _ => hw) hl
  refine ⟨?_,located,d1,m,b,hl,by rw [hregions]; exact hm,by rw [hregions]; exact hb,by rw [hheader]⟩
  rw [openRwOnDevice_of_writable hw]
  exact hinner

/-- The region table an open found is in the file it leaves. -/
private theorem Opened.table_kept (h : Opened d writable rc header slot chain regions r s) :
    regionsAt (d.opened header slot chain) (d.opened header slot chain).size = .ok regions := by
  obtain ⟨before,hident⟩ := h.identified
  have htable := h.table
  rw [Device.size_opened]
  unfold Device.opened
  split_ifs with hemp
  · obtain rfl := List.isEmpty_iff.mp hemp
    rw [Device.replayed_nil] at htable ⊢
    exact htable
  · obtain ⟨-,-,hlow,-⟩ := hident.log_inside h.replays.pending (by simpa using hemp)
    rw [regionsAt_erased hlow]
    exact htable

/-- Where the file an open leaves still has its identifier and the reader's header, it is found again as the open left
it, with nothing pending. -/
private theorem Opened.settled (h : Opened d writable rc header slot chain regions r s)
    (hid : (d.opened header slot chain).bytes 0 8 = fileIdentifierSignature)
    (hcurrent : (s.start (d.opened header slot chain)).Current) :
    Identified (d.opened header slot chain) s.header s.slot regions ∧
    pendingChain (d.opened header slot chain) s.header = .ok [] := by
  obtain ⟨before,hident⟩ := h.identified
  obtain ⟨-,-,hheader,-⟩ := loadDisk_inv h.loads
  have hsame : SameLog s.header header := by
    rw [hheader]
    exact sameLog_after header slot chain
  have hle : d.size ≤ (d.opened header slot chain).size := by
    rw [Device.size_opened,Device.size_replayed]
    exact le_allowedExtent _ _
  refine ⟨?_,?_⟩
  · exact {
      large := hident.large.trans hle
      identifier := hid
      picked := World.current_iff.mp hcurrent
      logVersion := hsame.version.trans hident.logVersion
      logRegion := hsame.valid hle hident.logRegion
      table := h.table_kept
      clear := hsame.clear h.clear }
  · by_cases hemp : chain = []
    · subst hemp
      rw [show s.header = header from hheader]
      exact h.replays.pending
    · have hcleared : s.header = clearedHeader header := by
        rw [hheader,headerAfter,if_neg (by simpa using hemp)]
      rw [hcleared]
      refine if_neg fun hlog => hlog.1 ?_
      simp [clearedHeader,isZeroGuid,Guid.zero,zeros]

end opened

section session
variable [Crc32c] {r : VhdxReader} {l : Layout} {w w0 : World} {chain : List LogEntry} {k : Nat}

/-- The chain in the log, each of whose writes is on the device already, and clear of the header slots. -/
structure World.InPlace (w : World) (chain : List LogEntry) : Prop where
  pending : pendingChain w.dev w.header = .ok chain
  fits : checkDescriptors (allowedExtent w.dev.size chain) (descriptorsOf chain) = .ok ()
  extent : allowedExtent w.dev.size chain = w.dev.size
  replayed : w.dev.replayed chain = w.dev
  spares : ∀ x : HeaderSlot, LandsOff chain ⟨x.offset,headerSize⟩

/-- With nothing in the log there is nothing to put in place. -/
theorem World.InPlace.of_none (h : pendingChain w.dev w.header = .ok []) : w.InPlace [] := by
  refine ⟨h,rfl,?_,Device.replayed_nil,fun x y hy => absurd hy List.not_mem_nil⟩
  have hnil := congrArg Device.size (Device.replayed_nil (d := w.dev))
  rwa [Device.size_replayed] at hnil

theorem pendingChain_congr {d d' : Device} {h : Header}
    (hb : d'.bytes h.logOffset.toNat h.logLength.toNat = d.bytes h.logOffset.toNat h.logLength.toNat) :
    pendingChain d' h = pendingChain d h := by
  unfold pendingChain
  rw [hb]

/-- An entry written over the front of the log and clear of others is the chain, and its sector is in place. -/
theorem World.inPlace_of_fronted {h : Header} {n i : Nat} {s : Sector} {log : Bytes} (hheaded : w.Headed)
    (hplaced : w.Placed r l) (hready : w.Ready r) (hheader : w.header = rotatedHeader h) (hn : ¬ noJournal h)
    (hsize : n ≤ w.devSize) (hi : i < w.bat.length) (hfits : EntryFits r i)
    (hroom : sectorOffset r i + logSectorSize ≤ w.devSize) (hlen : log.length = l.log.len)
    (hlog : w.dev.bytes l.log.start l.log.len = splice log 0 (journalEntry h n (sectorOffset r i) s))
    (hsector : w.dev.bytes (sectorOffset r i) logSectorSize = s.1) (hclear : Unstamped log w.header.logGuid 8192) :
    ∃ chain, chain ≠ [] ∧ writesOf chain = [(sectorOffset r i,s.1)] ∧ w.InPlace chain := by
  have hjournals : ¬ noJournal w.header := by rwa [hheader]
  have hsmall := hready.small
  have hdev := hready.size
  have hstart := hplaced.log_start
  have hlength := hplaced.log_len
  have hlarge := hheaded.log_large hjournals
  obtain ⟨hlow,-,-⟩ := hheaded.log hjournals
  have hword := w.header.logLength.toNat_lt
  have hmib : oneMib = 1048576 := rfl
  have hentry : (journalEntry h n (sectorOffset r i) s).length = 8192 := length_journalEntry
  have hpair : (UInt64.ofNat (sectorOffset r i)).toNat = sectorOffset r i :=
    UInt64.toNat_ofNat_of_lt' (show _ < 2^64 by omega)
  have hguid : isZeroGuid w.header.logGuid = false := by
    rw [hheader]
    exact rotated_logGuid_ne_zero h
  let front := encodedEntry 0 (rotatedHeader h).sequenceNumber 0 w.header.logGuid (UInt64.ofNat n) (UInt64.ofNat n)
    [⟨UInt64.ofNat (sectorOffset r i),s⟩]
  have hwrites : writesOf [front] = [(sectorOffset r i,s.1)] := congrArg (fun off => [(off,s.1)]) hpair
  have hwrite : ∀ x ∈ descriptorsOf [front], x.write = (sectorOffset r i,s.1) := by
    intro x hx
    have := List.mem_map_of_mem (f := Descriptor.write) hx
    rw [show (descriptorsOf [front]).map Descriptor.write = _ from hwrites] at this
    exact List.mem_singleton.mp this
  have hextent : allowedExtent w.dev.size [front] = w.dev.size := by
    have hlast : (UInt64.ofNat n).toNat = n := UInt64.toNat_ofNat_of_lt' (show _ < 2^64 by omega)
    change max w.dev.size (min (max 0 (UInt64.ofNat n).toNat) _) = _
    rw [hlast]
    omega
  refine ⟨[front],by simp,hwrites,?_,?_,hextent,?_,fun x y hy => ?_⟩
  · have hcollect : collectReplayChain (w.dev.bytes l.log.start l.log.len) w.header.logGuid = .ok [front] := by
      rw [hlog]
      have hspliced : (splice log 0 (journalEntry h n (sectorOffset r i) s)).length = log.length :=
        length_splice (by omega)
      refine collectReplayChain_of_front (by omega) (by omega) hguid (encodedLength_single _) ?_
        (hclear.behind_front hentry (by omega))
      rw [slice_splice_same (by omega) hentry.symm,hheader]
      exact journalEntry_isEncoded
    unfold pendingChain
    rw [hstart,hlength,if_pos ⟨by simp [hguid],by omega,by omega⟩]
    exact hcollect
  · rw [hextent]
    refine checkDescriptors_eq_ok.mpr fun x hx => ?_
    rw [hwrite x hx,s.2]
    exact ⟨by omega,by omega⟩
  · unfold Device.replayed
    rw [hextent,Device.resize_self,hwrites]
    refine Device.put_of_bytes ?_
    rw [s.2]
    exact hsector
  · rw [hwrite y hy,s.2]
    have hsection : (Span.mk (sectorOffset r i) logSectorSize).Apart headerSection :=
      hplaced.sector_apart_header hi (hready.entry_lt hi) hfits
    have hslot : (Span.mk x.offset headerSize).Apart ⟨sectorOffset r i,logSectorSize⟩ :=
      hsection.symm.inner (Nat.zero_le _) (x.offset_low.trans (Nat.zero_add oneMib).ge)
    exact hslot.symm

/-- With the header where it was, nothing is pending that was not. -/
theorem World.Session.nothing_pending (h : World.Session r l w0 w) (h0 : w0.Placed r l)
    (hnone : pendingChain w0.dev w0.header = .ok []) (hheader : w.header = w0.header) :
    pendingChain w.dev w.header = .ok [] := by
  cases h.log with
  | untouched _ same =>
    rw [hheader,← hnone]
    refine pendingChain_congr ?_
    rw [h0.log_start,h0.log_len]
    exact same
  | fronted g n i s _ _ later =>
    rw [hheader] at later
    exact absurd later (lt_irrefl _)

/-- What the log holds after a session: nothing, as before it, or the last entry, which is in place. -/
theorem World.Session.inPlace (h : World.Session r l w0 w) (hready : w.Ready r) (h0 : w0.Placed r l)
    (hnone : pendingChain w0.dev w0.header = .ok [])
    (hclear : w.header ≠ w0.header → Unstamped (w0.dev.bytes l.log.start l.log.len) w.header.logGuid 8192) :
    ∃ chain, w.InPlace chain ∧ (chain = [] → w.header = w0.header ∧ w.dev.bytes l.log.start l.log.len =
      w0.dev.bytes l.log.start l.log.len) := by
  cases h.log with
  | untouched header same =>
    refine ⟨[],.of_none ?_,fun _ => ⟨header,same⟩⟩
    rw [header,← hnone]
    refine pendingChain_congr ?_
    rw [h0.log_start,h0.log_len]
    exact same
  | fronted g n i s header journals later inside entry fits room log sector =>
    have hne : w.header ≠ w0.header := fun he => by
      rw [he] at later
      exact absurd later (lt_irrefl _)
    obtain ⟨chain,hchain,-,hplace⟩ := World.inPlace_of_fronted h.headed h.placed hready header journals inside entry fits room
      Device.length_bytes log sector (hclear hne)
    exact ⟨chain,hplace,fun hnil => absurd hnil hchain⟩

/-- The container's housing after a session is what it was before it. -/
theorem World.Session.housingKept (h : World.Session r l w0 w) (h0 : w0.Placed r l) (hsize : w0.dev.size = w0.devSize)
    (hready : w.Ready r) : HousingKept l w0.dev w.dev where
  size := by
    rw [hsize,hready.size]
    exact h.grown
  first i hi hslots := byte_fixed_of_steps h0 h.steps (.inl ⟨hi,hslots⟩)
  metadata := Device.bytes_congr fun i hlo hhi => byte_fixed_of_steps h0 h.steps (.inr ⟨hlo,hhi⟩)

/-- Outside the log and the header slots, a reopen leaves every byte. -/
private theorem World.InPlace.byte_opened (hc : w.InPlace chain)
    (hlog : k < w.header.logOffset.toNat ∨ w.header.logOffset.toNat + w.header.logLength.toNat ≤ k)
    (hslot : ∀ x : HeaderSlot, k < x.offset ∨ x.offset + headerSize ≤ k) :
    (w.dev.opened w.header w.slot chain).byte k = w.dev.byte k := by
  unfold Device.opened
  split_ifs
  · rfl
  · rw [hc.replayed,Device.erased,Device.byte_put_of_outside,Device.byte_put_of_outside]
    · rwa [length_zeros]
    · rw [length_encodeHeader]
      exact hslot _

theorem World.InPlace.size_opened (hc : w.InPlace chain) : (w.dev.opened w.header w.slot chain).size = w.dev.size := by
  rw [Device.size_opened,hc.replayed]

/-- The log and the first megabyte hold nothing of what is clear of them. -/
private theorem World.InPlace.byte_opened_of_apart (hc : w.InPlace chain) (hp : w.Placed r l) {part : Span}
    (hheader : part.Apart headerSection) (hlog : part.Apart l.log) (hlo : part.start ≤ k) (hhi : k < part.stop) :
    (w.dev.opened w.header w.slot chain).byte k = w.dev.byte k := by
  have hregion : (⟨w.header.logOffset.toNat,w.header.logLength.toNat⟩ : Span) = l.log := hp.logRegion
  refine hc.byte_opened ?_ fun x => .inr ?_
  · by_contra hin
    rw [not_or,not_lt,not_le] at hin
    rw [← hregion] at hlog
    exact Span.apart_iff.mp hlog k hlo hhi hin.1 hin.2
  · have hlow := x.offset_low
    have hpast := Span.apart_iff.mp hheader k hlo hhi (Nat.zero_le _)
    refine hlow.trans (not_lt.mp fun hk => hpast ?_)
    rwa [headerSection,Span.stop,Nat.zero_add]

omit [Crc32c] in
/-- Whatever happens to the log and to the header slots, the housing is kept. -/
theorem World.Placed.housingKept (h : w.Placed r l) {e : Device} (hsize : w.dev.size ≤ e.size)
    (hsame : ∀ k, (k < l.log.start ∨ l.log.stop ≤ k) → (∀ x : HeaderSlot, k < x.offset ∨ x.offset + headerSize ≤ k) →
      e.byte k = w.dev.byte k) :
    HousingKept l w.dev e where
  size := hsize
  first i hi hslots := by
    refine hsame i ?_ hslots
    by_cases hn : l.log.len = 0
    · rw [Span.stop,hn]
      omega
    · have hsides := h.logHeader.sides (show 0 < oneMib by decide) (Nat.pos_of_ne_zero hn)
      change 0 + oneMib ≤ l.log.start ∨ l.log.start + l.log.len ≤ 0 at hsides
      omega
  metadata := Device.bytes_congr fun i hlo hhi => by
    refine hsame i ?_ fun x => .inr ?_
    · by_contra hin
      rw [not_or,not_lt,not_le] at hin
      exact Span.apart_iff.mp h.logMetadata i hin.1 hin.2 hlo hhi
    · have hpast := Span.apart_iff.mp h.headerMetadata.symm i hlo hhi (Nat.zero_le _)
      refine x.offset_low.trans (not_lt.mp fun hk => hpast ?_)
      rwa [headerSection,Span.stop,Nat.zero_add]

/-- So it is after an open. -/
theorem World.InPlace.housingKept (hc : w.InPlace chain) (hp : w.Placed r l) :
    HousingKept l w.dev (w.dev.opened w.header w.slot chain) :=
  hp.housingKept hc.size_opened.ge fun k hlog hslots => by
    have hregion : (⟨w.header.logOffset.toNat,w.header.logLength.toNat⟩ : Span) = l.log := hp.logRegion
    rw [← hregion] at hlog
    exact hc.byte_opened hlog hslots

/-- The BAT on the device is read again as it is in memory. -/
private theorem World.InPlace.bat_opened (hc : w.InPlace chain) (hp : w.Placed r l) (hstored : w.Stored r) :
    decodeBat ((w.dev.opened w.header w.slot chain).bytes r.batRegionOff (w.bat.length * batEntrySize)) = w.bat := by
  have hroom := hp.batRoom
  have hstart := hp.batStart
  have hstop : l.bat.stop = l.bat.start + l.bat.len := rfl
  have hsame : (w.dev.opened w.header w.slot chain).bytes r.batRegionOff (w.bat.length * batEntrySize) =
      w.dev.bytes r.batRegionOff (w.bat.length * batEntrySize) := Device.bytes_congr fun i hlo hhi =>
    hc.byte_opened_of_apart hp hp.headerBat.symm hp.logBat.symm (by omega) (by omega)
  rw [hsame]
  exact (World.stored_iff.mp hstored).symm

/-- And every block holds what it held. -/
private theorem World.InPlace.disk_opened (hc : w.InPlace chain) (hp : w.Placed r l)
    (hsound : SoundBat r l w.devSize w.bat) {v : World} (hdev : v.dev = w.dev.opened w.header w.slot chain)
    (hbat : v.bat = w.bat) (x : Nat) : v.disk r x = w.disk r x := by
  have hk := Nat.mod_lt x r.blockSize_pos
  unfold World.disk World.blockByte
  rw [hbat,hdev]
  cases he : w.bat[batIdxOf r x]? with
  | none => rfl
  | some e =>
    dsimp only
    split_ifs with hstate
    · have hclear := hsound.clear e (List.mem_of_getElem? he) (by rw [hstate]; rfl)
      exact hc.byte_opened_of_apart hp (hclear _ List.mem_cons_self)
        (hclear _ (List.mem_cons_of_mem _ List.mem_cons_self))
        (Nat.le_add_right _ _) (Nat.add_lt_add_left hk _)
    · rfl

end session

section reopened
variable [Crc32c] {r : VhdxReader} {l : Layout} {w : World} {d d' : Device} {s : ReaderState} {regions : RegionTable}
  {chain : List LogEntry}

/-- What an image was opened by is there to be opened again. -/
theorem SoundlyOpened.housed (h : SoundlyOpened r l d s d') : ∃ regions, Identified d' s.header s.slot regions ∧
    Housed r l regions s.bat.length d' ∧ (∃ x, regions.find Guids.bat = some x ∧ x.span = l.bat) ∧
    pendingChain d' s.header = .ok [] := by
  obtain ⟨header,slot,chain,regions,hopened,rfl,hmeta,hbat⟩ := h.opens.opened
  obtain ⟨hident,hnone⟩ := hopened.settled h.identifier h.current
  refine ⟨regions,hident,⟨h.identifier,hopened.table_kept,hopened.known,hmeta,fun k t writable => ?_⟩,hbat,hnone⟩
  have hstarted := h.opens.started.1
  have hstate : ({ s with header := k, slot := t } : ReaderState) = ⟨(d.opened header slot chain).size,k,t,_⟩ :=
    congrArg₂ (fun n bat => (⟨n,k,t,bat⟩ : ReaderState)) hstarted.size hstarted.bat
  rw [← hstate,Device.size_opened]
  exact loadDisk_passes hopened.loads k t writable

/-- And still is in every state of a session. -/
theorem SoundlyOpened.found (h : SoundlyOpened r l d s d') (hsession : World.Session r l (s.start d') w)
    (hw : w.Writable r) :
    ∃ regions, Identified w.dev w.header w.slot regions ∧ Housed r l regions w.bat.length w.dev ∧
      (∃ x, regions.find Guids.bat = some x ∧ x.span = l.bat) ∧ pendingChain d' s.header = .ok [] := by
  obtain ⟨regions,hident,hhoused,hbat,hnone⟩ := h.housed
  have hkept := hsession.housingKept h.session.placed h.opens.started.1.size.symm hw.ready
  have hthere : Housed r l regions w.bat.length w.dev := by
    rw [hsession.entries]
    exact hhoused.moved hkept
  obtain ⟨n,hn⟩ := hsession.rotated
  have hsame : SameLog w.header s.header := by
    rw [hn]
    exact sameLog_rotated s.header n
  refine ⟨regions,?_,hthere,hbat,hnone⟩
  exact {
    large := hident.large.trans hkept.size
    identifier := hthere.identifier
    picked := hsession.headed.current
    logVersion := hsame.version.trans hident.logVersion
    logRegion := hsame.valid hkept.size hident.logRegion
    table := hthere.table
    clear := hsame.clear hident.clear }

def World.restarted (w : World) (chain : List LogEntry) : ReaderState :=
  ⟨w.dev.size,(headerAfter w.header w.slot chain).1,(headerAfter w.header w.slot chain).2,w.bat⟩

structure World.Restartable (r : VhdxReader) (l : Layout) (regions : RegionTable) (w : World) (chain : List LogEntry) : Prop where
  ready : w.Ready r
  open_rw : r.writable = true
  placed : w.Placed r l
  apart : LaidApart w.header l.metadata l.bat
  sound : SoundBat r l w.devSize w.bat
  stored : w.Stored r
  number : w.number + 1 < 2^64
  identified : Identified w.dev w.header w.slot regions
  housed : Housed r l regions w.bat.length w.dev
  bat : ∃ x, regions.find Guids.bat = some x ∧ x.span = l.bat
  place : w.InPlace chain

/-- A device that is the world's once the chain in its log is replayed. -/
structure World.Behind (w : World) (chain : List LogEntry) (e : Device) : Prop where
  size : e.size = w.dev.size
  writable : e.writable = true
  growable : e.growable = w.dev.growable
  pending : pendingChain e w.header = .ok chain
  replayed : e.replayed chain = w.dev
  identified : ∃ before, Identified e w.header w.slot before

theorem World.Restartable.behind (h : w.Restartable r l regions chain) : w.Behind chain w.dev :=
  ⟨rfl,h.ready.writable,rfl,h.place.pending,h.place.replayed,regions,h.identified⟩

private theorem World.Behind.opened_eq {e : Device} (he : w.Behind chain e) (hc : w.InPlace chain) :
    e.opened w.header w.slot chain = w.dev.opened w.header w.slot chain := by
  unfold Device.opened
  rw [he.replayed,hc.replayed]
  split_ifs with hemp
  · have hreplayed := he.replayed
    rwa [List.isEmpty_iff.mp hemp,Device.replayed_nil] at hreplayed
  · rfl

theorem World.Restartable.opened (h : w.Restartable r l regions chain) {e : Device} (he : w.Behind chain e) :
    Opened e true true w.header w.slot chain regions r (w.restarted chain) where
  identified := he.identified
  replays := ⟨he.pending,fun _ => he.size ▸ h.place.fits,fun _ => .inr (he.size ▸ h.place.extent)⟩
  capable _ := rfl
  table := by
    rw [he.replayed]
    exact h.identified.table
  known := h.housed.known
  clear := h.identified.clear
  loads := by
    have hloads := (h.housed.moved (h.place.housingKept h.placed)).loads (headerAfter w.header w.slot chain).1
      (headerAfter w.header w.slot chain).2 true
    rw [h.place.bat_opened h.placed h.stored,h.place.size_opened,
      show ({ r with writable := true } : VhdxReader) = r from VhdxReader.ext rfl rfl rfl rfl rfl rfl h.open_rw.symm] at hloads
    rw [he.replayed,he.opened_eq h.place]
    exact hloads

structure Reopened (r : VhdxReader) (l : Layout) (e : Device) (w : World) (t : ReaderState) (d : Device) : Prop where
  sound : SoundlyOpened r l e t d
  size : t.devSize = w.devSize
  bat : t.bat = w.bat
  disk : ∀ v, (t.start d).disk r v = w.disk r v
  number : (t.start d).number ≤ w.number + 1
  growable : d.growable = w.dev.growable

/-- What was pending is gone from the log. -/
theorem World.InPlace.log_opened (hc : w.InPlace chain) (hp : w.Placed r l)
    (hident : Identified w.dev w.header w.slot regions) (hne : chain ≠ []) :
    (w.dev.opened w.header w.slot chain).bytes l.log.start l.log.len = zeros l.log.len := by
  have hregion : (⟨w.header.logOffset.toNat,w.header.logLength.toNat⟩ : Span) = l.log := hp.logRegion
  obtain ⟨-,-,hlow,hend⟩ := hident.log_inside hc.pending hne
  have hslot := w.slot.other.offset_low
  have hput := Device.bytes_put_same (d := w.dev) (o := w.header.logOffset.toNat) (b := zeros w.header.logLength.toNat)
    (by rw [length_zeros]; omega)
  rw [length_zeros] at hput
  rw [← hregion]
  unfold Device.opened
  rw [if_neg (by simpa using hne),hc.replayed,Device.erased,Device.bytes_put_of_disjoint
    (.inr (by rw [length_encodeHeader]; dsimp only; omega))]
  exact hput

/-- Opened, it is sound again, and its disk is the world's. -/
theorem World.Restartable.reopened (h : w.Restartable r l regions chain) {e : Device} (he : w.Behind chain e) :
    Reopened r l e w (w.restarted chain) (w.dev.opened w.header w.slot chain) := by
  obtain ⟨m,hm,hmspan⟩ := h.housed.metadata
  obtain ⟨b,hb,hbspan⟩ := h.bat
  have hopened := h.opened he
  have hopens := hopened.opensAs he.writable hm hb
  have hlayout : (⟨w.header.logRegion,m.span,b.span⟩ : Layout) = l := by
    rw [h.placed.logRegion,hmspan,hbspan]
  rw [hlayout,he.opened_eq h.place] at hopens
  have hnumber := h.number
  have hseq : w.header.sequenceNumber.toNat + 1 < 2^64 := by
    unfold World.number at hnumber
    omega
  have hnext : ((w.restarted chain).start (w.dev.opened w.header w.slot chain)).number ≤ w.number + 1 := by
    have hafter := sequenceNumber_after hseq w.slot chain
    change (headerAfter w.header w.slot chain).1.sequenceNumber.toNat + w.bat.countP _ ≤
      w.header.sequenceNumber.toNat + w.bat.countP _ + 1
    omega
  have hsize : (w.restarted chain).devSize = w.devSize := h.ready.size
  refine ⟨?_,hsize,rfl,h.place.disk_opened h.placed h.sound rfl rfl,hnext,?_⟩
  · exact {
      opens := hopens
      small := he.size.trans_lt (h.ready.size.trans_lt h.ready.small)
      apart := h.apart.of_sameLog (sameLog_after w.header w.slot chain)
      sound := by
        rw [hsize]
        exact h.sound
      identifier := (h.housed.moved (h.place.housingKept h.placed)).identifier
      current := World.current_iff.mpr ((h.opened h.behind).headed h.place.spares fun _ => hseq).current
      number := hnext.trans_lt hnumber }
  · unfold Device.opened
    split_ifs
    · rfl
    · rw [h.place.replayed]
      rfl

/-- Another device of the same housing and BAT, and with the same header picked, will do where its log is in place. -/
theorem World.Restartable.redev (h : w.Restartable r l regions chain) {e : Device} (hsize : e.size = w.dev.size)
    (hwritable : e.writable = true) (hkept : HousingKept l w.dev e)
    (hbat : e.bytes l.bat.start l.bat.len = w.dev.bytes l.bat.start l.bat.len)
    (hpicked : preferHeader (headerAt e e.size .one) (headerAt e e.size .two) = .ok (w.header,w.slot))
    {chain' : List LogEntry} (hplace : World.InPlace { w with dev := e } chain') :
    World.Restartable r l regions { w with dev := e } chain' := by
  have hhoused : Housed r l regions w.bat.length e := h.housed.moved hkept
  exact {
    ready := ⟨hwritable,⟨h.ready.unlocked.size,h.ready.unlocked.header⟩,hsize.trans h.ready.size,h.ready.small,
      h.ready.slots,h.ready.log,h.ready.bat⟩
    open_rw := h.open_rw
    placed := { h.placed with }
    apart := h.apart
    sound := h.sound
    stored := fun j hj => by
      obtain ⟨hfrom,hto⟩ := h.placed.entry hj
      have hsame : e.bytes (entryOffset r j) batEntrySize = w.dev.bytes (entryOffset r j) batEntrySize :=
        Device.bytes_congr fun k hlo hhi => Device.byte_of_bytes hbat (hfrom.trans hlo) (hhi.trans_le hto)
      exact (h.stored j hj).trans (congrArg (fun b => some (BatEntry.fromU64 (ofLE b))) hsame.symm)
    number := h.number
    identified := {
      large := hsize ▸ h.identified.large
      identifier := hhoused.identifier
      picked := hpicked
      logVersion := h.identified.logVersion
      logRegion := hsize ▸ h.identified.logRegion
      table := hhoused.table
      clear := h.identified.clear }
    housed := hhoused
    bat := h.bat
    place := hplace }

/-- What a session leaves can be opened again. -/
theorem SoundlyOpened.restartable (h : SoundlyOpened r l d s d') (hsession : World.Session r l (s.start d') w)
    (hw : w.Writable r) (hnum : (s.start d').number + 1 < 2^64)
    (hclear : w.header ≠ s.header → Unstamped (d'.bytes l.log.start l.log.len) w.header.logGuid 8192) :
    ∃ regions chain, w.Restartable r l regions chain ∧
      (chain = [] → w.header = s.header ∧ w.dev.bytes l.log.start l.log.len = d'.bytes l.log.start l.log.len) := by
  obtain ⟨regions,hident,hhoused,hbat,hnone⟩ := h.found hsession hw
  obtain ⟨chain,hplace,hempty⟩ := hsession.inPlace hw.ready h.session.placed hnone hclear
  obtain ⟨n,hn⟩ := hsession.rotated
  have hsame : SameLog w.header s.header := by
    rw [hn]
    exact sameLog_rotated s.header n
  have hnumber := hsession.number
  exact ⟨regions,chain,⟨hw.ready,hw.open_rw,hsession.placed,h.apart.of_sameLog hsame,hsession.sound,hsession.stored,
    by omega,hident,hhoused,hbat,hplace⟩,
    hempty⟩

/-- Opened after any writes, an image is sound again, its log holds nothing of theirs, and its disk is the one they left. -/
theorem SoundlyOpened.reopened (h : SoundlyOpened r l d s d') (hreach : Reached r (s.start d') w)
    (hnum : (s.start d').number + 1 < 2^64)
    (hclear : w.header ≠ s.header → Unstamped (d'.bytes l.log.start l.log.len) w.header.logGuid 8192) :
    ∃ t d2, Reopened r l w.dev w t d2 ∧
    (t.header = w.header ∧ w.header = s.header ∧ d2.bytes l.log.start l.log.len = d'.bytes l.log.start l.log.len ∨
      d2.bytes l.log.start l.log.len = zeros l.log.len) := by
  obtain ⟨hw,hsession⟩ := h.reached hreach
  obtain ⟨regions,chain,hrestart,hempty⟩ := h.restartable hsession hw hnum hclear
  refine ⟨_,_,hrestart.reopened hrestart.behind,?_⟩
  by_cases hemp : chain = []
  · obtain ⟨hheader,hlog⟩ := hempty hemp
    subst hemp
    exact .inl ⟨rfl,hheader,hlog⟩
  · exact .inr (hrestart.place.log_opened hrestart.placed hrestart.identified hemp)

end reopened
end ImgVhdx
