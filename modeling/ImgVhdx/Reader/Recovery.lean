import ImgVhdx.Reader.Stands

/-! An open that the power is cut in, at any of its calls or inside one: what it leaves of the replay and of the
erasing of the log stands for the same image. -/
namespace ImgVhdx
open Lib DevProg

/-- A write of a chain that lands in part leaves the device on the way. -/
theorem Partway.torn [Crc32c] {d m e : Device} {chain : List LogEntry} {n : Nat} {op : DevOp} (h : Partway d chain m)
    (hop : Lands n chain op) (ht : Device.torn op m e) : Partway d chain e := by
  cases op with
  | write off bs =>
    obtain ⟨-,-,landed,rfl,-⟩ := ht
    refine ⟨h.writable,h.growable,h.size,fun i hi => ?_⟩
    have hout : i < off ∨ off + bs.length ≤ i := by
      by_contra hin
      exact hi (hop i (by omega) (by omega))
    exact (Device.byte_putSome_of_outside hout).trans (h.byte i hi)
  | _ => exact ht.elim

namespace DevProg
variable [Crc32c] {α β : Type} {Q : Device → Prop} {d e : Device} {off n : Nat} {bs : Bytes} {f : FsError → Error}
  {chain : List LogEntry}

abbrev FileThroughout {α : Type} (Q : Device → Prop) (p : DevProg α) (d : Device) : Prop :=
    p.Throughout Device.handle Device.torn Q d

private theorem throughout_of_looks {p : DevProg α} (hp : Looks p) (hq : Q d) : FileThroughout Q p d := by
  refine hp.throughout (fun op s hop hs => ?_) (fun op s m hop _ hm => ?_) hq
  · cases op <;> first | exact hs | cases hop
  · cases op <;> first | exact hm.elim | cases hop

/-- A part that only looks, and what comes after it. -/
private theorem throughout_looks_bind {p : DevProg α} {g : α → DevProg β} (hp : Looks p) (hq : Q d)
    (hg : ∀ a, p.on d = (.ok a,d) → FileThroughout Q (g a) d) :
    FileThroughout Q (p >>= g) d := by
  refine (throughout_of_looks hp hq).bind fun a d1 hrun => ?_
  have hsame : (p.run Device.handle d).2 = d := hp.keeps (I := fun s => s = d) (fun op s hop hs => by
    subst hs
    cases op <;> first | rfl | cases hop) rfl
  rw [hrun] at hsame
  obtain rfl : d1 = d := hsame
  exact hg a hrun

theorem throughout_devWrite (hq : Q d) (hcut : ∀ e, Device.torn (.write off bs) d e → Q e) :
    FileThroughout Q (devWrite off bs f) d := by
  refine .call hq (fun m hm => hcut m hm) ?_
  have hafter : Q (d.writeAt off bs).2 := by
    rcases d.writeAt_cases off bs with ⟨x,he⟩ | ⟨hw,hin,he⟩
    · rwa [he]
    · rw [he]
      exact hcut _ ⟨hw,hin,fun _ => true,rfl,fun _ _ _ _ _ => .inr (.inl rfl)⟩
  change FileThroughout Q (ofReply f (d.writeAt off bs).1) (d.writeAt off bs).2
  generalize (d.writeAt off bs).1 = reply
  rcases reply with x | ⟨⟩
  · exact .done hafter
  · exact .done hafter

/-- Zeros chunk after chunk, each of which keeps it, whole or in part. -/
private theorem throughout_writeZeros
    (hstep : ∀ e m j, Q e → j < n → zeroChunk ∣ j →
      Device.torn (.write (off + j) (zeros (min (n - j) zeroChunk))) e m → Q m)
    (hq : Q d) : FileThroughout Q (writeZeros f off n) d := by
  have hrest : ∀ left j d, j + left = n → left = 0 ∨ zeroChunk ∣ j → Q d →
      FileThroughout Q (writeZeros f (off + j) left) d := by
    intro left
    induction left using Nat.strongRecOn with
    | ind left ih =>
      intro j d hj hplace hq
      rw [writeZeros]
      split_ifs with h0
      · exact .done hq
      have hz : 0 < zeroChunk := by decide
      have hdvd := hplace.resolve_left h0
      have hleft : left = n - j := by omega
      have hwrite : FileThroughout Q (devWrite (off + j) (zeros (min left zeroChunk)) f) d :=
        throughout_devWrite hq fun m hm => hstep d m j hq (by omega) hdvd (by rwa [← hleft])
      refine hwrite.bind fun _ d1 hrun => ?_
      rw [Nat.add_assoc]
      refine ih _ (by omega) (j + min left zeroChunk) d1 (by omega) ?_ (hwrite.finish hrun)
      rcases Nat.le_total left zeroChunk with hlast | hmore
      · exact .inl (by omega)
      · rw [Nat.min_eq_right hmore]
        exact .inr ((Nat.dvd_add_iff_left dvd_rfl).mp hdvd)
  exact hrest n 0 d (Nat.zero_add n) (.inr (Nat.dvd_zero _)) hq

/-- A chain interrupted on the way, on a device with all the room it needs. -/
private theorem throughout_applyChain (hq : ∀ e, Partway d chain e → Q e) : FileThroughout Q (applyChain chain) d := by
  have hstart : Partway d chain d := ⟨rfl,rfl,.inl rfl,fun _ _ => rfl⟩
  refine throughout_looks_bind looks_devSize (hq d hstart) fun size hsize => ?_
  obtain rfl : d.size = size := Outcome.ok.inj (Prod.mk.inj (on_devSize.symm.trans hsize)).1
  have hcalls : Prog.Only (Lands (allowedExtent d.size chain) chain)
      (Prog.lift (checkDescriptors (allowedExtent d.size chain) (descriptorsOf chain)) >>= fun _ =>
        makeRoom (allowedExtent d.size chain) >>= fun _ => Prog.forEach applyEntry chain) :=
    Prog.Only.bind trivial fun _ => lands_makeRoom.bind fun _ => lands_applyEntries
  have hway : FileThroughout (Partway d chain) _ d :=
    hcalls.throughout (fun op s hop hs => hs.step hop) (fun op s m hop hs ht => hs.torn hop ht) hstart
  exact fun m hm => hq m (hway m hm)

end DevProg

section erasing
variable [Crc32c] {r : VhdxReader} {l : Layout} {w : World} {i n j : Nat} {s : Sector} {h : Header} {log : Bytes} {e m : Device}
  {regions : RegionTable} {chain : List LogEntry}

/-- A file whose log is being erased: each sector of it is the old one or zeros, and its front is the old one, zeros,
or fails its checksum. -/
structure World.Erasing (l : Layout) (w : World) (e : Device) : Prop where
  size : e.size = w.dev.size
  writable : e.writable = true
  growable : e.growable = w.dev.growable
  outside : ∀ k, (k < l.log.start ∨ l.log.stop ≤ k) → e.byte k = w.dev.byte k
  sectors : ∀ k, k % 512 = 0 → k + 512 ≤ l.log.len →
    e.bytes (l.log.start + k) 512 = w.dev.bytes (l.log.start + k) 512 ∨ e.bytes (l.log.start + k) 512 = zeros 512
  front : e.bytes l.log.start 8192 = w.dev.bytes l.log.start 8192 ∨ e.bytes l.log.start 8192 = zeros 8192 ∨
    ¬ Sealed (e.bytes l.log.start 8192)

theorem World.Erasing.refl (hr : w.Ready r) : w.Erasing l w.dev :=
  ⟨rfl,hr.writable,rfl,fun _ _ => rfl,fun _ _ _ => .inl rfl,.inl rfl⟩

theorem World.Erasing.relogged (he : w.Erasing l e) (hp : w.Placed r l) : w.Relogged l e where
  size := he.size
  writable := he.writable
  growable := he.growable
  same k hk _ := he.outside k hk
  other := .inl (Device.bytes_congr fun k _ hhi => he.outside k (hp.off_log (hhi.trans_le w.slot.other.offset_low)))

/-- A chunk of zeros that lands in part keeps it. -/
theorem World.Erasing.torn (he : w.Erasing l e) (hr : w.Restartable r l regions chain) (hn : ¬ noJournal w.header)
    (hj : j < l.log.len) (hdvd : zeroChunk ∣ j)
    (ht : Device.torn (.write (l.log.start + j) (zeros (min (l.log.len - j) zeroChunk))) e m) : w.Erasing l m := by
  obtain ⟨hw,hin,landed,rfl,hguard⟩ := ht
  obtain ⟨hstart,hlen⟩ := hr.placed.front hn
  obtain ⟨halign,hwhole⟩ := hr.placed.logAligned (by omega)
  have hchunk : zeroChunk = 1048576 := rfl
  have hmib : oneMib = 1048576 := rfl
  rw [hmib] at halign hwhole
  rw [hchunk] at hdvd
  have hfull : min (l.log.len - j) zeroChunk = 1048576 := by
    rw [hchunk]
    omega
  rw [hfull] at hin hguard ⊢
  rw [length_zeros] at hin
  have hout : ∀ {k}, (k < l.log.start + j ∨ l.log.start + j + 1048576 ≤ k) →
      (e.putSome (l.log.start + j) (zeros 1048576) landed).byte k = e.byte k :=
        fun {k} hk => Device.byte_putSome_of_outside (by rwa [length_zeros])
  refine ⟨he.size,hw,he.growable,fun k hk => ?_,fun k hk hroom => ?_,?_⟩
  · rw [hout (by unfold Span.stop at hk; omega)]
    exact he.outside k hk
  · have hsides : (e.putSome (l.log.start + j) (zeros 1048576) landed).bytes (l.log.start + k) 512 =
      e.bytes (l.log.start + k) 512 ∨
        (e.putSome (l.log.start + j) (zeros 1048576) landed).bytes (l.log.start + k) 512 = zeros 512 :=
      Device.sector_putSome_zeros (by omega) (by decide) (by omega) hin
    rcases hsides with hold | hnew
    · rw [hold]
      exact he.sectors k hk hroom
    · exact .inr hnew
  · rcases Nat.eq_zero_or_pos j with rfl | hpos
    · have hheld : headerAt e e.size w.slot = some w.header := ((he.relogged hr.placed).headed hr.placed hr.headed).held
      have hspan := hguard l.log.start 8192 (.inr ⟨w.slot,w.header,hheld,by rw [hstart]⟩) le_rfl
        (by rw [length_zeros]; omega)
      have hthere := Device.bytes_put_same (d := e) (o := l.log.start + 0) (b := zeros 1048576) (by rwa [length_zeros])
      have hnew := congrArg (fun b => slice b 0 8192) hthere
      rw [length_zeros,Device.slice_bytes_front (by decide),slice_zeros (by omega)] at hnew
      rcases hspan with hold | hspan
      · rw [hold]
        exact he.front
      · rw [show (e.put (l.log.start + 0) (zeros 1048576)).bytes l.log.start 8192 = zeros 8192 from hnew] at hspan
        exact .inr hspan
    · rw [Device.bytes_congr fun x _ hhi => hout (.inl (by omega))]
      exact he.front

/-- It has no slot past its front that the old log did not have. -/
private theorem World.Erasing.unstamped (he : w.Erasing l e) (hp : w.Placed r l) (hf : w.Fronted r l h n i s log) (k : Nat) :
    Unstamped (e.bytes l.log.start l.log.len) (rotatedHeader^[k] w.header).logGuid 8192 := by
  intro x hx
  obtain ⟨hstart,hlen⟩ := hp.front hf.has_log
  have hsector : logSectorSize = 4096 := rfl
  rw [Device.length_bytes] at hx
  have hslice : ∀ d : Device, slice (d.bytes l.log.start l.log.len) (8192 + x * logSectorSize) 512 =
    d.bytes (l.log.start + (8192 + x * logSectorSize)) 512 :=
    fun d => Device.slice_bytes (by omega)
  have hold : Unstamped (w.dev.bytes l.log.start l.log.len) (rotatedHeader^[k] w.header).logGuid 8192 := by
    rw [hf.logged]
    exact (hf.past k).behind_front length_journalEntry (by rw [hf.length]; exact hlen)
  rcases he.sectors (8192 + x * logSectorSize) (by rw [hsector]; omega) (by omega) with hsame | hzero
  · rw [stamped_congr ((hslice e).trans (hsame.trans (hslice w.dev).symm))]
    exact hold x (by rwa [Device.length_bytes])
  · have hblank : slice (e.bytes l.log.start l.log.len) (8192 + x * logSectorSize) 512 =
      slice (zeros l.log.len) (8192 + x * logSectorSize) 512 :=
      (hslice e).trans (hzero.trans (slice_zeros (by omega)).symm)
    rw [stamped_congr hblank]
    exact unstamped_zeros _ _ _ x (by rwa [length_zeros])

/-- And no front that begins an entry, unless it be of the old one's length. -/
theorem World.Erasing.quiet (he : w.Erasing l e) (hp : w.Placed r l) (hf : w.Fronted r l h n i s log) :
    QuietFront (e.bytes l.log.start 8192) w.header.logGuid := by
  obtain ⟨hstart,hlen⟩ := hp.front hf.has_log
  have hentry : QuietFront (w.dev.bytes l.log.start 8192) w.header.logGuid := by
    rw [hf.front hlen]
    exact quietFront_of_encoded journalEntry_isEncoded (encodedLength_single _)
  have hzeros : QuietFront (zeros 8192) w.header.logGuid := by
    have hclear : ClearOf (zeros 8192) w.header := clearOf_zeros _
    have hfront := hclear.front
    rwa [slice_zeros (by decide)] at hfront
  have hsides : ∀ k, k % 512 = 0 → k + 512 ≤ 8192 → slice (e.bytes l.log.start 8192) k 512 =
    slice (w.dev.bytes l.log.start 8192) k 512 ∨
      slice (e.bytes l.log.start 8192) k 512 = slice (zeros 8192) k 512 := fun k hk hin => by
    rw [Device.slice_bytes hin,Device.slice_bytes hin,slice_zeros hin]
    exact he.sectors k hk (by omega)
  exact hentry.mixed hzeros (hsides 0 (by decide) (by decide)) (hsides 4096 (by decide) (by decide))

/-- Such a file stands for the image: by the old entry, if it is whole, and otherwise by none. -/
theorem World.Erasing.stands (he : w.Erasing l e) (hr : w.Restartable r l regions chain)
    (hf : w.Fronted r l h n i s log) :
    World.Stands r l { w with dev := e } e := by
  obtain ⟨hstart,hlen⟩ := hr.placed.front hf.has_log
  have hrelogged := he.relogged hr.placed
  have hslice : slice (e.bytes l.log.start l.log.len) 0 8192 = e.bytes l.log.start 8192 := Device.slice_bytes_front hlen
  have hbroken : (Stamped (e.bytes l.log.start 8192) w.header.logGuid 0 → ¬ Sealed (e.bytes l.log.start 8192)) →
      World.Stands r l { w with dev := e } e := by
    intro hb
    refine hrelogged.stands_clear hr hf.has_log ⟨?_,he.unstamped hr.placed hf⟩ hb
    rw [hslice]
    exact he.quiet hr.placed hf
  rcases he.front with hold | hnew | hseal
  · have hsector : e.bytes (sectorOffset r i) logSectorSize = w.dev.bytes (sectorOffset r i) logSectorSize := by
      have hapart := hr.placed.sector_apart_log hf.entry (hr.ready.entry_lt hf.entry) hf.fits hf.has_log
      refine Device.bytes_congr fun k hlo hhi => he.outside k ?_
      by_contra hin
      rw [not_or,not_lt,not_le] at hin
      exact Span.apart_iff.mp hapart k hlo hhi hin.1 hin.2
    have hfront : World.Fronted r l { w with dev := e } h n i s (e.bytes l.log.start l.log.len) := {
      header := hf.header
      journals := hf.journals
      inside := hf.inside
      entry := hf.entry
      fits := hf.fits
      room := hf.room
      length := Device.length_bytes
      logged := by
        rw [← hf.front hlen,← hold,← hslice]
        exact (splice_slice (by rw [Device.length_bytes]; omega)).symm
      sector := hsector.trans hf.sector
      past := he.unstamped hr.placed hf }
    obtain ⟨chain',-,hplace⟩ := hfront.inPlace (hrelogged.headed hr.placed hr.headed) { hr.placed with }
      (hrelogged.ready hr.ready)
    exact hfront.stands (hr.relogged hrelogged hplace)
  · refine hbroken fun hs => ?_
    rw [hnew] at hs
    exact absurd hs (not_stamped_zeros _)
  · exact hbroken fun _ => hseal

end erasing

section opens
variable [Crc32c] {r : VhdxReader} {l : Layout} {w : World} {i n : Nat} {s : Sector} {h : Header} {log : Bytes}
  {d e m : Device}
  {t : ReaderState} {regions : RegionTable} {chain : List LogEntry}

def World.Recovers (r : VhdxReader) (l : Layout) (w : World) (e : Device) : Prop :=
  ∃ v : World, v.Stands r l e ∧ v.number ≤ w.number + 1 ∧ ∀ x, v.disk r x = w.disk r x

private theorem World.Stands.recovers (hs : w.Stands r l e) : w.Recovers r l e := ⟨w,hs,Nat.le_succ _,fun _ => rfl⟩

private theorem World.Relogged.recovers (he : w.Relogged l e) (hr : w.Restartable r l regions chain)
    (hs : World.Stands r l { w with dev := e } e) :
    w.Recovers r l e := ⟨_,hs,Nat.le_succ _,fun _ => he.blockByte hr.sound _ (Nat.mod_lt _ r.blockSize_pos)⟩

/-- So does the file an open leaves when it is done. -/
private theorem Reopened.recovers (hre : Reopened r l e w t d)
    (hclear : ClearOf (d.bytes l.log.start l.log.len) t.header) (hnum : w.number + 2 < 2^64) :
    w.Recovers r l d := by
  have hnext := hre.number
  exact ⟨t.start d,hre.sound.stands (by omega) hclear hre.sound.session (hre.sound.reached .start).1,hnext,hre.disk⟩

/-- With the log erased, the header that says so may land in part. -/
private theorem World.Restartable.recovers_cleared (hr : w.Restartable r l regions chain) (hne : chain ≠ [])
    (hn : ¬ noJournal w.header) (hnum : w.number + 2 < 2^64)
    (ht : Device.torn (.write w.slot.other.offset (encodeHeader (clearedHeader w.header)))
      (w.dev.put w.header.logOffset.toNat (zeros w.header.logLength.toNat)) m) :
    w.Recovers r l m := by
  have hstart := hr.placed.log_start
  have hlength := hr.placed.log_len
  have hlen : (encodeHeader (clearedHeader w.header)).length = headerSize := length_encodeHeader _
  obtain ⟨hlow,hend,-⟩ := hr.headed.log hn
  have hslot := w.slot.other.offset_low
  have hwhole := ht.whole (.inl ⟨w.slot.other,congrArg (Span.mk _) hlen⟩)
  rw [hlen] at hwhole
  obtain ⟨-,-,landed,hm,-⟩ := ht
  have hzeros : m.bytes l.log.start l.log.len = zeros l.log.len := by
    have hput := Device.bytes_put_same (d := w.dev) (o := w.header.logOffset.toNat)
      (b := zeros w.header.logLength.toNat) (by rwa [length_zeros])
    rw [length_zeros,hstart,hlength] at hput
    rw [← hput,hm,hstart,hlength]
    exact Device.bytes_congr fun k hlo _ => Device.byte_putSome_of_outside (by omega)
  have hother : (w.dev.put w.header.logOffset.toNat (zeros w.header.logLength.toNat)).bytes w.slot.other.offset headerSize =
      w.dev.bytes w.slot.other.offset headerSize := Device.bytes_put_of_disjoint (.inl (by omega))
  have hback : m.bytes w.slot.other.offset headerSize = w.dev.bytes w.slot.other.offset headerSize ∨
    ¬ Sealed (m.bytes w.slot.other.offset headerSize) →
      w.Recovers r l m := by
    intro hslots
    have hrelogged : w.Relogged l m := {
      size := by rw [hm]; rfl
      writable := by rw [hm]; exact hr.ready.writable
      growable := by rw [hm]; rfl
      same := fun k hk hside => by
        rw [hm,Device.byte_putSome_of_outside (by rwa [hlen]),Device.byte_put_of_outside]
        rw [length_zeros,hstart,hlength]
        exact hk
      other := hslots }
    refine hrelogged.recovers hr (hrelogged.stands_clear hr hn ?_ fun hs => ?_)
    · rw [hzeros]
      exact clearOf_zeros _
    · obtain ⟨-,hroom⟩ := hr.placed.front hn
      rw [← Device.slice_bytes_front hroom,hzeros,slice_zeros (by omega)] at hs
      exact absurd hs (not_stamped_zeros _)
  rcases hwhole with hold | hnew | hseal
  · exact hback (.inl (hold.trans hother))
  · have hopened : m = w.dev.opened w.header w.slot chain := by
      unfold Device.opened
      rw [if_neg (by simpa using hne),hr.place.replayed,hm]
      exact Device.putSome_of_whole (by rw [hlen,← hm]; exact hnew)
    rw [hopened]
    refine (hr.reopened hr.behind).recovers ?_ hnum
    rw [hr.place.log_opened hr.placed hr.identified hne]
    exact clearOf_zeros _
  · exact hback (.inr hseal)

/-- Consuming the log: part of it erased, or part of the header that says so. -/
private theorem World.Fronted.throughout_consumeLog (hf : w.Fronted r l h n i s log)
    (hr : w.Restartable r l regions chain) (hne : chain ≠ []) (hnum : w.number + 2 < 2^64) {located : Located}
    (hheader : located.header = w.header) (hslot : located.slot = w.slot) (hreplayed : located.replayed = true) :
    FileThroughout (w.Recovers r l) (consumeLog located) w.dev := by
  obtain ⟨hstart,-⟩ := hr.placed.front hf.has_log
  have hlength := hr.placed.log_len
  unfold consumeLog
  rw [if_pos hreplayed,hheader,hslot]
  have herase : FileThroughout (w.Erasing l)
      (writeZeros fsCoreToVhdxError w.header.logOffset.toNat w.header.logLength.toNat) w.dev := by
    rw [← hstart,hlength]
    exact throughout_writeZeros (fun e m j he hj hdvd ht => he.torn hr hf.has_log hj hdvd ht) (.refl hr.ready)
  have hzero : FileThroughout (w.Recovers r l) (zeroLogRegion w.header.logOffset.toNat w.header.logLength.toNat) w.dev := by
    have herased : FileThroughout (w.Recovers r l)
      (writeZeros fsCoreToVhdxError w.header.logOffset.toNat w.header.logLength.toNat) w.dev :=
      fun m hm => ((herase m hm).relogged hr.placed).recovers hr ((herase m hm).stands hr hf)
    exact herased.bind fun _ d1 hrun => throughout_of_looks looks_devFlush (herased.finish hrun)
  refine hzero.bind fun _ d1 hrun => ?_
  have hthere := hzero.finish hrun
  obtain ⟨_,d2,hzeros,hflush⟩ := Prog.run_bind_eq_ok.mp hrun
  obtain ⟨-,rfl⟩ := Prod.mk.inj (on_devFlush.symm.trans hflush)
  obtain ⟨-,rfl⟩ := on_writeZeros_eq_ok hzeros
  have hwrite : FileThroughout (w.Recovers r l)
    (devWrite w.slot.other.offset (encodeHeader (clearedHeader w.header)) fsCoreToVhdxError)
      (w.dev.put w.header.logOffset.toNat (zeros w.header.logLength.toNat)) :=
    DevProg.throughout_devWrite hthere fun m hm => hr.recovers_cleared hne hf.has_log hnum hm
  exact hwrite.bind fun _ d3 hrun => throughout_of_looks (looks_devFlush.bind fun _ => trivial) (hwrite.finish hrun)

/-- Opening a device that stands for an image, cut short anywhere, leaves one that stands for the same disk. -/
theorem World.Stands.throughout_open (hs : w.Stands r l e) (hnum : w.number + 2 < 2^64) :
    FileThroughout (w.Recovers r l) (openRwOnDevice e) e := by
  have hq := hs.recovers
  obtain ⟨regions,chain,hr,hb,hl⟩ := hs
  obtain ⟨before,hident⟩ := hb.identified
  rw [openRwOnDevice_of_writable hb.writable,openInner_split]
  refine throughout_looks_bind looks_identify hq fun x hx => ?_
  obtain rfl := Outcome.ok.inj (Prod.mk.inj ((on_identify hident).symm.trans hx)).1
  refine throughout_looks_bind looks_findChain hq fun found hfound => ?_
  obtain rfl : chain = found := by
    have hfind := (on_findChain hident.logRegion).symm.trans hfound
    rw [hb.pending] at hfind
    exact Outcome.ok.inj (Prod.mk.inj hfind).1
  dsimp only
  have hrest : ∀ (n : Nat) (d : Device), n ≤ d.size → w.Recovers r l d →
    (∀ located : Located, located.header = w.header → located.slot = w.slot →
      located.replayed = !chain.isEmpty → FileThroughout (w.Recovers r l) (consumeLog located) d) →
        FileThroughout (w.Recovers r l) (openRest true w.header w.slot (n,!chain.isEmpty)) d := by
    intro n d hn hd hconsume
    refine throughout_looks_bind looks_settle hd fun located hsettle => ?_
    obtain ⟨-,-,-,-,hlocated⟩ := settle_eq_ok hn hsettle
    have hconsumed := hconsume located (by rw [hlocated]) (by rw [hlocated]) (by rw [hlocated])
    exact hconsumed.bind fun y d1 hrun => throughout_of_looks looks_loadDisk (hconsumed.finish hrun)
  cases hl with
  | clear hclear =>
    refine hrest e.size e le_rfl hq fun located _ _ hreplayed => ?_
    unfold consumeLog
    rw [if_neg (by simp [hreplayed])]
    exact .done hq
  | fronted front writes =>
    have hne : chain ≠ [] := by
      rintro rfl
      cases writes
    rw [if_neg (by simpa using hne),if_neg (by simp),Prog.bind_assoc]
    have hlogged : w.Logged r l chain := .fronted front writes
    have happly : FileThroughout (w.Recovers r l) (applyChain chain) e := throughout_applyChain fun m hm =>
      World.Stands.recovers ⟨regions,chain,hr,hb.partway hr hlogged hm,hlogged⟩
    refine happly.bind fun _ d1 hrun => ?_
    obtain ⟨hfits,-,rfl⟩ := on_applyChain_eq_ok hb.writable hrun
    have hthere : e.replayed chain = w.dev := hb.replayed
    rw [hthere]
    have hsame := hrest (replayedExtent e.size chain) w.dev ?_
      (World.Stands.recovers ⟨regions,chain,hr,hr.behind,hlogged⟩) fun located hheader hslot hreplayed =>
      front.throughout_consumeLog hr hne hnum hheader hslot (hreplayed.trans (by simpa using hne))
    · rw [show (!chain.isEmpty) = true by simpa using hne] at hsame
      exact hsame
    · rw [replayedExtent_eq hfits,hb.size,hr.place.extent]

end opens
end ImgVhdx
