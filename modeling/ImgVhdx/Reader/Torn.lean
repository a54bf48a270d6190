import ImgVhdx.Lib.Interrupted
import ImgVhdx.Reader.Served

/-! What the power being cut may leave of a write: a device some of whose sectors landed, a log broken off or taken by
an entry that the header does not know of, a header that is none, an entry of the BAT that only the log has. -/
namespace ImgVhdx
open Lib ReaderProg

namespace Device
variable {d : Device} {off n : Nat} {bs : Bytes} {landed : Nat → Bool}

/-- A write some of whose sectors landed is a whole write of other bytes. -/
theorem putSome_eq_put : d.putSome off bs landed = d.put off ((d.putSome off bs landed).bytes off bs.length) := by
  refine Device.ext rfl (funext fun i => ?_) rfl rfl
  by_cases hin : off ≤ i ∧ i < off + bs.length ∧ i < d.size
  · obtain ⟨k,rfl⟩ := Nat.exists_eq_add_of_le hin.1
    have hk : k < bs.length := by omega
    refine Eq.symm ((if_pos ⟨hin.1,by rw [length_bytes]; omega,hin.2.2,rfl⟩).trans ?_)
    rw [Nat.add_sub_cancel_left,List.getD_eq_getElem?_getD,getElem?_bytes,if_pos hk]
    rfl
  · refine (if_neg fun h => hin ⟨h.1,h.2.1,h.2.2.1⟩).trans (Eq.symm (if_neg fun h => hin ⟨h.1,?_,h.2.2.1⟩))
    have := h.2.1
    rwa [length_bytes] at this

/-- Where what it writes is there already, it does nothing. -/
private theorem putSome_of_same (h : (d.putSome off bs landed).bytes off bs.length = d.bytes off bs.length) :
    d.putSome off bs landed = d := by
  rw [putSome_eq_put,h]
  exact put_of_bytes (by rw [length_bytes])

theorem putSome_of_whole (h : (d.putSome off bs landed).bytes off bs.length = bs) :
    d.putSome off bs landed = d.put off bs := by
  rw [putSome_eq_put,h]

/-- Each of its sectors is the old one or the new one. -/
theorem sector_putSome (hoff : off % 512 = 0) {k : Nat} (hk : k % 512 = 0) (hin : k + 512 ≤ bs.length)
    (hsize : off + bs.length ≤ d.size) :
    slice ((d.putSome off bs landed).bytes off bs.length) k 512 = slice (d.bytes off bs.length) k 512 ∨
      slice ((d.putSome off bs landed).bytes off bs.length) k 512 = slice bs k 512 := by
  have hwhole : ∀ i, off + k ≤ i → i < off + k + 512 → i / 512 = (off + k) / 512 := by
    intro i hlo hhi
    omega
  rw [slice_bytes hin,slice_bytes hin]
  cases hland : landed ((off + k) / 512) with
  | false =>
    refine .inl (bytes_congr fun i hlo hhi => ?_)
    rw [byte_putSome,hwhole i hlo hhi,hland]
    rfl
  | true =>
    refine .inr ?_
    have hput : (d.putSome off bs landed).bytes (off + k) 512 = (d.put off bs).bytes (off + k) 512 := by
      refine bytes_congr fun i hlo hhi => ?_
      rw [byte_putSome,hwhole i hlo hhi,hland]
      rfl
    have hthere := bytes_put_same hsize
    rw [hput,← slice_bytes hin,hthere]

/-- Of zeros that land in part, a sector is the old one or zeros, wherever it is. -/
theorem sector_putSome_zeros (hoff : off % 512 = 0) {n k : Nat} (hn : n % 512 = 0) (hk : k % 512 = 0)
    (hsize : off + n ≤ d.size) :
    (d.putSome off (zeros n) landed).bytes k 512 = d.bytes k 512 ∨ (d.putSome off (zeros n) landed).bytes k 512 =
    zeros 512 := by
  have hlen : (zeros n).length = n := length_zeros _
  by_cases hin : off ≤ k ∧ k < off + n
  · obtain ⟨x,rfl⟩ := Nat.exists_eq_add_of_le hin.1
    have hroom : x + 512 ≤ (zeros n).length := by rw [hlen]; omega
    have hsides : slice ((d.putSome off (zeros n) landed).bytes off (zeros n).length) x 512 =
      slice (d.bytes off (zeros n).length) x 512 ∨
        slice ((d.putSome off (zeros n) landed).bytes off (zeros n).length) x 512 = slice (zeros n) x 512 :=
      sector_putSome hoff (by omega) hroom (by rwa [hlen])
    rwa [slice_bytes hroom,slice_bytes hroom,slice_zeros (by omega)] at hsides
  · exact .inl (bytes_congr fun i hlo hhi => byte_putSome_of_outside (by rw [hlen]; omega))

end Device

section torn
variable [Crc32c] {w : World} {off n : Nat} {bs : Bytes}

/-- Where a device holds bytes that store their own checksum: in the header slots, and at the front of the log of a
header in one of them, where the entry of a BAT update goes. -/
def Device.Guarded (d : Device) (span : Span) : Prop :=
  (∃ x : HeaderSlot, span = ⟨x.offset,headerSize⟩) ∨ ∃ x header, headerAt d d.size x = some header ∧
    span = ⟨header.logOffset.toNat,8192⟩

/-- What a call leaves that the power is cut in: any of the 512-byte sectors of a write. Where bytes that store their
own checksum are neither the old nor the new ones, the checksum is taken to fail. -/
def Device.torn : DevOp → Device → Device → Prop
  | .write off bs, d, e => d.writable = true ∧ off + bs.length ≤ d.size ∧ ∃ landed, e = d.putSome off bs landed ∧
      ∀ a n, d.Guarded ⟨a,n⟩ → off ≤ a → a + n ≤ off + bs.length →
        e.bytes a n = d.bytes a n ∨ e.bytes a n = (d.put off bs).bytes a n ∨ ¬ Sealed (e.bytes a n)
  | _, _, _ => False

/-- A write of just such bytes: the old ones are there, the new ones, or ones that fail their checksum. -/
theorem Device.torn.whole {d e : Device} (h : Device.torn (.write off bs) d e) (hg : d.Guarded ⟨off,bs.length⟩) :
    e.bytes off bs.length = d.bytes off bs.length ∨ e.bytes off bs.length = bs ∨ ¬ Sealed (e.bytes off bs.length) := by
  obtain ⟨-,hin,landed,-,hguard⟩ := h
  have hspan := hguard off bs.length hg le_rfl le_rfl
  rwa [Device.bytes_put_same hin] at hspan

/-- A call of the reader is cut where its device is. -/
def World.torn : ReaderOp → World → World → Prop
  | .dev op, w, m => ∃ e, Device.torn op w.dev e ∧ m = { w with dev := e }
  | _, _, _ => False

def ReaderOp.Idle : ReaderOp → Prop
  | .dev (.write _ _) | .dev (.setLen _) => False
  | _ => True

omit [Crc32c] in
private theorem ReaderOp.Idle.dev_handle {op : ReaderOp} (h : op.Idle) : (w.handle op).2.dev = w.dev := by
  cases op with
  | dev op => cases op <;> first | rfl | exact h.elim
  | _ => rfl

abbrev DeviceThroughout {α : Type} (Q : Device → Prop) (p : ReaderProg α) (w : World) : Prop :=
  p.Throughout World.handle World.torn (fun m => Q m.dev) w

variable {Q : Device → Prop} {α β : Type}

theorem throughout_of_idle {p : ReaderProg α} (hp : p.Only ReaderOp.Idle) (hq : Q w.dev) : DeviceThroughout Q p w := by
  refine hp.throughout (fun op s hop hs => by rwa [hop.dev_handle]) (fun op s m hop _ hm => ?_) hq
  cases op with
  | dev op =>
    obtain ⟨e,he,-⟩ := hm
    cases op <;> first | exact he.elim | exact hop.elim
  | _ => exact hm.elim

/-- A part that leaves the device, and what comes after it. -/
theorem throughout_idle_bind {p : ReaderProg α} {f : α → ReaderProg β} (hp : p.Only ReaderOp.Idle) (hq : Q w.dev)
    (hf : ∀ a w1, p.run World.handle w = (.ok a,w1) → DeviceThroughout Q (f a) w1) : DeviceThroughout Q (p >>= f) w :=
  .bind (throughout_of_idle hp hq) hf

theorem throughout_devWrite (hq : Q w.dev) (hmid : ∀ m, World.torn (.dev (.write off bs)) w m → Q m.dev) :
    DeviceThroughout Q (devWrite off bs) w := by
  refine .call hq hmid ?_
  have hafter : Q (w.dev.writeAt off bs).2 := by
    rcases w.dev.writeAt_cases off bs with ⟨e,he⟩ | ⟨hw,hin,he⟩
    · rwa [he]
    · rw [he]
      exact hmid { w with dev := w.dev.put off bs } ⟨_,⟨hw,hin,fun _ => true,rfl,fun _ _ _ _ _ => .inr (.inl rfl)⟩,rfl⟩
  generalize (w.handle (.dev (.write off bs))).1 = reply
  rcases reply with e | ⟨⟩
  · exact .done hafter
  · exact .done hafter

private theorem throughout_devSetLen (hq : Q w.dev) (hset : w.dev.growable = true → Q (w.dev.resize n)) :
    DeviceThroughout Q (devSetLen n) w := by
  refine .call hq (fun m hm => hm.elim fun _ he => he.1.elim) ?_
  have hafter : Q (w.dev.setLen n).2 := by
    rcases w.dev.setLen_cases n with ⟨-,he⟩ | ⟨hg,he⟩
    · rwa [he]
    · rw [he]
      exact hset hg
  generalize (w.handle (.dev (.setLen n))).1 = reply
  rcases reply with e | ⟨⟩
  · exact .done hafter
  · exact .done hafter

end torn

section extended
variable [Crc32c] {r : VhdxReader} {l : Layout} {w w0 : World} {i n m : Nat} {bat : List BatEntry}

omit [Crc32c] in
/-- The zeros of a block are there as soon as the file has grown. -/
private theorem World.Ready.resize_eq (h : w.Ready r) (hn : w.devSize + (r.blockSize - 1) < 2^64) :
    w.dev.resize (tailOffset r w.devSize + r.blockSize) = (w.extended r).dev := by
  refine (Device.put_of_bytes ?_).symm
  rw [length_zeros]
  refine (Device.bytes_eq_iff (length_zeros _)).mpr fun k hk => ?_
  have hle := (tailOffset_spec hn).1
  refine Eq.trans (b := 0) ?_ (by simp [zeros])
  unfold Device.resize
  dsimp only
  split_ifs
  · exact w.dev.blank _ (by rw [h.size]; omega)
  · rfl

theorem World.LogState.extended (h : World.LogState r l w0 w) (hready : w.Ready r) (hp : w.Placed r l)
    (hn : w.devSize + (r.blockSize - 1) < 2^64) :
    World.LogState r l w0 (w.extended r) := by
  have hle : w.devSize ≤ (w.extended r).devSize := (tailOffset_spec hn).1.trans (Nat.le_add_right _ _)
  have hbytes : (w.extended r).dev.bytes l.log.start l.log.len = w.dev.bytes l.log.start l.log.len := by
    rcases hp.logInside with hlen | hin
    · rw [hlen]
      rfl
    · exact Device.bytes_congr fun k _ hhi => World.byte_extended_of_lt hready hn (hhi.trans_le hin)
  cases h with
  | untouched header same => exact .untouched header (hbytes.trans same)
  | fronted g n i s header journals later inside entry fits room log sector =>
    refine .fronted g n i s header journals later (inside.trans hle) entry fits (room.trans hle) (hbytes.trans log)
      (Eq.trans ?_ sector)
    exact Device.bytes_congr fun k _ hhi => World.byte_extended_of_lt hready hn (hhi.trans_le room)

/-- A session goes on where room was made for a block that nothing names yet. -/
theorem World.Session.extended (h : World.Session r l w0 w) (hready : w.Ready r) (hi : i < w.bat.length)
    (hn : w.devSize + (r.blockSize - 1) < 2^64) :
    World.Session r l w0 (w.extended r) := by
  have hle : w.devSize ≤ (w.extended r).devSize := (tailOffset_spec hn).1.trans (Nat.le_add_right _ _)
  exact {
    steps := h.steps.tail (h.placed.step_extended hready hi hn)
    placed := h.placed.extended hn
    grown := h.grown.trans hle
    entries := h.entries
    sound := h.sound.mono hle
    megabytes := h.megabytes
    stored := fun j hj => by
      have hsame : (w.extended r).dev.bytes (entryOffset r j) batEntrySize =
        w.dev.bytes (entryOffset r j) batEntrySize :=
        Device.bytes_congr fun k _ hhi => World.byte_extended_of_lt hready hn (hhi.trans_le (hready.bat j hj))
      rw [hsame]
      exact h.stored j hj
    headed := h.headed.kept (hready.slotsKept_extended hn)
    rotated := h.rotated
    number := h.number
    log := h.log.extended hready h.placed hn }

theorem World.Session.blockByte_extended (h : World.Session r l w0 w) (hready : w.Ready r)
    (hn : w.devSize + (r.blockSize - 1) < 2^64) (j : Nat) {k : Nat} (hk : k < r.blockSize) :
    (w.extended r).blockByte j k = w.blockByte j k := by
  refine World.blockByte_congr (by rfl) fun off hp => World.byte_extended_of_lt hready hn ?_
  have hin := h.sound.inside _ hp.mem rfl
  dsimp only at hin
  omega

end extended

section front
variable [Crc32c] {r : VhdxReader} {l : Layout} {w w0 : World} {i : Nat} {s : Sector} {log : Bytes} {header : Header}

/-- The front of the log is quiet under this header, and past it no slot carries the GUID of the header or of one that
comes after it. -/
structure ClearOf (log : Bytes) (h : Header) : Prop where
  front : QuietFront (slice log 0 8192) h.logGuid
  past : ∀ k, Unstamped log (rotatedHeader^[k] h).logGuid 8192

omit [Crc32c] in
/-- So is a log that was erased. -/
theorem clearOf_zeros (n : Nat) : ClearOf (zeros n) header where
  front := by
    have hsig : ∀ pos, slice (slice (zeros n) 0 8192) pos 4 ≠ logEntrySignature := fun pos he => by
      have hfirst := congrArg (·[0]?) he
      simp only [getElem?_slice,zeros,List.getElem?_replicate] at hfirst
      have hbyte : logEntrySignature[0]? = some 108 := rfl
      rw [hbyte] at hfirst
      split_ifs at hfirst
      exact absurd (Option.some.inj hfirst) (by decide)
    exact ⟨fun hs => absurd hs.1 (hsig 0),fun hs => hsig 4096 hs.1⟩
  past _ := unstamped_zeros _ _ _

theorem oneLogged_log_free :
    ClearOf ((oneLogged 5).device.bytes (oneLoggedLayout 5).log.start (oneLoggedLayout 5).log.len)
    (oneLoggedState 5).header := by
  rw [oneLogged_log_zeros]
  exact clearOf_zeros _

omit [Crc32c] in
/-- And one with a quiet front over it. -/
theorem ClearOf.splice_front (h : ClearOf log header) (k : Nat) {front : Bytes}
    (hquiet : QuietFront front (rotatedHeader^[k] header).logGuid) (hfront : front.length = 8192)
    (hlen : 8192 ≤ log.length) : ClearOf (splice log 0 front) (rotatedHeader^[k] header) where
  front := by rwa [slice_splice_same (by omega) hfront.symm]
  past j := by
    rw [← Function.iterate_add_apply]
    exact (h.past (j + k)).behind_front hfront hlen

omit [Crc32c] in
/-- Each rotation gives the log another GUID. -/
private theorem rotated_logGuid_ne (hseq : header.sequenceNumber.toNat + 1 < 2^64) :
    (rotatedHeader header).logGuid ≠ header.logGuid := by
  intro he
  have hback : ComesBack header.logGuid header.sequenceNumber.toNat 1 :=
    (rotated_eq_iff (f := Header.logGuid) (fun _ => rfl) Nat.one_pos hseq).mp he
  rcases hback.1 with ⟨-,hn⟩ | ⟨-,hn⟩
  · exact absurd hn (by decide)
  · exact absurd hn (by decide)

/-- Past its front the log is what it was at first. -/
theorem World.LogState.splice_front (h : World.LogState r l w0 w) (hlen : 8192 ≤ l.log.len) {front : Bytes}
    (hfront : front.length = 8192) :
    splice (w.dev.bytes l.log.start l.log.len) 0 front = splice (w0.dev.bytes l.log.start l.log.len) 0 front := by
  cases h with
  | untouched _ same => rw [same]
  | fronted g n i s _ _ _ _ _ _ _ log _ =>
    rw [log,splice_splice_same (by rw [length_journalEntry,Device.length_bytes]; omega)
      (by rw [length_journalEntry,hfront])]

/-- And its front is quiet. -/
theorem World.LogState.quiet (h : World.LogState r l w0 w) (hlen : 8192 ≤ l.log.len)
    (hclear : ClearOf (w0.dev.bytes l.log.start l.log.len) w0.header) :
    QuietFront (w.dev.bytes l.log.start 8192) w.header.logGuid := by
  have hslice : ∀ v : World, v.dev.bytes l.log.start 8192 = slice (v.dev.bytes l.log.start l.log.len) 0 8192 :=
    fun v => (Device.slice_bytes_front hlen).symm
  cases h with
  | untouched header same =>
    rw [hslice,same,header]
    exact hclear.front
  | fronted g n i s header _ _ _ _ _ _ log _ =>
    rw [hslice,log,slice_splice_same (by rw [length_journalEntry,Device.length_bytes]; omega) length_journalEntry.symm]
    exact quietFront_of_encoded journalEntry_isEncoded (encodedLength_single _)

/-- A front broken off by the next entry, or taken by it, is quiet. -/
theorem World.Session.quiet_broken (h : World.Session r l w0 w) (hn : ¬ noJournal w.header)
    (hclear : ClearOf (w0.dev.bytes l.log.start l.log.len) w0.header) {n off : Nat} {front : Bytes}
    (h0 : slice front 0 512 = slice (w.dev.bytes l.log.start 8192) 0 512 ∨
      slice front 0 512 = slice (journalEntry w.header n off s) 0 512)
    (h8 : slice front 4096 512 = slice (w.dev.bytes l.log.start 8192) 4096 512 ∨
      slice front 4096 512 = slice (journalEntry w.header n off s) 4096 512) :
    QuietFront front w.header.logGuid :=
  (h.log.quiet (h.placed.front hn).2 hclear).mixed
    (quietFront_of_encoded journalEntry_isEncoded (encodedLength_single _)) h0 h8

/-- The next entry carries the next GUID. -/
theorem unstamped_journalEntry {n off : Nat} (hseq : header.sequenceNumber.toNat + 1 < 2^64) :
    ¬ Stamped (journalEntry header n off s) header.logGuid 0 := by
  intro hs
  have henc : IsEncoded _ 0 (rotatedHeader header).logGuid _ _ _ (journalEntry header n off s) := journalEntry_isEncoded
  exact rotated_logGuid_ne hseq (Subtype.ext (henc.logGuid.symm.trans hs.2))

end front

section programs
variable [Crc32c] {r : VhdxReader} {w w1 : World} {i n off : Nat} {s : Sector} {Q : Device → Prop} {bs : Bytes}

omit [Crc32c] in
theorem ReaderOp.Reads.idle {op : ReaderOp} (h : op.Reads) : op.Idle := by
  cases op with
  | dev op => cases op <;> first | exact h.elim | trivial
  | _ => trivial

omit [Crc32c] in
theorem idle_devFlush : devFlush.Only ReaderOp.Idle := ⟨trivial,fun x => by cases x <;> trivial⟩

omit [Crc32c] in
private theorem idle_devRead : (devRead off n).Only ReaderOp.Idle := ⟨trivial,fun x => by cases x <;> trivial⟩

omit [Crc32c] in
private theorem devSetLen_run {u : Unit} (h : (devSetLen n).run World.handle w = (.ok u,w1)) :
    w1 = { w with dev := w.dev.resize n } := by
  cases hr : (w.handle (.dev (.setLen n))).1 with
  | error e =>
    simp only [devSetLen,Prog.run,hr] at h
    cases (Prod.mk.inj h).1
  | ok u =>
    simp only [devSetLen,Prog.run,hr] at h
    rw [← (Prod.mk.inj h).2]
    change ({ w with dev := (w.dev.setLen n).2 } : World) = _
    rcases w.dev.setLen_cases n with ⟨-,he⟩ | ⟨-,he⟩
    · have : (w.dev.setLen n).1 = .ok u := hr
      rw [he] at this
      cases this
    · rw [he]

/-- A part that gives back what it holds before an error leaves it. -/
private theorem throughout_releasing {α : Type} {p : ReaderProg α} {release : ReaderProg Unit}
    (hp : DeviceThroughout Q p w) (hrel : release.Only ReaderOp.Idle) :
    DeviceThroughout Q (p.releasing release) w := .releasing hp fun _ _ hrun => throughout_of_idle hrel (hp.finish hrun)

/-- The room for a block: the file as it was, or longer. -/
theorem throughout_claimTail (h : w.Ready r) (hq : Q w.dev)
    (hext : w.devSize + (r.blockSize - 1) < 2^64 → tailOffset r w.devSize + r.blockSize < 2^64 → Q (w.extended r).dev) :
    DeviceThroughout Q (claimTail r) w := by
  unfold claimTail
  refine throughout_idle_bind ⟨trivial,fun _ => trivial⟩ hq fun a w1 hrun => ?_
  obtain ⟨ha,rfl⟩ := Prod.mk.inj hrun
  obtain rfl := Outcome.ok.inj ha
  refine .lift_bind hq fun padded hpads => ?_
  obtain ⟨hn,rfl⟩ := Outcome.u64_eq_ok.mp hpads
  refine .lift_bind hq fun m hm => ?_
  obtain ⟨hroom,rfl⟩ := Outcome.u64_eq_ok.mp hm
  change DeviceThroughout Q (Prog.releasing (devSetLen (tailOffset r w.devSize + r.blockSize))
    (unlockSize w.devSize) >>= fun _ =>
    unlockSize (tailOffset r w.devSize + r.blockSize) >>= fun _ => devWrite (tailOffset r w.devSize)
      (zeros r.blockSize) >>= fun _ =>
      devFlush >>= fun _ => pure (tailOffset r w.devSize)) { w with sizeHeld := true }
  have hgrown := h.resize_eq hn
  have hq1 := hext hn hroom
  refine .bind (throughout_releasing (throughout_devSetLen hq fun _ => hgrown ▸ hq1) ⟨trivial,fun _ => trivial⟩)
    fun _ w1 hrun => ?_
  obtain rfl := devSetLen_run (Prog.run_releasing_eq_ok.mp hrun)
  refine throughout_idle_bind ⟨trivial,fun _ => trivial⟩ (hgrown ▸ hq1) fun _ w2 hrun => ?_
  obtain ⟨-,rfl⟩ := Prod.mk.inj hrun
  refine .bind (throughout_devWrite (hgrown ▸ hq1) fun m hm => ?_) fun _ w3 hrun =>
    throughout_of_idle (idle_devFlush.bind fun _ => trivial) ?_
  · obtain ⟨_,⟨-,hin,landed,rfl,-⟩,rfl⟩ := hm
    change Q ((w.dev.resize (tailOffset r w.devSize + r.blockSize)).putSome (tailOffset r w.devSize)
      (zeros r.blockSize) landed)
    rw [Device.putSome_of_same ?_,hgrown]
    · exact hq1
    · refine Device.bytes_congr fun k _ _ => ?_
      rw [Device.byte_putSome,show (w.dev.resize _).put _ _ = (w.extended r).dev from rfl,hgrown,ite_self]
  · obtain ⟨-,-,rfl⟩ := devWrite_run.mp hrun
    exact hq1

/-- A journalled sector: nothing of it, part of its entry, or part of the header that goes with it. -/
theorem throughout_journalSectorWrite (hq : Q w.dev)
    (hentry : ¬ noJournal w.header → ∀ m,
      World.torn (.dev (.write w.header.logOffset.toNat (journalEntry w.header w.devSize off s)))
      { w with headerHeld := true } m → Q m.dev)
    (hheader : ¬ noJournal w.header → ∀ m,
      World.torn (.dev (.write w.slot.other.offset (encodeHeader (rotatedHeader w.header))))
      { w with dev := w.dev.put w.header.logOffset.toNat (journalEntry w.header w.devSize off s), headerHeld := true }
        m → Q m.dev) :
    DeviceThroughout Q (journalSectorWrite off s.1) w := by
  unfold journalSectorWrite
  rw [dif_pos s.2]
  refine throughout_idle_bind ⟨trivial,fun _ => trivial⟩ hq fun a w1 hrun => ?_
  obtain ⟨ha,rfl⟩ := Prod.mk.inj hrun
  obtain rfl := Outcome.ok.inj ha
  change DeviceThroughout Q (if noJournal w.header then _ else _) _
  by_cases hn : noJournal w.header
  · rw [if_pos hn]
    exact throughout_of_idle ⟨trivial,fun _ => trivial⟩ hq
  rw [if_neg hn]
  refine throughout_idle_bind ⟨trivial,fun _ => trivial⟩ hq fun a w1 hrun => ?_
  obtain ⟨ha,rfl⟩ := Prod.mk.inj hrun
  obtain rfl := Outcome.ok.inj ha
  change DeviceThroughout Q (if (journalEntry w.header w.devSize off s).length > w.header.logLength.toNat then _ else _) _
  rw [if_neg (journalEntry_fits hn)]
  have hwrites : DeviceThroughout Q (devWrite w.header.logOffset.toNat (journalEntry w.header w.devSize off s) >>= fun _ =>
      devFlush >>= fun _ => devWrite w.slot.other.offset (encodeHeader (rotatedHeader w.header)) >>= fun _ => devFlush)
      { w with headerHeld := true } := by
    have hfirst : DeviceThroughout Q (devWrite w.header.logOffset.toNat (journalEntry w.header w.devSize off s))
      { w with headerHeld := true } :=
      throughout_devWrite hq (hentry hn)
    refine .bind hfirst fun _ w1 hrun => ?_
    have hthere := hfirst.finish hrun
    obtain ⟨-,-,rfl⟩ := devWrite_run.mp hrun
    refine throughout_idle_bind idle_devFlush hthere fun _ w2 hrun => ?_
    obtain ⟨-,rfl⟩ := Prod.mk.inj hrun
    have hsecond := throughout_devWrite hthere (hheader hn)
    exact .bind hsecond fun _ w3 hrun => throughout_of_idle idle_devFlush (hsecond.finish hrun)
  have hgives : (unlockHeader w.header w.slot).Only ReaderOp.Idle := ⟨trivial,fun _ => trivial⟩
  have hguarded := throughout_releasing hwrites hgives
  exact hguarded.bind fun _ w1 hrun => throughout_of_idle ⟨trivial,fun _ => trivial⟩ (hguarded.finish hrun)

/-- An entry published: its journal, its sector in part, or all of it. -/
theorem throughout_publishEntry (h : w.Ready r) (hi : i < w.bat.length) (hf : EntryFits r i) (hq : Q w.dev)
    (hs : s.1 = spliceEntry r i off (w.dev.bytes (sectorOffset r i) logSectorSize))
    (hjournal : DeviceThroughout Q (journalSectorWrite (sectorOffset r i) s.1) w)
    (hsector : ∀ m, World.torn (.dev (.write (sectorOffset r i) s.1)) (w.logEntry (sectorOffset r i) s) m → Q m.dev) :
    DeviceThroughout Q (publishEntry r i off) w := by
  have hentry := h.entry_lt hi
  unfold publishEntry
  refine .lift_bind hq fun a ha => ?_
  obtain ⟨-,rfl⟩ := Outcome.u64_eq_ok.mp ha
  refine .lift_bind hq fun b hb => ?_
  obtain ⟨-,rfl⟩ := Outcome.u64_eq_ok.mp hb
  change DeviceThroughout Q (devRead (sectorOffset r i) logSectorSize >>= fun sector => Prog.lift (copyFromSlice sector
    (entryOffset r i - sectorOffset r i) (entryOffset r i - sectorOffset r i + 8) (toLE 8 (presentRaw off))) >>= fun sector =>
      journalSectorWrite (sectorOffset r i) sector >>= fun _ => devWrite (sectorOffset r i) sector >>= fun _ =>
        devFlush >>= fun _ =>
        storeBat i (.fromU64 (presentRaw off)) >>= fun inside => if inside then pure off else .done .panic) w
  refine throughout_idle_bind idle_devRead hq fun sector w1 hrun => ?_
  obtain ⟨hw1,hread⟩ : w1 = w ∧ sector = w.dev.bytes (sectorOffset r i) logSectorSize := by
    by_cases hin : sectorOffset r i + logSectorSize ≤ w.dev.size
    · have hok := (runs_devRead hin).run_eq
      obtain ⟨ha,rfl⟩ := Prod.mk.inj (hok.symm.trans hrun)
      exact ⟨rfl,(Outcome.ok.inj ha).symm⟩
    · have hr : (w.handle (.dev (.read (sectorOffset r i) logSectorSize))).1 = .error _ := if_neg hin
      simp only [devRead,Prog.run,hr] at hrun
      cases (Prod.mk.inj hrun).1
  rw [hw1,hread]
  refine .lift_bind hq fun sector hcopy => ?_
  have hwhole : (copyFromSlice (w.dev.bytes (sectorOffset r i) logSectorSize) (entryOffset r i - sectorOffset r i)
      (entryOffset r i - sectorOffset r i + 8) (toLE 8 (presentRaw off)) : Outcome Error Bytes) = .ok s.1 := by
    rw [hs]
    exact copyFromSlice_of_le (congrArg _ (length_toLE _ _))
      (by rw [Device.length_bytes,entryOffset_sub hentry]; exact hf)
  obtain rfl := Outcome.ok.inj (hwhole.symm.trans hcopy)
  refine hjournal.bind fun _ w2 hrun => ?_
  have hlogged := hjournal.finish hrun
  obtain ⟨-,rfl⟩ := Prod.mk.inj ((journalSectorWrite_run h s.2).symm.trans hrun)
  have hwrite := throughout_devWrite hlogged hsector
  refine hwrite.bind fun _ w3 hrun => ?_
  have hnamed := hwrite.finish hrun
  refine throughout_idle_bind idle_devFlush hnamed fun _ w4 hrun => ?_
  obtain ⟨-,rfl⟩ := Prod.mk.inj hrun
  refine throughout_of_idle (Prog.Only.bind ⟨trivial,fun _ => trivial⟩ fun inside => ?_) hnamed
  cases inside
  · trivial
  · trivial

end programs

end ImgVhdx
