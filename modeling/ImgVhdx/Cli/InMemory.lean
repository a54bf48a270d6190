import ImgVhdx.Cli.Overlay
import ImgVhdx.Reader.Reopen
import ImgVhdx.Reader.Total

/-! Opening an image under the overlay: the replay in memory and the replay in place make one image, and the file is
left as it was. -/
namespace ImgVhdx
open Lib DevProg ReaderProg

namespace Overlay

def isWritable (_ : Overlay) : Bool := true

/-- The calls of a reader whose device is an overlay. -/
def handleReader : (op : ReaderOp) → Overlay × World → op.Reply × Overlay × World
  | .dev op, (o,w) => ((handle op o).1,(handle op o).2,w)
  | op, (o,w) => ((World.handle op w).1,o,(World.handle op w).2)

end Overlay

/-- The command line's `open`: the file read-only, under an overlay that takes a log replay in memory. -/
def openImage [Crc32c] (base : Device) : Outcome Error (VhdxReader × ReaderState) × Overlay :=
  (openInner false (Overlay.new base).isWritable).run Overlay.handle (Overlay.new base)

section overlay
variable {α β : Type} {o o' : Overlay} {d : Device}

abbrev AlikeOver (p : DevProg α) (o : Overlay) (d : Device) : Prop :=
    p.Alike Overlay.handle Device.handle Overlay.Shows o d

theorem Overlay.Shows.handle (h : o.Shows d) {op : DevOp} (hop : op.KeepsLength) :
    (Overlay.handle op o).1 = (Device.handle op d).1 ∧ (Overlay.handle op o).2.Shows (Device.handle op d).2 := by
  cases op with
  | size => exact ⟨h.len,h⟩
  | read off len => exact ⟨h.readAt,h⟩
  | flush => exact ⟨rfl,h⟩
  | setLen n => cases hop
  | write off bs =>
    change (o.writeAt off bs).1 = (d.writeAt off bs).1 ∧ (o.writeAt off bs).2.Shows (d.writeAt off bs).2
    by_cases hin : off + bs.length ≤ d.size
    · obtain ⟨o',hrun,-,hshows⟩ := h.writeAt_of_le hin
      rw [hrun,Device.writeAt_of_le h.writable hin]
      exact ⟨rfl,hshows.mark true⟩
    · obtain ⟨ho,hd⟩ := h.writeAt_of_gt hin
      rw [ho,hd]
      exact ⟨rfl,h⟩

private theorem alike_of_keepsLength {p : DevProg α} (hp : KeepsLength p) (h : o.Shows d) : AlikeOver p o d :=
  hp.alike (fun _ _ _ hop hr => hr.handle hop) h

private theorem alike_of_looks {p : DevProg α} (hp : Looks p) (h : o.Shows d) : AlikeOver p o d :=
  alike_of_keepsLength (hp.mono fun _ => DevOp.Looks.keepsLength) h

private theorem alike_makeRoom {n : Nat} (h : o.Shows d) (h64 : n < 2^64) : AlikeOver (makeRoom n) o d := by
  refine (alike_of_looks looks_devSize h).bind fun size o1 d1 _ hd hshows => ?_
  obtain ⟨hsize,rfl⟩ := Prod.mk.inj hd
  obtain rfl := Outcome.ok.inj hsize
  split_ifs with hn
  · obtain ⟨hset,hgrown⟩ := hshows.setLen (Nat.le_of_lt hn) h64
    refine ⟨?_,?_⟩
    · simp [Prog.run,Overlay.handle,Device.handle,hset,Device.setLen,h.growable]
    · simpa [Prog.run,Overlay.handle,Device.handle,hset,Device.setLen,h.growable] using hgrown
  · exact ⟨rfl,hshows⟩

private theorem alike_applyChain {chain : List LogEntry} (h : o.Shows d) : AlikeOver (applyChain chain) o d := by
  refine (alike_of_looks looks_devSize h).bind fun size o1 d1 _ hd h1 => ?_
  obtain ⟨hsize,rfl⟩ := Prod.mk.inj hd
  obtain rfl := Outcome.ok.inj hsize
  refine (alike_of_looks looks_lift h1).bind fun _ o2 d2 _ _ h2 => ?_
  refine (alike_makeRoom h2 (allowedExtent_lt h.small)).bind fun _ o3 d3 _ _ h3 => ?_
  exact alike_of_keepsLength (Prog.Only.forEach keepsLength_applyEntry _) h3

variable [Crc32c]

/-- A whole open runs over the overlay as over the device. -/
theorem alike_openInner {writable rc : Bool} (h : o.Shows d) : AlikeOver (openInner writable rc) o d := by
  rw [openInner_split]
  refine (alike_of_looks looks_identify h).bind fun x o1 d1 _ _ h1 => (alike_of_looks looks_findChain h1).bind
    fun chain o2 d2 _ _ h2 => ?_
  refine Prog.Alike.bind ?_ fun y o3 d3 _ _ h3 => alike_of_keepsLength keepsLength_openRest h3
  split_ifs
  · exact ⟨rfl,h2⟩
  · exact (alike_applyChain h2).bind fun _ o3 d3 _ _ h3 => ⟨rfl,h3⟩
  · exact ⟨rfl,h2⟩

end overlay

section written
variable {α : Type} {o o' : Overlay}

private theorem Overlay.writePieces_keeps (buf : Bytes) (ps : List PagePiece) (o : Overlay) :
    (Overlay.writePieces buf ps o).2.base = o.base ∧ (Overlay.writePieces buf ps o).2.written = o.written := by
  induction ps generalizing o with
  | nil => exact ⟨rfl,rfl⟩
  | cons p ps ih =>
    rw [Overlay.writePieces]
    cases o.pageFor p.index with
    | error e => exact ⟨rfl,rfl⟩
    | ok bytes => exact ih _

/-- No call writes the base, and the mark a write leaves is never taken back. -/
private theorem Overlay.handle_keeps (op : DevOp) (o : Overlay) :
    (Overlay.handle op o).2.base = o.base ∧ (o.written = true → (Overlay.handle op o).2.written = true) := by
  cases op with
  | size => exact ⟨rfl,id⟩
  | read off len => exact ⟨rfl,id⟩
  | flush => exact ⟨rfl,id⟩
  | setLen n =>
    change (o.setLen n).2.base = o.base ∧ (_ → (o.setLen n).2.written = true)
    unfold Overlay.setLen
    split_ifs
    · exact ⟨rfl,id⟩
    · exact ⟨rfl,fun _ => rfl⟩
  | write off bs =>
    change (o.writeAt off bs).2.base = o.base ∧ (_ → (o.writeAt off bs).2.written = true)
    have hkeeps := Overlay.writePieces_keeps bs (pieces off bs.length) o
    unfold Overlay.writeAt
    cases o.bound off bs.length with
    | error e => exact ⟨rfl,id⟩
    | ok u =>
      dsimp only
      rcases hw : Overlay.writePieces bs (pieces off bs.length) o with ⟨_ | _,o'⟩
      · rw [hw] at hkeeps
        exact ⟨hkeeps.1,fun h => hkeeps.2.trans h⟩
      · rw [hw] at hkeeps
        exact ⟨hkeeps.1,fun _ => rfl⟩

private theorem Overlay.base_run (p : DevProg α) (o : Overlay) : (p.run Overlay.handle o).2.base = o.base :=
  p.only_any.keeps (I := fun x => x.base = o.base) (fun op s _ hs => (Overlay.handle_keeps op s).1.trans hs) rfl

private theorem Overlay.written_run {p : DevProg α} {x : Outcome Error α} (hrun : p.run Overlay.handle o = (x,o'))
    (h : o.written = true) :
    o'.written = true := by
  have hkeeps := p.only_any.keeps (h := Overlay.handle) (I := fun x => x.written = true)
    (fun op s _ hs => (Overlay.handle_keeps op s).2 hs) h
  rwa [hrun] at hkeeps

private theorem Overlay.written_looks {p : DevProg α} (hl : Looks p) (o : Overlay) :
    (p.run Overlay.handle o).2.written = o.written := by
  refine hl.view (fun op s hop => ?_) o
  cases op with
  | write off bs => cases hop
  | setLen n => cases hop
  | _ => rfl

/-- A part that only looks finds over the overlay what it would over the device, and leaves both. -/
private theorem looks_over {p : DevProg α} {d : Device} {x : Outcome Error α} (hl : Looks p) (h : o.Shows d)
    (hrun : p.run Overlay.handle o = (x,o')) :
    p.on d = (x,d) ∧ o'.Shows d ∧ o'.written = o.written := by
  obtain ⟨hret,hshows⟩ := alike_of_looks hl h
  have hd : (p.on d).2 = d := hl.view Device.faithful.looks d
  have hwritten := Overlay.written_looks hl o
  rw [hrun] at hret hshows hwritten
  exact ⟨Prod.ext hret.symm hd,hd ▸ hshows,hwritten⟩

/-- A write that was taken has marked the overlay. -/
private theorem Overlay.written_devWrite {off : Nat} {bs : Bytes} {f : FsError → Error}
    (h : (DevProg.devWrite off bs f).run Overlay.handle o = (.ok (),o')) : o'.written = true := by
  change (ofReply f (o.writeAt off bs).1).run Overlay.handle (o.writeAt off bs).2 = _ at h
  unfold Overlay.writeAt at h
  cases hb : o.bound off bs.length with
  | error e =>
    rw [hb] at h
    cases (Prod.mk.inj h).1
  | ok u =>
    rw [hb] at h
    dsimp only at h
    rcases hw : Overlay.writePieces bs (pieces off bs.length) o with ⟨_ | _,o1⟩
    · rw [hw] at h
      cases (Prod.mk.inj h).1
    · rw [hw] at h
      obtain rfl := (Prod.mk.inj h).2
      rfl

variable [Crc32c] {writable : Bool} {header : Header} {slot : HeaderSlot} {n : Nat}

/-- Where nothing was replayed the rest of an open only looks. -/
private theorem looks_openRest : Looks (openRest writable header slot (n,false)) := by
  unfold openRest settle
  simp only [Prog.bind_assoc,Prog.pure_eq,Prog.ok_bind,consumeLog,Bool.false_eq_true,if_false]
  exact looks_pickRegionTable.bind fun _ => looks_lift.bind fun _ => looks_lift.bind fun _ => looks_loadDisk

/-- Where a chain was replayed the header is rewritten. -/
private theorem written_openRest {x : VhdxReader × ReaderState}
    (h : (openRest writable header slot (n,true)).run Overlay.handle o = (.ok x,o')) :
    o'.written = true := by
  unfold openRest settle at h
  simp only [Prog.bind_assoc,Prog.pure_eq,Prog.ok_bind,consumeLog,if_true] at h
  obtain ⟨regions,o1,-,h⟩ := Prog.run_bind_eq_ok.mp h
  obtain ⟨_,o2,-,h⟩ := Prog.run_bind_eq_ok.mp h
  obtain ⟨_,o3,-,h⟩ := Prog.run_bind_eq_ok.mp h
  obtain ⟨_,o4,-,h⟩ := Prog.run_bind_eq_ok.mp h
  unfold rewriteHeaderClearLog at h
  simp only [Prog.bind_assoc,Prog.pure_eq,Prog.ok_bind] at h
  obtain ⟨_,o5,hwrite,h⟩ := Prog.run_bind_eq_ok.mp h
  exact Overlay.written_run h (Overlay.written_devWrite hwrite)

end written

section image
variable [Crc32c] {base : Device} {r : VhdxReader} {s : ReaderState} {o : Overlay} {w : World} {d : Device}

/-- The mark on the overlay is the chain that was replayed. -/
private theorem written_openInner {writable : Bool} (h : o.Shows d) (hclean : o.written = false) {o' : Overlay}
    (hrun : (openInner writable true).run Overlay.handle o = (.ok (r,s),o')) :
    o'.written = true ↔ ∃ header slot chain, FindsChain d header slot chain ∧ chain ≠ [] := by
  rw [openInner_split] at hrun
  obtain ⟨x,o1,hident,hrun⟩ := Prog.run_bind_eq_ok.mp hrun
  obtain ⟨chain,o2,hchain,hrun⟩ := Prog.run_bind_eq_ok.mp hrun
  obtain ⟨y,o3,hreplay,hrun⟩ := Prog.run_bind_eq_ok.mp hrun
  -- what was found over the overlay is what the device holds
  obtain ⟨hident',hshows1,hwritten1⟩ := looks_over looks_identify h hident
  obtain ⟨hchain',-,hwritten2⟩ := looks_over looks_findChain hshows1 hchain
  rw [hwritten1,hclean] at hwritten2
  have hfinds : FindsChain d x.2.1 x.2.2 chain := ⟨(identify_eq_ok hident').2.2,findChain_eq_ok hchain'⟩
  by_cases hemp : chain = []
  · subst hemp
    obtain ⟨hy,rfl⟩ := Prod.mk.inj hreplay
    obtain rfl := Outcome.ok.inj hy
    have hwritten3 := Overlay.written_looks (p := openRest writable x.2.1 x.2.2 (x.1,false)) looks_openRest o2
    rw [hrun,hwritten2] at hwritten3
    refine ⟨fun hw => absurd hw (by rw [hwritten3]; exact Bool.false_ne_true),fun ⟨_,_,_,hf,hne⟩ => ?_⟩
    exact absurd (hf.unique hfinds).2.2 hne
  · rw [if_neg (by simpa using hemp),if_neg (by simp)] at hreplay
    obtain ⟨_,o4,-,hreplay⟩ := Prog.run_bind_eq_ok.mp hreplay
    obtain ⟨hy,rfl⟩ := Prod.mk.inj hreplay
    obtain rfl := Outcome.ok.inj hy
    exact ⟨fun _ => ⟨_,_,_,hfinds,hemp⟩,fun _ => written_openRest hrun⟩

omit [Crc32c] in
/-- A read over the overlay returns what it returns over the device the overlay shows. -/
theorem Overlay.Shows.reads {α : Type} {p : ReaderProg α} {v : World} (hp : Reads p) (h : o.Shows w.dev)
    (hsize : v.devSize = w.devSize) (hbat : v.bat = w.bat) :
    (p.run Overlay.handleReader (o,v)).1 = (p.run World.handle w).1 ∧ (p.run Overlay.handleReader (o,v)).2.1 = o := by
  have halike : p.Alike Overlay.handleReader World.handle (fun x t => x = (o,v) ∧ t = w) (o,v) w := by
    refine hp.alike ?_ ⟨rfl,rfl⟩
    rintro op _ _ hop ⟨rfl,rfl⟩
    cases op with
    | dev op =>
      cases op with
      | size => exact ⟨h.len,rfl,rfl⟩
      | read off len => exact ⟨h.readAt,rfl,rfl⟩
      | flush => exact ⟨rfl,rfl,rfl⟩
      | write off bs => cases hop
      | setLen n => cases hop
    | loadSize => exact ⟨hsize,rfl,rfl⟩
    | loadBat i => exact ⟨congrArg (·[i]?) hbat,rfl,rfl⟩
    | lockSize => cases hop
    | unlockSize n => cases hop
    | lockHeader => cases hop
    | unlockHeader k x => cases hop
    | storeBat i e => cases hop
  exact ⟨halike.1,congrArg Prod.fst halike.2.1⟩

omit [Crc32c] in
private theorem finishOpen_writable (n : Nat) (header : Header) (slot : HeaderSlot) (regions : RegionTable)
    (p : DiskParameters) (b c : Bool) :
    finishOpen n header slot regions p c = finishOpen n header slot regions p b >>= fun x =>
    .done (.ok ({ x.1 with writable := c },x.2)) := by
  unfold finishOpen
  split_ifs <;> first
    | rfl
    | rw [Prog.bind_assoc]
      rfl

/-- Whether the reader may write is all that the two ways to open differ in. -/
private theorem openInner_writable (b c rc : Bool) :
    openInner c rc = openInner b rc >>= fun x => .done (.ok ({ x.1 with writable := c },x.2)) := by
  unfold openInner
  simp only [Prog.bind_assoc,finishOpen_writable _ _ _ _ _ b c]

omit [Crc32c] in
theorem Device.withMode_self (hw : base.writable = true) (hg : base.growable = true) : base.withMode true true = base :=
  Device.ext rfl rfl hw.symm hg.symm

private theorem findsChain_withMode {header : Header} {slot : HeaderSlot} {chain : List LogEntry} {b c : Bool} :
    FindsChain (base.withMode b c) header slot chain ↔ FindsChain base header slot chain := by
  constructor
  · rintro ⟨⟨before,h⟩,hpending⟩
    exact ⟨⟨before,h.large,h.identifier,h.picked,h.logVersion,h.logRegion,h.table,h.clear⟩,hpending⟩
  · rintro ⟨⟨before,h⟩,hpending⟩
    exact ⟨⟨before,h.large,h.identifier,h.picked,h.logVersion,h.logRegion,h.table,h.clear⟩,hpending⟩

/-- The file opened under the command line's overlay, and the same bytes opened in place, by whichever opener, on a
device that may be written and grown: both fail, and alike, or both open one image. The file under the overlay is not
written, and the overlay is marked just when the log held a chain to replay. -/
theorem in_memory_as_in_place (hsmall : base.size < 2^64) {p : DevProg (VhdxReader × ReaderState)}
    (hp : Opener (base.withMode true true) true p) :
    (openImage base).2.base = base ∧
    ((∃ e, (openImage base).1 = .err e ∧ (p.on (base.withMode true true)).1 = .err e) ∨
      ∃ r t s, (openImage base).1 = .ok (r,s) ∧ (p.on (base.withMode true true)).1 = .ok (t,s) ∧
      t = { r with writable := t.writable } ∧
        ((openImage base).2.written = true ↔ ∃ header slot chain, FindsChain base header slot chain ∧ chain ≠ []) ∧
        ∀ off len, ((readAt r off len).run Overlay.handleReader ((openImage base).2,s.start base)).1 =
            ((readAt t off len).run World.handle (s.start (p.on (base.withMode true true)).2)).1 ∧
          ((readAt r off len).run Overlay.handleReader ((openImage base).2,s.start base)).2.1.base = base) := by
  obtain ⟨c,rfl⟩ : ∃ c, p = openInner c true := by
    cases hp with
    | inner c => exact ⟨c,rfl⟩
    | onDevice => exact ⟨false,rfl⟩
    | rwOnDevice => exact ⟨true,openRwOnDevice_of_writable rfl⟩
  have hshows : (Overlay.new base).Shows (base.withMode true true) := Overlay.shows_new hsmall
  have hbase : (openImage base).2.base = base := Overlay.base_run _ _
  have halike : AlikeOver (openInner false true) (Overlay.new base) (base.withMode true true) := alike_openInner hshows
  have htotal : (openImage base).1 ≠ .panic :=
    (strict_openInner : Strict (openInner false true)).run_ne_panic (fun op _ => DevOp.granted_or_refused op _)
      (Overlay.new base)
  rw [openInner_writable false c true]
  simp only [on]
  rw [Prog.run_bind]
  refine ⟨hbase,?_⟩
  rcases ho : openImage base with ⟨x,o⟩
  rcases hd : (openInner false true).run Device.handle (base.withMode true true) with ⟨y,d⟩
  rw [ho] at hbase htotal
  unfold AlikeOver Prog.Alike at halike
  rw [show (openInner false true).run Overlay.handle (Overlay.new base) = (x,o) from ho,hd] at halike
  obtain ⟨rfl,hafter⟩ := halike
  dsimp only at hafter hbase htotal
  cases x with
  | panic => exact absurd rfl htotal
  | err e => exact .inl ⟨e,rfl,rfl⟩
  | ok x =>
    obtain ⟨r,s⟩ := x
    refine .inr ⟨r,{ r with writable := c },s,rfl,rfl,rfl,?_,fun off len => ?_⟩
    · rw [written_openInner hshows rfl ho]
      simp only [findsChain_withMode]
    · rw [readAt_passes off len c]
      obtain ⟨hreads,hleft⟩ := hafter.reads (w := s.start d) (v := s.start base) (reads_readAt (r := r) off len) rfl rfl
      refine ⟨hreads,?_⟩
      rw [hleft]
      exact hbase

end image

/-- A dirty image, looked at through the overlay and opened in place. -/
theorem in_memory_as_in_place_dirtied :
    letI := castagnoli
    let d := (dirtied ⟨4194304,⟨zeros logSectorSize,length_zeros _⟩⟩ 5242880).device
    (openImage d).2.base = d ∧ (openImage d).2.written = true ∧
    ∃ r t s, (openImage d).1 = .ok (r,s) ∧ ((openRwOnDevice (d.withMode true true)).on (d.withMode true true)).1 = .ok (t,s) ∧
      ∀ off len, ((readAt r off len).run Overlay.handleReader ((openImage d).2,s.start d)).1 =
        ((readAt t off len).run World.handle
          (s.start ((openRwOnDevice (d.withMode true true)).on (d.withMode true true)).2)).1 := by
  let := castagnoli
  intro d
  have hsize : d.size = 4194304 := Build.size_device
  have hmode : d.withMode true true = d := Device.withMode_self rfl rfl
  obtain ⟨s,hs,hrun,-⟩ := dirtied_openRw
  obtain ⟨hbase,⟨e,-,he⟩ | ⟨r,t,s',hr,ht,-,hwritten,hreads⟩⟩ :=
    in_memory_as_in_place (show d.size < 2^64 by omega) .rwOnDevice
  · rw [hmode,hrun] at he
    cases he
  · exact ⟨hbase,hwritten.mpr ⟨_,_,_,⟨hs.identified,hs.replays.pending⟩,List.cons_ne_nil _ _⟩,r,t,s',hr,ht,
      fun off len => (hreads off len).1⟩

end ImgVhdx
