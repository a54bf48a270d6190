import ImgVhdx.Cli.InMemory
import ImgVhdx.Reader.Torn

/-! What a session of writes leaves pending: nothing, where the image keeps no log or no block was allocated, and
otherwise an entry that turns away whoever cannot write the file, and that the command line calls dirty. -/
namespace ImgVhdx
open Lib DevProg ReaderProg

section counted
variable [Crc32c] {r : VhdxReader} {l : Layout} {w w0 : World} {n : Nat}

structure World.Counted (w0 w : World) (n : Nat) : Prop where
  absent : (w.bat.countP fun e => e.state.zeroFill) + n = w0.bat.countP fun e => e.state.zeroFill
  same : n = 0 → w.bat = w0.bat
  header : w.header = if noJournal w0.header then w0.header else rotatedHeader^[n] w0.header

private theorem World.Ready.header_rotated {c : BlockChunk} (h : w.Ready r) (ht : w.Takes r c)
    (hi : c.batIdx < w.bat.length) (ha : w.Absent c.batIdx) (hn : ¬ noJournal w.header) (src : Bytes) :
    (w.wrote r c src).header = rotatedHeader w.header := by
  obtain ⟨s,-,hwrote⟩ := ha.wrote_named (h.entry_lt hi) (ha.grants ht).fits src
  have hlogged : (w.extended r).logEntry (sectorOffset r c.batIdx) s =
    (w.extended r).journalled (sectorOffset r c.batIdx) s := if_neg hn
  rw [hwrote,hlogged]
  rfl

theorem World.Counted.keptByPieces : KeptByPieces r fun w => ∃ n, w0.Counted w n := by
  rintro w c src hready ⟨n,h⟩ ht hi
  rcases ht with ⟨off,hp,hin⟩ | ⟨ha,hg⟩
  · rw [hp.wrote_eq]
    exact ⟨n,h.absent,h.same,h.header⟩
  have hcount : ((w.bat.set c.batIdx ⟨.fullyPresent,tailOffset r w.devSize⟩).countP fun e => e.state.zeroFill) = _ :=
    ha.countP_set hi
  have hpos := ha.countP_pos
  have habsent := h.absent
  have hbat := World.Absent.bat_wrote ha hready hg hi src
  refine ⟨n + 1,?_,fun h0 => absurd h0 (Nat.succ_ne_zero n),?_⟩
  · rw [hbat,hcount]
    omega
  · have hheader := h.header
    by_cases hn : noJournal w0.header
    · rw [if_pos hn] at hheader ⊢
      rw [(World.header_wrote_of_skip (.inr ⟨ha,hg⟩) (fun hrot => hrot.2 (hheader ▸ hn)) src).1,hheader]
    · rw [if_neg hn] at hheader ⊢
      have hjournals : ¬ noJournal w.header := by
        rw [hheader,noJournal_rotated]
        exact hn
      rw [hready.header_rotated (.inr ⟨ha,hg⟩) hi ha hjournals,hheader,Function.iterate_succ_apply']

omit [Crc32c] in
/-- The header moved on just where there is a log and the BAT changed. -/
private theorem World.Counted.header_eq_iff (h : w0.Counted w n) (hnum : w0.number < 2^64) :
    w.header = w0.header ↔ noJournal w0.header ∨ w.bat = w0.bat := by
  have habsent := h.absent
  have hheader := h.header
  by_cases hn : noJournal w0.header
  · rw [if_pos hn] at hheader
    exact ⟨fun _ => .inl hn,fun _ => hheader⟩
  rw [if_neg hn] at hheader
  constructor
  · intro he
    have hle : w0.header.sequenceNumber.toNat + n < 2^64 := by
      unfold World.number at hnum
      omega
    have hseq := sequenceNumber_rotated hle
    rw [← hheader,he] at hseq
    exact .inr (h.same (by omega))
  · rintro (hno | hbat)
    · exact absurd hno hn
    · rw [hbat] at habsent
      obtain rfl : n = 0 := by omega
      exact hheader

end counted

section session
variable [Crc32c] {r : VhdxReader} {l : Layout} {w : World} {d d' : Device} {s : ReaderState} {regions : RegionTable}
  {chain : List LogEntry}

/-- Whoever cannot write the file is let in just where nothing is pending. -/
private theorem World.Restartable.opened_readOnly (h : w.Restartable r l regions chain) (growable : Bool) :
    (openOnDevice (w.dev.withMode false growable)).on (w.dev.withMode false growable) =
      (if chain = [] then .ok ({ r with writable := false },w.restarted []) else .err .logNeedsReplay,
        w.dev.withMode false growable) := by
  have hident : Identified (w.dev.withMode false growable) w.header w.slot regions :=
    ⟨h.identified.large,h.identified.identifier,h.identified.picked,h.identified.logVersion,h.identified.logRegion,
      h.identified.table,h.identified.clear⟩
  have hpending : pendingChain (w.dev.withMode false growable) w.header = .ok chain := h.place.pending
  change (openInner false false).on _ = _
  by_cases hemp : chain = []
  · subst hemp
    have hloads : (loadDisk w.dev.size w.header w.slot regions false).on (w.dev.withMode false growable) =
        (.ok ({ r with writable := false },w.restarted []),w.dev.withMode false growable) := by
      rw [on_withMode looks_loadDisk,h.housed.loads w.header w.slot false,← World.stored_iff.mp h.stored]
      rfl
    have hopened : Opened (w.dev.withMode false growable) false false w.header w.slot [] regions
      { r with writable := false } (w.restarted []) := {
      identified := ⟨regions,hident⟩
      replays := ⟨hpending,fun hne => absurd rfl hne,fun hne => absurd rfl hne⟩
      capable hne := absurd rfl hne
      table := by
        rw [Device.replayed_nil]
        exact hident.table
      known := h.housed.known
      clear := hident.clear
      loads := by
        rw [Device.replayed_nil]
        exact hloads }
    rw [if_pos rfl]
    exact hopened.on_openInner fun hne => absurd rfl hne
  · rw [if_neg hemp,openInner_split]
    simp only [on]
    rw [Prog.run_bind_of_ok (on_identify hident),Prog.run_bind,show (findChain _ _).run _ _ = _ from
      on_findChain hident.logRegion,hpending]
    dsimp only
    rw [if_neg (by simpa using hemp),if_pos (by simp)]
    rfl

private theorem growable_keptByPieces : KeptByPieces r fun w => w.dev.growable = true := by
  intro w c src hready hgrow ht hi
  rcases ht with ⟨off,hp,-⟩ | ⟨ha,-⟩
  · rw [hp.wrote_eq]
    exact hgrow
  · rw [ha.wrote_eq]
    exact World.growable_granted.trans hgrow

/-- After any writes to a soundly opened image: a reader that cannot write the file is let in, and the command line
calls the image clean, if the image keeps no log or no block was allocated; otherwise the one is told that the log
needs replay, and the other says dirty. -/
theorem pending_after_session_iff (h : SoundlyOpened r l d s d') (hgrow : d.growable = true)
    (hreach : Reached r (s.start d') w) (hnum : (s.start d').number + 1 < 2^64)
    (hclear : ClearOf (d'.bytes l.log.start l.log.len) s.header) :
    (∃ t, ((openOnDevice (w.dev.withMode false false)).on (w.dev.withMode false false)).1 =
        if noJournal s.header ∨ w.bat = s.bat then .ok ({ r with writable := false },t) else .err .logNeedsReplay) ∧
      (∃ x, (openImage w.dev).1 = .ok x) ∧
        ((openImage w.dev).2.written = true ↔ ¬ (noJournal s.header ∨ w.bat = s.bat)) := by
  obtain ⟨hw,hsession⟩ := h.reached hreach
  have hkept : KeptByPieces r fun w => ∃ n, World.Counted (s.start d') w n := World.Counted.keptByPieces
  obtain ⟨-,n,hcounted⟩ := hreach.invariant (ready_of_opened h.opens.opens h.small)
    ⟨0,⟨Nat.add_zero _,fun _ => rfl,(ite_self _).symm⟩⟩ hkept
  obtain ⟨-,hgrows⟩ := hreach.invariant (ready_of_opened h.opens.opens h.small) (h.opens.started.2.1.trans hgrow)
    growable_keptByPieces
  have hheader : w.header = s.header ↔ noJournal s.header ∨ w.bat = s.bat := hcounted.header_eq_iff h.number
  obtain ⟨k,hk⟩ := hsession.rotated
  obtain ⟨regions,chain,hrestart,hempty⟩ := h.restartable hsession hw hnum fun _ => by
    rw [hk]
    exact hclear.past k
  have hchain : chain = [] ↔ noJournal s.header ∨ w.bat = s.bat := by
    rw [← hheader]
    refine ⟨fun hnil => (hempty hnil).1,fun hsame => ?_⟩
    obtain ⟨-,-,-,-,hnone⟩ := h.found hsession hw
    have hpending := hsession.nothing_pending h.session.placed hnone hsame
    exact Outcome.ok.inj (hrestart.place.pending.symm.trans hpending)
  refine ⟨⟨w.restarted [],?_⟩,?_⟩
  · rw [hrestart.opened_readOnly false]
    exact if_congr hchain rfl rfl
  have hmode : w.dev.withMode true true = w.dev := Device.withMode_self hw.ready.writable hgrows
  have hopens := (hrestart.reopened hrestart.behind).sound.opens.opens
  have hsmall : w.dev.size < 2^64 := hw.ready.size.trans_lt hw.ready.small
  obtain ⟨-,⟨e,-,he⟩ | ⟨r1,t,s1,himage,-,-,hwritten,-⟩⟩ := in_memory_as_in_place hsmall .rwOnDevice
  · rw [hmode,hopens] at he
    cases he
  · refine ⟨⟨_,himage⟩,hwritten.trans ?_⟩
    have hfinds : FindsChain w.dev w.header w.slot chain := ⟨⟨regions,hrestart.identified⟩,hrestart.place.pending⟩
    rw [← hchain]
    constructor
    · rintro ⟨header,slot,found,hf,hne⟩ hnil
      exact hne ((hf.unique hfinds).2.2.trans hnil)
    · intro hne
      exact ⟨_,_,_,hfinds,hne⟩

end session

/-- The first write to an image with a log leaves it dirty. -/
theorem pending_after_session_oneLogged :
    letI := castagnoli
    ∃ w, (writeAt (oneLogged 5).reader 0 [1]).run World.handle ((oneLoggedState 5).start (oneLogged 5).device) = (.ok (),w) ∧
      ((openOnDevice (w.dev.withMode false false)).on (w.dev.withMode false false)).1 = .err .logNeedsReplay ∧
      (openImage w.dev).2.written = true := by
  let := castagnoli
  obtain ⟨w,hrun⟩ := @oneLogged_writes castagnoli 5 1
  have hpiece : blockChunks (oneLogged 5).reader 0 (0 + ([1] : Bytes).length) = [⟨0,0,0,1⟩] :=
    first_byte_piece (oneLogged 5) 1
  have hw : ((oneLoggedState 5).start (oneLogged 5).device).Writable (oneLogged 5).reader := oneLogged_writable
  have htakes : ((oneLoggedState 5).start (oneLogged 5).device).Takes (oneLogged 5).reader ⟨0,0,0,1⟩ :=
    .inr ⟨oneLogged_absent,oneLogged_grants⟩
  have hwrote : (writeAt (oneLogged 5).reader 0 [1]).run World.handle ((oneLoggedState 5).start (oneLogged 5).device) =
      (.ok (),((oneLoggedState 5).start (oneLogged 5).device).wrote (oneLogged 5).reader ⟨0,0,0,1⟩ [1]) := by
    have hin : InRange (oneLogged 5).reader 0 ([1] : Bytes).length :=
      .inr ⟨(by decide : 0 + 1 ≤ oneMib),(by decide : 0 + 1 < 2^64)⟩
    have hall := writeAt_of_takesAll hw.ready hw.covers hw.open_rw hin (by rw [hpiece]; exact ⟨htakes,trivial⟩)
    rw [hpiece] at hall
    exact hall
  obtain ⟨-,hw1⟩ := Prod.mk.inj (hrun.symm.trans hwrote)
  have hpresent : w.Present 0 (tailOffset (oneLogged 5).reader 4194304) := by
    rw [hw1]
    exact World.Absent.present_wrote oneLogged_absent hw.ready oneLogged_grants (by decide)
  have hchanged : ¬ (noJournal (oneLoggedState 5).header ∨ w.bat = (oneLoggedState 5).bat) := by
    rintro (hno | hsame)
    · exact oneLogged_logs 5 hno
    · have habsent : ((oneLoggedState 5).start (oneLogged 5).device).Absent 0 := oneLogged_absent
      have hsame' : ((oneLoggedState 5).start (oneLogged 5).device).bat[0]? = w.bat[0]? := congrArg (·[0]?) hsame.symm
      exact habsent.not_present (hsame'.trans hpresent)
  obtain ⟨⟨t,hturned⟩,-,hdirty⟩ := pending_after_session_iff oneLogged_sound (by simp [Build.device,Device.zeroed])
    (.write .start hrun (by intro h; cases h)) (by rw [oneLogged_number]; decide) oneLogged_log_free
  rw [if_neg hchanged] at hturned
  exact ⟨w,hrun,hturned,hdirty.mpr hchanged⟩

end ImgVhdx
