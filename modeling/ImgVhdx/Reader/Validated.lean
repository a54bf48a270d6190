import ImgVhdx.Lib.Calls
import ImgVhdx.Reader.Current

/-! Open over any device, whatever its calls may do: what has been looked at and accepted before the
first call that could change it. -/
namespace ImgVhdx
open Lib DevProg

namespace DevOp

/-- The calls that could change the device. -/
def mutates : DevOp → Bool
  | .write _ _ | .setLen _ => true
  | _ => false

def Granted : (op : DevOp) → op.Reply → Prop
  | .size, _ => True
  | .read _ _, r => ∃ bs, r = .ok bs
  | .write _ _, r => r = .ok ()
  | .setLen _, r => r = .ok ()
  | .flush, r => r = .ok ()

def Refused : (op : DevOp) → op.Reply → Prop
  | .size, _ => False
  | .read _ _, r => ∃ e, r = .error e
  | .write _ _, r => ∃ e, r = .error e
  | .setLen _, r => ∃ e, r = .error e
  | .flush, r => ∃ e, r = .error e

def Looks (op : DevOp) : Prop := op.mutates = false

def KeepsLength : DevOp → Prop
  | .setLen _ => False
  | _ => True

theorem granted_or_refused (op : DevOp) (r : op.Reply) : op.Granted r ∨ op.Refused r := by
  cases op with
  | size => exact .inl trivial
  | read off len =>
    rcases r with e | bs
    · exact .inr ⟨e,rfl⟩
    · exact .inl ⟨bs,rfl⟩
  | write off bs =>
    rcases r with e | ⟨⟩
    · exact .inr ⟨e,rfl⟩
    · exact .inl rfl
  | setLen n =>
    rcases r with e | ⟨⟩
    · exact .inr ⟨e,rfl⟩
    · exact .inl rfl
  | flush =>
    rcases r with e | ⟨⟩
    · exact .inr ⟨e,rfl⟩
    · exact .inl rfl

theorem Looks.keepsLength {op : DevOp} (h : op.Looks) : op.KeepsLength := by
  cases op with
  | setLen n => cases h
  | _ => trivial

end DevOp

namespace DevProg
variable {α : Type} {f : FsError → Error}

abbrev Strict (p : DevProg α) : Prop := Prog.Strict DevOp.Granted DevOp.Refused p

abbrev Looks (p : DevProg α) : Prop := Prog.Only DevOp.Looks p

abbrev KeepsLength (p : DevProg α) : Prop := Prog.Only DevOp.KeepsLength p

theorem strict_lift {o : Outcome Error α} (h : o ≠ .panic) : Strict (Prog.lift o) := h

theorem strict_devSize : Strict devSize := ⟨fun _ _ => nofun,fun _ h => h.elim⟩

theorem strict_devRead {off len : Nat} : Strict (devRead off len f) := by
  refine ⟨?_,?_⟩
  · rintro _ ⟨bs,rfl⟩
    exact nofun
  · rintro _ ⟨e,rfl⟩
    exact ⟨f e,rfl⟩

theorem strict_devWrite {off : Nat} {bs : Bytes} : Strict (devWrite off bs f) := by
  refine ⟨?_,?_⟩
  · rintro _ rfl
    exact nofun
  · rintro _ ⟨e,rfl⟩
    exact ⟨f e,rfl⟩

theorem strict_devFlush : Strict (devFlush f) := by
  refine ⟨?_,?_⟩
  · rintro _ rfl
    exact nofun
  · rintro _ ⟨e,rfl⟩
    exact ⟨f e,rfl⟩

theorem looks_lift {o : Outcome Error α} : Looks (Prog.lift o) := trivial

private theorem looks_throw {e : Error} : Looks (Prog.throw e : DevProg α) := trivial

theorem only_ofReply {Kind : DevOp → Prop} (r : Except FsError α) :
    Prog.Only Kind (ofReply f r) := by cases r <;> trivial

theorem looks_devSize : Looks devSize := ⟨rfl,fun _ => trivial⟩
private theorem looks_devRead {off len : Nat} : Looks (devRead off len f) := ⟨rfl,only_ofReply⟩
theorem looks_devFlush : Looks (devFlush f) := ⟨rfl,only_ofReply⟩
private theorem keepsLength_devWrite {off : Nat} {bs : Bytes} :
    KeepsLength (devWrite off bs f) := ⟨trivial,only_ofReply⟩

end DevProg

section parts
variable [Crc32c]

theorem Header.parse_total (b : Bytes) : Header.parse b ≠ .panic := by
  rcases Nat.lt_or_ge b.length headerSize with h | h
  · rw [Header.parse,Outcome.rejectIf_of _ h]
    exact nofun
  · rw [Header.parse_of_le h]
    split_ifs <;> exact nofun

theorem RegionTable.parse_total (b : Bytes) : RegionTable.parse b ≠ .panic := by
  rcases Nat.lt_or_ge b.length regionTableSize with h | h
  · rw [RegionTable.parse,Outcome.rejectIf_of _ h]
    exact nofun
  · rw [RegionTable.parse_of_le h]
    split_ifs <;> exact nofun

omit [Crc32c] in
private theorem strict_probeAt {α : Type} {n off len : Nat} {parse : Bytes → Outcome Error α}
    (h : ∀ b, parse b ≠ .panic) :
    Strict (probeAt n off len parse) := by
  unfold probeAt
  split_ifs
  · exact nofun
  · refine strict_devRead.bind fun b => strict_lift ?_
    rw [Outcome.toOption_of_ne_panic (h b)]
    exact nofun

omit [Crc32c] in
private theorem looks_probeAt {α : Type} {n off len : Nat} {parse : Bytes → Outcome Error α} :
    Looks (probeAt n off len parse) := by
  unfold probeAt
  split_ifs
  · trivial
  · exact looks_devRead.bind fun _ => looks_lift

omit [Crc32c] in
private theorem preferHeader_total (a b : Option Header) : preferHeader a b ≠ .panic := by
  rcases a with _ | a <;> rcases b with _ | b
  · intro h
    cases h
  · intro h
    cases h
  · intro h
    cases h
  · rw [preferHeader]
    split_ifs <;> (intro h; cases h)

private theorem strict_pickHeader {n : Nat} : Strict (pickHeader n) :=
  (strict_probeAt Header.parse_total).bind fun _ => (strict_probeAt Header.parse_total).bind fun _ =>
    preferHeader_total _ _

private theorem looks_pickHeader {n : Nat} : Looks (pickHeader n) :=
  looks_probeAt.bind fun _ => looks_probeAt.bind fun _ => trivial

private theorem strict_pickRegionTable {n : Nat} : Strict (pickRegionTable n) := by
  refine (strict_probeAt RegionTable.parse_total).bind fun t => ?_
  cases t with
  | some t => exact nofun
  | none =>
    refine (strict_probeAt RegionTable.parse_total).bind fun t => ?_
    cases t <;> exact nofun

theorem looks_pickRegionTable {n : Nat} : Looks (pickRegionTable n) := by
  refine looks_probeAt.bind fun t => ?_
  cases t with
  | some t => trivial
  | none =>
    refine looks_probeAt.bind fun t => ?_
    cases t <;> trivial

omit [Crc32c] in
theorem spanInsideTheFile_total {n off len : Nat} {s : String} : spanInsideTheFile n off len s ≠ .panic :=
  Outcome.bind_ne_panic Outcome.okOr_ne_panic fun _ _ => Outcome.bind_ne_panic Outcome.rejectIf_ne_panic fun _ _ => nofun

omit [Crc32c] in
private theorem validateLogRegion_total {n : Nat} {header : Header} : validateLogRegion n header ≠ .panic := by
  unfold validateLogRegion
  split_ifs
  · intro h
    cases h
  · refine Outcome.bind_ne_panic Outcome.rejectIf_ne_panic fun _ _ => Outcome.bind_ne_panic Outcome.rejectIf_ne_panic fun _ _ =>
      Outcome.bind_ne_panic spanInsideTheFile_total fun _ _ h => ?_
    cases h

omit [Crc32c] in
private theorem logRegionClear_total {regions : RegionTable} {header : Header} :
    logRegionClearOfDeclaredRegions regions header ≠ .panic := by
  unfold logRegionClearOfDeclaredRegions
  split_ifs
  · intro h
    cases h
  · exact Outcome.rejectIf_ne_panic

theorem strict_identify : Strict identify :=
  strict_devSize.bind fun _ => strict_devRead.bind fun _ => (strict_lift Outcome.rejectIf_ne_panic).bind fun _ =>
    strict_pickHeader.bind fun _ => (strict_lift Outcome.rejectIf_ne_panic).bind fun _ =>
      (strict_lift validateLogRegion_total).bind fun _ => strict_pickRegionTable.bind fun _ =>
        (strict_lift logRegionClear_total).bind fun _ => nofun

theorem looks_identify : Looks identify :=
  looks_devSize.bind fun _ => looks_devRead.bind fun _ => looks_lift.bind fun _ => looks_pickHeader.bind fun _ =>
    looks_lift.bind fun _ => looks_lift.bind fun _ => looks_pickRegionTable.bind fun _ => looks_lift.bind fun _ => trivial

theorem strict_settle {header : Header} {slot : HeaderSlot} {x : Nat × Bool} : Strict (settle header slot x) :=
  strict_pickRegionTable.bind fun _ => (strict_lift Outcome.rejectIf_ne_panic).bind fun _ =>
    (strict_lift logRegionClear_total).bind fun _ => nofun

theorem looks_settle {header : Header} {slot : HeaderSlot} {x : Nat × Bool} : Looks (settle header slot x) :=
  looks_pickRegionTable.bind fun _ => looks_lift.bind fun _ => looks_lift.bind fun _ => trivial

def findChain (devSize : Nat) (header : Header) : DevProg (List LogEntry) := do
  if ¬ isZeroGuid header.logGuid ∧ header.logLength.toNat > 0 ∧ header.logOffset.toNat > 0 then
    let len ← Prog.lift (spanInsideTheFile devSize header.logOffset.toNat header.logLength.toNat
      "log region reaches past the end of the file")
    let log ← devRead header.logOffset.toNat len fsCoreToVhdxError
    Prog.lift (collectReplayChain log header.logGuid)
  else return []

private theorem replayLog_split (n : Nat) (header : Header) (rc : Bool) :
    replayLog n header rc = findChain n header >>= fun chain =>
    if chain.isEmpty then return (n,false)
    else if ¬ rc then .throw .logNeedsReplay
    else applyChain chain >>= fun _ => return (replayedExtent n chain,true) := by
  unfold replayLog findChain
  by_cases h : ¬ isZeroGuid header.logGuid ∧ header.logLength.toNat > 0 ∧ header.logOffset.toNat > 0
  · rw [if_pos h,if_pos h,Prog.bind_assoc]
    refine congrArg _ (funext fun len => ?_)
    rw [Prog.bind_assoc]
  · rw [if_neg h,if_neg h]
    rfl

theorem collectReplayChain_total {log : Bytes} {guid : Guid} : collectReplayChain log guid ≠ .panic := by
  cases hg : isZeroGuid guid with
  | true =>
    rw [collectReplayChain,if_pos hg]
    intro h
    cases h
  | false =>
    obtain ⟨found,checked,exhausted,h,-⟩ := discover_ok log guid
    rw [collectReplayChain_eq hg h]
    cases exhausted with
    | true =>
      intro h
      cases h
    | false =>
      cases found with
      | nil =>
        intro h
        cases h
      | cons first rest =>
        rw [if_neg Bool.false_ne_true,selectChain]
        cases entryStartingAt (first :: rest) (headOf first rest).header.tail <;> (intro h; cases h)

theorem strict_findChain {n : Nat} {header : Header} : Strict (findChain n header) := by
  unfold findChain
  split_ifs
  · exact (strict_lift spanInsideTheFile_total).bind fun _ => strict_devRead.bind fun _ =>
      strict_lift collectReplayChain_total
  · exact nofun

theorem looks_findChain {n : Nat} {header : Header} : Looks (findChain n header) := by
  unfold findChain
  split_ifs
  · exact looks_lift.bind fun _ => looks_devRead.bind fun _ => looks_lift
  · trivial

omit [Crc32c] in
private theorem looks_readMetadata {n : Nat} {regions : RegionTable} : Looks (readMetadata n regions) :=
  looks_lift.bind fun _ => looks_lift.bind fun _ => looks_devRead.bind fun _ => looks_lift.bind fun _ => looks_lift

omit [Crc32c] in
private theorem looks_finishOpen {n : Nat} {header : Header} {slot : HeaderSlot} {regions : RegionTable}
    {p : DiskParameters} {writable : Bool} : Looks (finishOpen n header slot regions p writable) := by
  unfold finishOpen
  split_ifs <;> first
    | trivial
    | exact (looks_lift.bind fun _ => looks_lift.bind fun _ => looks_lift.bind fun _ => looks_lift.bind fun _ =>
        looks_devRead.bind fun _ => trivial : Looks (readBat _ _ _ _ _)).bind fun _ => trivial

omit [Crc32c] in
theorem looks_loadDisk {n : Nat} {header : Header} {slot : HeaderSlot} {regions : RegionTable} {writable : Bool} :
    Looks (loadDisk n header slot regions writable) :=
  looks_readMetadata.bind fun _ => looks_finishOpen

end parts

section writes
variable {f : FsError → Error}

theorem strict_writeZeros (cur n : Nat) : Strict (writeZeros f cur n) := by
  induction n using Nat.strongRecOn generalizing cur with
  | ind n ih =>
    rw [writeZeros]
    split_ifs with h
    · intro hp
      cases hp
    · have : 0 < zeroChunk := by decide
      exact strict_devWrite.bind fun _ => ih _ (by omega) _

private theorem keepsLength_writeZeros (cur n : Nat) : KeepsLength (writeZeros f cur n) := by
  induction n using Nat.strongRecOn generalizing cur with
  | ind n ih =>
    rw [writeZeros]
    split_ifs with h
    · trivial
    · have : 0 < zeroChunk := by decide
      exact keepsLength_devWrite.bind fun _ => ih _ (by omega) _

private theorem strict_applyDescriptor (x : Descriptor) : Strict (applyDescriptor x) := by
  cases x with
  | zero n off s =>
    rw [applyDescriptor]
    split_ifs
    · exact nofun
    · exact strict_writeZeros _ _
  | data => exact strict_devWrite

theorem keepsLength_applyDescriptor (x : Descriptor) : KeepsLength (applyDescriptor x) := by
  cases x with
  | zero n off s =>
    rw [applyDescriptor]
    split_ifs
    · trivial
    · exact keepsLength_writeZeros _ _
  | data => exact keepsLength_devWrite

private theorem strict_applyEntry (e : LogEntry) : Strict (applyEntry e) :=
  (Prog.Strict.forEach strict_applyDescriptor _).bind fun _ => strict_devFlush

theorem keepsLength_applyEntry (e : LogEntry) : KeepsLength (applyEntry e) :=
  (Prog.Only.forEach keepsLength_applyDescriptor _).bind fun _ => looks_devFlush.mono fun _ => DevOp.Looks.keepsLength

private theorem strict_makeRoom {n : Nat} : Strict (makeRoom n) := by
  refine strict_devSize.bind fun size => ?_
  split_ifs
  · refine ⟨?_,?_⟩
    · rintro _ rfl
      exact nofun
    · rintro _ ⟨e,rfl⟩ size
      exact ⟨_,rfl⟩
  · exact nofun

theorem checkDescriptors_total {n : Nat} (xs : List Descriptor) : checkDescriptors n xs ≠ .panic := by
  induction xs with
  | nil => exact nofun
  | cons x xs ih =>
    exact Outcome.bind_ne_panic (Outcome.bind_ne_panic Outcome.okOr_ne_panic fun _ _ => Outcome.rejectIf_ne_panic) fun _ _ => ih

theorem strict_applyChain {chain : List LogEntry} : Strict (applyChain chain) :=
  strict_devSize.bind fun _ => (strict_lift (checkDescriptors_total _)).bind fun _ => strict_makeRoom.bind fun _ =>
    Prog.Strict.forEach strict_applyEntry _

variable [Crc32c]

private theorem keepsLength_consumeLog {l : Located} : KeepsLength (consumeLog l) := by
  have hflush : ∀ f, KeepsLength (devFlush f) := fun f => looks_devFlush.mono fun _ => DevOp.Looks.keepsLength
  unfold consumeLog
  split_ifs
  · exact ((keepsLength_writeZeros _ _).bind fun _ => hflush _).bind fun _ => keepsLength_devWrite.bind fun _ =>
      (hflush _).bind fun _ => trivial
  · trivial

def openRest (writable : Bool) (header : Header) (slot : HeaderSlot) (x : Nat × Bool) :
    DevProg (VhdxReader × ReaderState) :=
  settle header slot x >>= fun l => consumeLog l >>= fun y => loadDisk l.devSize y.1 y.2 l.regions writable

theorem keepsLength_openRest {writable : Bool} {header : Header} {slot : HeaderSlot} {x : Nat × Bool} :
    KeepsLength (openRest writable header slot x) :=
  (looks_settle.mono fun _ => DevOp.Looks.keepsLength).bind fun _ => keepsLength_consumeLog.bind fun _ =>
    looks_loadDisk.mono fun _ => DevOp.Looks.keepsLength

theorem openInner_split (writable rc : Bool) :
    openInner writable rc = identify >>= fun x => findChain x.1 x.2.1 >>= fun chain =>
    (if chain.isEmpty then .done (.ok (x.1,false))
      else if ¬ rc then .throw .logNeedsReplay
      else applyChain chain >>= fun _ => .done (.ok (replayedExtent x.1 chain,true)) : DevProg (Nat × Bool)) >>=
        openRest writable x.2.1 x.2.2 := by
  unfold openInner openRest
  simp only [locateRegions_split,replayLog_split,Prog.bind_assoc,loadDisk]
  rfl

end writes
section faithful
variable [Crc32c] {σ : Type} {handle : (op : DevOp) → σ → op.Reply × σ} {view : σ → Device}

/-- What is asked of a device, `view` being what its state holds: it reports its size, a read that succeeds returns
what is there, a call that is no write changes nothing, and neither does a length it refuses to set. Any call may fail. -/
structure Faithful (handle : (op : DevOp) → σ → op.Reply × σ) (view : σ → Device) : Prop where
  size : ∀ s, (handle .size s).1 = (view s).size
  read : ∀ off len s bs, (handle (.read off len) s).1 = .ok bs → (view s).readAt off len = .ok bs
  looks : ∀ op s, op.Looks → view (handle op s).2 = view s
  refused : ∀ n s e, (handle (.setLen n) s).1 = .error e → view (handle (.setLen n) s).2 = view s

omit [Crc32c] in
/-- A part that only looks fails, or returns what it would over the device itself. -/
private theorem Faithful.run_looks {α : Type} (hd : Faithful handle view) {p : DevProg α} (hs : Strict p) (hl : Looks p) (s : σ) :
    (∃ e, (p.run handle s).1 = .err e) ∨ p.on (view s) = ((p.run handle s).1,view s) := by
  refine Prog.Strict.run_view hs hl (fun op s => DevOp.granted_or_refused op _) hd.looks (fun op s hk hg => ?_) s
  cases op with
  | size => exact Prod.ext (hd.size s).symm rfl
  | read off len =>
    obtain ⟨bs,hb⟩ := hg
    exact Prod.ext ((hd.read off len s bs hb).trans hb.symm) rfl
  | flush =>
    have hb : (handle .flush s).1 = .ok () := hg
    exact Prod.ext hb.symm rfl
  | write => cases hk
  | setLen => cases hk

/-- No call that could change the device unless `V`; without it, or once a length was refused, the device is as found. -/
def Guarded (handle : (op : DevOp) → σ → op.Reply × σ) (view : σ → Device) {α : Type} (V : Prop) (p : DevProg α) (s : σ) : Prop :=
  (∀ x ∈ p.events handle s, x.1.mutates = true → V) ∧
  (¬ V ∨ (∃ n e, (⟨.setLen n,.error e⟩ : (op : DevOp) × op.Reply) ∈ p.events handle s) →
    view (p.run handle s).2 = view s)

variable {α β : Type} {V : Prop}

omit [Crc32c] in
private theorem Faithful.guarded_of_looks (hd : Faithful handle view) {p : DevProg α} (hl : Looks p) (s : σ) :
    Guarded handle view V p s := by
  refine ⟨fun x hx hm => ?_,fun _ => hl.view hd.looks s⟩
  have := hl.events (h := handle) s x hx
  rw [DevOp.Looks,hm] at this
  cases this

omit [Crc32c] in
/-- After a part that only looks, the rest may take what that part found of the device. -/
theorem Faithful.guarded_bind (hd : Faithful handle view) {p : DevProg α} {f : α → DevProg β} (hs : Strict p)
    (hl : Looks p) {s : σ}
    (hf : ∀ a s1, p.on (view s) = (.ok a,view s) → view s1 = view s → Guarded handle view V (f a) s1) :
    Guarded handle view V (p >>= f) s := by
  have hview : view (p.run handle s).2 = view s := hl.view hd.looks s
  have hevents := hl.events (h := handle) s
  have hfirst : ∀ x ∈ p.events handle s, x.1.mutates = true → V := fun x hx hm => by
    have := hevents x hx
    rw [DevOp.Looks,hm] at this
    cases this
  unfold Guarded
  rw [Prog.events_bind,Prog.run_bind]
  rcases hd.run_looks hs hl s with ⟨e,he⟩ | hsame
  · rcases hrun : p.run handle s with ⟨o,s1⟩
    rw [hrun] at he hview
    obtain rfl : o = .err e := he
    simp only [List.append_nil]
    exact ⟨hfirst,fun _ => hview⟩
  · rcases hrun : p.run handle s with ⟨o,s1⟩
    rw [hrun] at hsame hview
    cases o with
    | err e =>
      simp only [List.append_nil]
      exact ⟨hfirst,fun _ => hview⟩
    | panic =>
      simp only [List.append_nil]
      exact ⟨hfirst,fun _ => hview⟩
    | ok a =>
      obtain ⟨h1,h2⟩ := hf a s1 hsame hview
      simp only [List.mem_append]
      refine ⟨fun x hx hm => hx.elim (fun h => hfirst x h hm) fun h => h1 x h hm,fun h => (h2 ?_).trans hview⟩
      refine h.imp_right fun ⟨n,e,hx⟩ => ⟨n,e,hx.resolve_left fun hx => ?_⟩
      exact Bool.noConfusion (hevents _ hx)

omit [Crc32c] in
/-- Where `V` holds, a part that sets no length is guarded. -/
private theorem guarded_of_keepsLength (hv : V) {p : DevProg α} (hk : KeepsLength p) (s : σ) :
    Guarded handle view V p s := by
  refine ⟨fun _ _ _ => hv,?_⟩
  rintro (hn | ⟨n,e,hx⟩)
  · exact absurd hv hn
  · exact (hk.events (h := handle) s _ hx).elim

omit [Crc32c] in
theorem Faithful.guarded_makeRoom (hd : Faithful handle view) (hv : V) {n : Nat} {g : Unit → DevProg β}
    (hg : ∀ u, KeepsLength (g u)) (s : σ) :
    Guarded handle view V (makeRoom n >>= g) s := by
  unfold makeRoom
  rw [Prog.bind_assoc]
  refine hd.guarded_bind strict_devSize looks_devSize fun size s1 _ _ => ?_
  split_ifs with hn
  · refine ⟨fun _ _ _ => hv,?_⟩
    rintro (hno | ⟨m,e,hx⟩)
    · exact absurd hv hno
    · simp only [Prog.call_bind,Prog.events,List.mem_cons] at hx
      cases hr : (handle (.setLen n) s1).1 with
      | error e' =>
        -- after the refusal the size is asked once more, and nothing else
        have hlast := hd.looks .size (handle (.setLen n) s1).2 rfl
        simp only [Prog.call_bind,Prog.run,hr]
        exact hlast.trans (hd.refused n s1 e' hr)
      | ok u =>
        rw [hr] at hx
        rcases hx with hx | hx
        · simp only [Sigma.mk.injEq,DevOp.setLen.injEq] at hx
          obtain ⟨rfl,hx⟩ := hx
          cases eq_of_heq hx
        · exact ((hg ()).events (h := handle) _ _ hx).elim
  · exact guarded_of_keepsLength hv (hg ()) s1

omit [Crc32c] in
theorem findChain_eq_ok {d d' : Device} {n : Nat} {header : Header} {chain : List LogEntry} [Crc32c]
    (h : (findChain n header).on d = (.ok chain,d')) : pendingChain d header = .ok chain := by
  unfold findChain at h
  unfold pendingChain
  by_cases hlog : ¬ isZeroGuid header.logGuid ∧ header.logLength.toNat > 0 ∧ header.logOffset.toNat > 0
  · rw [if_pos hlog] at h ⊢
    simp only [on,Prog.run_bind_eq_ok,Prog.run_lift_eq_ok] at h
    obtain ⟨len,_,⟨hspan,rfl⟩,log,d1,hread,hc,-⟩ := h
    obtain ⟨-,rfl,-⟩ := on_devRead_eq_ok.mp hread
    obtain ⟨-,-,rfl⟩ := spanInsideTheFile_eq_ok.mp hspan
    exact hc
  · rw [if_neg hlog] at h ⊢
    exact (Prod.mk.inj h).1

/-- Everything an open looks at ahead of its first write was accepted, and there is a chain to write, all of whose
descriptors fit. -/
structure Validated (d : Device) (rc : Bool) : Prop where
  capable : rc = true
  chain : ∃ header slot chain, FindsChain d header slot chain ∧ chain ≠ [] ∧
    checkDescriptors (allowedExtent d.size chain) (descriptorsOf chain) = .ok ()

/-- The openers over a device, and whether they may replay on it. -/
inductive Opener (d : Device) : Bool → DevProg (VhdxReader × ReaderState) → Prop
  | inner (writable rc : Bool) : Opener d rc (openInner writable rc)
  | onDevice : Opener d d.writable (openOnDevice d)
  | rwOnDevice : Opener d d.writable (openRwOnDevice d)

theorem Faithful.guarded_openInner (hd : Faithful handle view) (writable rc : Bool) (s : σ) :
    Guarded handle view (Validated (view s) rc) (openInner writable rc) s := by
  rw [openInner_split]
  refine hd.guarded_bind strict_identify looks_identify fun x s1 hx h1 => ?_
  obtain ⟨-,-,hident⟩ := identify_eq_ok hx
  refine hd.guarded_bind strict_findChain looks_findChain fun chain s2 hchain h2 => ?_
  have hpending := findChain_eq_ok hchain
  rw [h1] at hpending h2
  by_cases hemp : chain.isEmpty = true
  · -- nothing to replay: what is left only looks
    rw [if_pos hemp]
    refine hd.guarded_bind strict_settle looks_settle fun l s3 hl _ => ?_
    have hreplayed : l.replayed = false := by
      simp only [settle,on,Prog.run_bind_eq_ok] at hl
      obtain ⟨_,_,_,_,_,_,_,_,_,hl⟩ := hl
      rw [← Outcome.ok.inj (Prod.mk.inj hl).1]
    refine hd.guarded_of_looks ?_ s3
    unfold consumeLog
    rw [if_neg (by rw [hreplayed]; exact Bool.false_ne_true)]
    exact looks_loadDisk
  · rw [if_neg hemp]
    cases rc with
    | false =>
      rw [if_pos Bool.false_ne_true]
      exact hd.guarded_of_looks (p := Prog.throw .logNeedsReplay) looks_throw s2
    | true =>
      rw [if_neg (not_not.mpr rfl)]
      unfold applyChain
      simp only [Prog.bind_assoc]
      refine hd.guarded_bind strict_devSize looks_devSize fun size s3 hsize h3 => ?_
      obtain rfl : size = (view s).size := by
        rw [← h2]
        exact (Outcome.ok.inj (Prod.mk.inj (on_devSize.symm.trans hsize)).1).symm
      refine hd.guarded_bind (strict_lift (checkDescriptors_total _)) looks_lift fun _ s4 hfits _ => ?_
      have hv : Validated (view s) true :=
        ⟨rfl,x.2.1,x.2.2,chain,⟨hident,hpending⟩,fun h => hemp (List.isEmpty_iff.mpr h),
          (Prog.run_lift_eq_ok.mp hfits).1⟩
      exact hd.guarded_makeRoom hv (fun _ => (Prog.Only.forEach keepsLength_applyEntry _).bind fun _ =>
        keepsLength_openRest) s4

/-- Over any device, whichever of its calls fail: an open writes or sets the length only where it may replay and has
accepted everything there is to check before. Where it has not, and where it was refused the length it asked for, it
leaves the device as it found it. -/
theorem open_writes_only_validated (hd : Faithful handle view) {s : σ} {rc : Bool}
    {p : DevProg (VhdxReader × ReaderState)} (hp : Opener (view s) rc p) :
    (∀ x ∈ p.events handle s, x.1.mutates = true → Validated (view s) rc) ∧
    (¬ Validated (view s) rc ∨ (∃ n e, (⟨.setLen n,.error e⟩ : (op : DevOp) × op.Reply) ∈ p.events handle s) →
      view (p.run handle s).2 = view s) ∧
    (rc = false → (∀ x ∈ p.events handle s, x.1.mutates = false) ∧ view (p.run handle s).2 = view s) := by
  have hguard : Guarded handle view (Validated (view s) rc) p s := by
    cases hp with
    | inner writable => exact hd.guarded_openInner _ _ s
    | onDevice => exact hd.guarded_openInner _ _ s
    | rwOnDevice =>
      unfold openRwOnDevice
      by_cases hw : (view s).writable = true
      · rw [if_neg (not_not.mpr hw),hw]
        exact hd.guarded_openInner _ _ s
      · rw [if_pos hw]
        exact hd.guarded_of_looks looks_throw s
  refine ⟨hguard.1,hguard.2,fun hrc => ?_⟩
  have hno : ¬ Validated (view s) rc := fun hv => Bool.false_ne_true (hrc.symm.trans hv.capable)
  refine ⟨fun x hx => ?_,hguard.2 (.inl hno)⟩
  cases hm : x.1.mutates with
  | false => rfl
  | true => exact absurd (hguard.1 x hx hm) hno

omit [Crc32c] in
/-- A device whose calls fail only where it says so. -/
theorem Device.faithful : Faithful Device.handle id where
  size _ := rfl
  read off len d bs h := h
  looks op d h := by cases op <;> first | rfl | cases h
  refused n d e h := by
    rcases d.setLen_cases n with ⟨-,he⟩ | ⟨-,he⟩
    · exact congrArg Prod.snd he
    · rw [show Device.handle (.setLen n) d = d.setLen n from rfl,he] at h
      cases h

omit [Crc32c] in
/-- What changed the device was a call. -/
private theorem exists_mutates {α : Type} {p : DevProg α} {d : Device} (h : (p.on d).2 ≠ d) :
    ∃ x ∈ p.events Device.handle d, x.1.mutates = true := by
  by_contra hnone
  push Not at hnone
  exact h (Prog.view_of_events id Device.faithful.looks fun x hx => Bool.eq_false_of_not_eq_true (hnone x hx))

end faithful

/-- A dirty image, opened in place: something is written, and the chain that is replayed had been accepted. -/
theorem open_writes_only_validated_dirtied :
    letI := castagnoli
    let d := (dirtied ⟨4194304,⟨zeros logSectorSize,length_zeros _⟩⟩ 5242880).device
    ∃ r s d', (openRwOnDevice d).on d = (.ok (r,s),d') ∧ d'.size = 5242880 ∧
      (∃ x ∈ (openRwOnDevice d).events Device.handle d, x.1.mutates = true) ∧ Validated d true := by
  let := castagnoli
  intro d
  obtain ⟨s,-,hrun,hgrown⟩ := dirtied_openRw
  have hsize : d.size = 4194304 := Build.size_device
  obtain ⟨x,hx,hm⟩ := exists_mutates (p := openRwOnDevice d) (d := d) fun h => by
    rw [show (openRwOnDevice d).on d = _ from hrun] at h
    exact absurd ((hsize.symm.trans (congrArg Device.size h).symm).trans hgrown) (by decide)
  have hopener : Opener (id d) true (openRwOnDevice d) := openRwOnDevice_of_writable (d := d) rfl ▸ .inner true true
  exact ⟨_,s,_,hrun,hgrown,⟨x,hx,hm⟩,(open_writes_only_validated Device.faithful hopener).1 x hx hm⟩

end ImgVhdx
