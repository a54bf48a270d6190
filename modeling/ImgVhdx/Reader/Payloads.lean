import ImgVhdx.Reader.Alone

/-! Writes to disjoint ranges that run at once: what every one of them wrote is there in
the end, as long as no two of them allocate one block. -/
namespace ImgVhdx
open Lib

/-- The block a call has looked up as absent and has stored no entry for yet. -/
def lookedUpAbsent (m : Option Nat) : (op : ReaderOp) → op.Reply → Option Nat
  | .loadBat i, some e => if e.state.zeroFill then some i else none
  | .storeBat _ _, _ => none
  | _, _ => m

section
variable {ι : Type}

/-- No call finds a block absent while another that found it so is still allocating it. -/
def AllocatesAlone (w : World) (m : ι → Option Nat) (t : ι) (op : ReaderOp) : Prop :=
  ∀ i, op = .loadBat i → w.Absent i → ∀ u, u ≠ t → m u ≠ some i

variable {w : World} {m : ι → Option Nat} {t : ι} {op : ReaderOp}

theorem AllocatesAlone.of_none (h : ∀ u, u ≠ t → m u = none) : AllocatesAlone w m t op := by
  intro i _ _ u hu hs
  cases (h u hu).symm.trans hs

private theorem AllocatesAlone.of_ne (h : ∀ i, op ≠ .loadBat i) : AllocatesAlone w m t op := fun i ho => absurd ho (h i)

variable [Crc32c]

def writesFrom (r : VhdxReader) (w : World) {M : Type} (m : M) (calls : ι → Nat × Bytes) :
    Pool ι ReaderOp ReaderOp.Reply Error Unit World M where
  state := w
  prog t := writeAt r (calls t).1 (calls t).2
  seen _ := m

variable {r : VhdxReader} {l : Layout} {w : World} {call : List Piece} {p p' : Phase} {op : ReaderOp}

/-- What is noted of a call is what it has pending. -/
private theorem Move.lookedUpAbsent (hm : Move r call p op (w.handle op).1 p') {m : Option Nat}
    (h : ∀ i, p.doing.pending = some i → m = some i) {i : Nat} (hi : p'.doing.pending = some i) :
    lookedUpAbsent m op (w.handle op).1 = some i := by
  generalize (w.handle op).1 = reply at hm ⊢
  cases hm with
  | absent _ he =>
    cases hi
    exact if_pos he
  | present => cases hi
  | unreadable => cases hi
  | outside => cases hi
  | storeBat => cases hi
  | storeOutside => cases hi
  | writeFailed => cases hi
  | readFailed => cases hi
  | payload => cases hi
  | locate => cases hi
  | refused => cases hi
  | refuse => cases hi
  | abandon => cases hi
  | logFailed => cases hi
  | rotateFailed => cases hi
  | _ => exact h _ hi

def Written (call : List Piece) (w : World) (done : List Piece) : Prop :=
  ∀ p ∈ done, p ∈ call ∧ (∃ off, w.Present p.batIdx off) ∧ ∀ k, (hk : k < p.src.length) →
    w.blockByte p.batIdx (p.inBlock + k) = p.src[k]

variable [DecidableEq ι] {calls : ι → List Piece} {L : ι → Phase} {t : ι}

def Agree (p q : Piece) : Prop := ∀ i k, p.Covers i k → q.Covers i k → p.src[k - p.inBlock]? = q.src[k - q.inBlock]?

/-- A move of one call leaves what the others wrote, where no two pieces of different calls meet. -/
private theorem Core.written_move {g : ι → List Piece} (hi : Core r l w L)
    (hblock : ∀ u, ∀ p ∈ g u, p.inBlock + p.src.length ≤ r.blockSize) (hagree : ∀ u v, ∀ p ∈ g u, ∀ q ∈ g v, Agree p q)
    (hm : Move r (g t) (L t) op (w.handle op).1 p') (hw : ∀ u, Written (g u) w (L u).done) (u : ι) :
    Written (g u) (w.handle op).2 (Function.update L t p' u).done := by
  have hstays : ∀ u, ∀ q ∈ (L u).done, (∀ k, (hk : k < q.src.length) →
        w.blockByte q.batIdx (q.inBlock + k) = q.src[k] → (w.handle op).2.blockByte q.batIdx (q.inBlock + k) = q.src[k]) →
      q ∈ g u ∧ (∃ off, (w.handle op).2.Present q.batIdx off) ∧
        ∀ k, (hk : k < q.src.length) → (w.handle op).2.blockByte q.batIdx (q.inBlock + k) = q.src[k] := by
    intro u q hq hsame
    obtain ⟨hmem,⟨off,hp⟩,hb⟩ := hw u q hq
    exact ⟨hmem,⟨off,hi.present_move hm hp⟩,fun k hk => hsame k hk (hb k hk)⟩
  rcases hi.disk_move (hblock t) hm with ⟨hdone,hsame⟩ | ⟨p,hp,hdone,⟨off,hpres⟩,hbytes,hsame⟩
  · intro q hq
    have hold : q ∈ (L u).done := by
      by_cases hu : u = t
      · subst hu
        rwa [Function.update_self,hdone] at hq
      · rwa [Function.update_of_ne hu] at hq
    refine hstays u q hold fun k hk hb => ?_
    have hlen := hblock u q (hw u q hold).1
    rw [hsame _ _ (by omega),hb]
  · -- the byte is the piece's or, outside of it, the one that was there
    have hcases : ∀ u, ∀ q ∈ (L u).done, q ∈ g u ∧ (∃ off, (w.handle op).2.Present q.batIdx off) ∧
        ∀ k, (hk : k < q.src.length) → (w.handle op).2.blockByte q.batIdx (q.inBlock + k) = q.src[k] := by
      intro u q hq
      refine hstays u q hq fun k hk hb => ?_
      have hmem := (hw u q hq).1
      have hlen := hblock u q hmem
      by_cases hc : p.Covers q.batIdx (q.inBlock + k)
      · have hsrc := hagree t u p hp q hmem _ _ hc ⟨rfl,Nat.le_add_right _ _,by omega⟩
        have hk' : q.inBlock + k - p.inBlock < p.src.length := by have := hc.2; omega
        rw [List.getElem?_eq_getElem hk',Nat.add_sub_cancel_left,List.getElem?_eq_getElem hk] at hsrc
        have := hbytes (q.inBlock + k - p.inBlock) hk'
        rw [hc.1,Nat.add_sub_cancel' hc.2.1] at this
        exact this.trans (Option.some.inj hsrc)
      · rw [hsame _ _ (by omega) hc,hb]
    intro q hq
    by_cases hu : u = t
    · subst hu
      rw [Function.update_self,hdone,List.mem_append,List.mem_singleton] at hq
      rcases hq with hq | rfl
      · exact hcases u q hq
      · exact ⟨hp,⟨off,hi.present_move hm hpres⟩,hbytes⟩
    · rw [Function.update_of_ne hu] at hq
      exact hcases u q hq

/-- The virtual ranges of the calls share no byte. -/
def RangesApart (calls : ι → Nat × Bytes) : Prop :=
  ∀ t u, t ≠ u → (Span.mk (calls t).1 (calls t).2.length).Apart ⟨(calls u).1,(calls u).2.length⟩

omit [Crc32c] [DecidableEq ι] in
private theorem RangesApart.agree {calls : ι → Nat × Bytes} (h : RangesApart calls) (t u : ι) {p q : Piece}
    (hp : p ∈ piecesOf r (calls t).1 (calls t).2) (hq : q ∈ piecesOf r (calls u).1 (calls u).2) : Agree p q := by
  intro i k hcp hcq
  obtain ⟨v,hlo,hhi,hi,hk,hv⟩ := hcp.byte hp
  obtain ⟨v',hlo',hhi',hi',hk',hv'⟩ := hcq.byte hq
  obtain rfl := batIdxOf_inj (hi.trans hi'.symm) (hk.trans hk'.symm)
  by_cases htu : t = u
  · subst htu
    rw [hv,hv']
  · have := h t u htu
    simp only [Span.Apart,Span.stop] at this
    omega

/-- What holds all through a run of several writes, each alone in what it allocates. -/
private structure Kept (r : VhdxReader) (l : Layout) (calls : ι → Nat × Bytes) (w : World) (L : ι → Phase)
    (m : ι → Option Nat) : Prop where
  core : Core r l w L
  seen : ∀ t i, (L t).doing.pending = some i → m t = some i
  written : ∀ t, Written (piecesOf r (calls t).1 (calls t).2) w (L t).done

variable {calls : ι → Nat × Bytes} {m : ι → Option Nat}

private theorem Kept.move (h : Kept r l calls w L m) (hd : RangesApart calls) (hfree : w.free op)
    (hc : AllocatesAlone w m t op) (hm : Move r (piecesOf r (calls t).1 (calls t).2) (L t) op (w.handle op).1 p') :
    Kept r l calls (w.handle op).2 (Function.update L t p')
    (Function.update m t (lookedUpAbsent (m t) op (w.handle op).1)) where
  core := h.core.move (fun _ hp => piece_block hp) hfree (fun i ho ha u hu hp => hc i ho ha u hu (h.seen u i hp)) hm
  seen u i hp := by
    by_cases hu : u = t
    · subst hu
      rw [Function.update_self] at hp ⊢
      exact hm.lookedUpAbsent (h.seen u) hp
    · rw [Function.update_of_ne hu] at hp ⊢
      exact h.seen u i hp
  written u := h.core.written_move (g := fun u => piecesOf r (calls u).1 (calls u).2) (fun _ _ hp => piece_block hp)
    (fun t u p hp q hq => hd.agree t u hp hq) hm h.written u

/-- Of every interleaving of writes to disjoint ranges in which no call finds a block absent that
another is allocating: once all have returned, a read of any of the ranges returns what was written to it. -/
theorem readAt_after_writes {d d' : Device} {s : ReaderState} (hopen : OpensAs d r s d' l) (hsize : d.size < 2^64)
    (hsound : SoundBat r l s.devSize s.bat) (halign : 4096 ∣ r.batRegionOff) (hapart : RangesApart calls)
    {c : Pool ι ReaderOp ReaderOp.Reply Error Unit World (Option Nat)}
    (hrun : Pool.Steps World.handle lookedUpAbsent World.free AllocatesAlone (writesFrom r (s.start d') none calls) c)
    (hret : ∀ t, c.prog t = .done (.ok ())) (t : ι) :
    (readAt r (calls t).1 (calls t).2.length).run World.handle c.state = (.ok (calls t).2,c.state) := by
  obtain ⟨hstart,-,hsmall⟩ := hopen.started
  have htracked : (writesFrom r (s.start d') (none : Option Nat) calls).Tracked World.handle
      (fun t => Move r (piecesOf r (calls t).1 (calls t).2))
      (fun t => Prog.orFail (fun l _ => l = ⟨.idle,piecesOf r (calls t).1 (calls t).2⟩ ∧
        InRange r (calls t).1 (calls t).2.length)
        (fun l _ => Turned r (calls t).1 (calls t).2 l) (Panicked r)) (Kept r l calls) :=
    ⟨fun _ => ⟨.idle,[]⟩,⟨hstart.core hsound halign (hsmall hsize),nofun,nofun⟩,fun t => writeAt_follows r _ _⟩
  obtain ⟨L,hkept,hf⟩ := hrun.tracked (fun _ _ _ _ _ _ h hfree hc hm => h.move hapart hfree hc hm) htracked
  have hdone := hf t
  rw [hret t] at hdone
  have hw := hkept.written t
  rw [hdone.1] at hw
  -- every byte of the range is in a piece that was written
  have hbyte : ∀ v, (calls t).1 ≤ v → v < (calls t).1 + (calls t).2.length →
      (∃ off, c.state.Present (batIdxOf r v) off) ∧ (calls t).2[v - (calls t).1]? = some (c.state.disk r v) := by
    intro v hlo hhi
    obtain ⟨p,hp,k,hk,hidx,hmod,hv⟩ := exists_piece (r := r) hlo hhi
    obtain ⟨-,hpres,hb⟩ := hw p hp
    rw [hidx] at hpres
    refine ⟨hpres,hv.trans (congrArg some ?_)⟩
    rw [← hb k hk,World.disk,hidx,hmod]
  rw [readAt_run hkept.core.shared.served hdone.2 fun v hlo hhi => .inr (hbyte v hlo hhi).1]
  congr 2
  apply List.ext_getElem?
  intro i
  rw [World.getElem?_diskBytes]
  split_ifs with hi
  · rw [← (hbyte ((calls t).1 + i) (by omega) (by omega)).2,Nat.add_sub_cancel_left]
  · exact (List.getElem?_eq_none (by omega)).symm

end

def oneAbsent : Build where
  size := 3 * 1024 * 1024
  header := ⟨1,Guid.zero,Guid.zero,Guid.zero,logVersionV0,headerVersion,0,0⟩
  batOffset := 2 * 1024 * 1024
  batLen := 8
  metaOffset := oneMib
  virtualSize := oneMib
  body := []

private theorem oneAbsent_valid [Crc32c] : oneAbsent.Valid 1 where
  body := by simp [oneAbsent]
  meta_low := by decide
  meta_high := by decide
  bat_high := by decide
  bat_len := by decide
  size := by decide
  virtualSize := by decide
  version := rfl
  logVersion := rfl
  logRegion := rfl
  clear := rfl
  covers := by decide
  entries := by decide

private theorem oneAbsent_bat [Crc32c] :
    decodeBat (oneAbsent.device.bytes oneAbsent.batOffset (1 * batEntrySize)) = [⟨.notPresent,0⟩] := by
  rw [Build.bytes_device (by decide) (.inr (by decide)),show oneAbsent.body = [] from rfl,Device.putAll_nil,
    Device.bytes_zeroed,decodeBat_zeros]
  rfl

def oneAbsentState : ReaderState := ⟨oneAbsent.size,oneAbsent.header,.one,[⟨.notPresent,0⟩]⟩

def oneAbsentLayout :
    Layout := ⟨oneAbsent.header.logRegion,⟨oneAbsent.metaOffset,metadataRegionSize⟩,⟨oneAbsent.batOffset,8⟩⟩

private theorem oneAbsent_opensAs [Crc32c] :
    OpensAs oneAbsent.device oneAbsent.reader oneAbsentState oneAbsent.device oneAbsentLayout := by
  have := oneAbsent_valid.opensAs (by simp [isZeroGuid,oneAbsent,Guid.zero,zeros])
  rwa [oneAbsent_bat] at this

/-- The stored block lies inside the file, past everything else in it. -/
private theorem halfStored_sound [Crc32c] :
    SoundBat halfStored.reader halfStoredLayout halfStoredState.devSize halfStoredState.bat where
  inside := by decide
  clear e he hd := by
    obtain rfl | rfl : e = ⟨.notPresent,0⟩ ∨ e = ⟨.fullyPresent,3145728⟩ := by simpa [halfStoredState] using he
    · cases hd
    · intro part hpart
      revert part
      decide
  apart i j e f he hf hne hd hd' := by
    have hone : ∀ {k : Nat} {x : BatEntry}, halfStoredState.bat[k]? = some x → x.state.blockOnDisk = true → k = 1 := by
      intro k x hx hk
      obtain _ | _ | k := k
      · obtain rfl := Option.some.inj hx
        cases hk
      · rfl
      · cases hx
    exact absurd ((hone he hd).trans (hone hf hd').symm) hne

def sideBySide : Bool → Nat × Bytes
  | false => (0,[1])
  | true => (1,[2])

private theorem sideBySide_apart : RangesApart sideBySide := by
  intro t u htu
  cases t <;> cases u <;> first | exact absurd rfl htu | decide

/-- The second runs from end to end after the first has allocated the block and before it writes there. -/
theorem readAt_after_writes_halfStored :
    letI := castagnoli
    ∃ c : Pool Bool ReaderOp ReaderOp.Reply Error Unit World (Option Nat),
      Pool.Steps World.handle lookedUpAbsent World.free AllocatesAlone
        (writesFrom halfStored.reader (halfStoredState.start halfStored.device) none sideBySide) c ∧
      (readAt halfStored.reader 0 1).run World.handle c.state = (.ok [1],c.state) ∧
      (readAt halfStored.reader 1 1).run World.handle c.state = (.ok [2],c.state) := by
  let := castagnoli
  obtain ⟨afterA,hA,allocates,-⟩ := exists_afterLookup (r := halfStored.reader) (o := 0) (b := [1]) rfl (by decide)
    (by decide) (by decide)
  obtain ⟨afterB,hB,-,present⟩ := exists_afterLookup (r := halfStored.reader) (o := 1) (b := [2]) rfl (by decide)
    (by decide) (by decide)
  rw [show batIdxOf halfStored.reader 0 = 0 by decide] at hA allocates
  rw [show batIdxOf halfStored.reader 1 = 0 by decide] at hB
  have hw : halfStored.device.writable = true := by simp [Build.device,Device.zeroed]
  have hg : halfStored.device.growable = true := by simp [Build.device,Device.zeroed]
  have hallocate : (allocateBlockFor halfStored.reader 0).Runs World.handle World.free
      ⟨halfStored.device,4194304,false,halfStored.header,.one,false,halfStoredState.bat⟩ (.ok 4194304) _ :=
    runs_allocateBlockFor (.inl rfl) hw hg (by decide) (by decide) (by decide) ⟨512,rfl⟩ (by decide) (by decide)
  obtain ⟨dev,hdev⟩ : ∃ d, d = halfStored.device.allocated halfStored.reader 0 4194304 := ⟨_,rfl⟩
  have hdw : dev.writable = true := hdev ▸ hw
  have hsize : dev.size = 5242880 := hdev ▸ rfl
  rw [← hdev] at hallocate
  -- the first looks the block up and allocates it
  obtain ⟨c1,h1,hs1,hp1,ho1⟩ := Pool.Steps.turn lookedUpAbsent World.free AllocatesAlone false
    (c := writesFrom halfStored.reader (halfStoredState.start halfStored.device) none sideBySide)
    (fun _ _ _ hm hfree => ⟨hfree,.of_none hm⟩) rfl (runs_perform (o := .loadBat 0) trivial) hA
  obtain ⟨c2,h2,hs2,hp2,ho2⟩ := Pool.Steps.turn lookedUpAbsent World.free AllocatesAlone false
    (fun _ _ _ hm hfree => ⟨hfree,.of_none fun u hu => (hm u hu).trans (ho1 u hu).2⟩) hs1 hallocate
    (hp1.trans (allocates ⟨.notPresent,0⟩ rfl))
  -- the second finds it there, and writes its byte
  have hlook : Prog.Runs World.handle (fun s op => s = c2.state ∧ op = .loadBat 0) (ReaderProg.loadBat 0) c2.state
      (.ok (c2.state.bat[0]?)) c2.state := .call ⟨rfl,rfl⟩ .done
  have hfound : c2.state.bat[0]? = some ⟨.fullyPresent,4194304⟩ := by rw [hs2]; rfl
  obtain ⟨c3,h3,hs3,hp3,ho3⟩ := Pool.Steps.turn lookedUpAbsent World.free AllocatesAlone true (fun s m op _ hop => by
    obtain ⟨rfl,rfl⟩ := hop
    refine ⟨trivial,?_⟩
    rintro i hi ⟨e,he,hz⟩
    cases hi
    cases hfound.symm.trans he
    cases hz) rfl hlook ((ho2 true (by decide)).1.trans ((ho1 true (by decide)).1.trans hB))
  rw [Prog.ok_bind,hfound,present] at hp3
  have hputB : (writePayload halfStored.reader 1 [2] 4194304).Runs World.handle World.free
      ⟨dev,5242880,false,halfStored.header,.one,false,[⟨.fullyPresent,4194304⟩,⟨.fullyPresent,3145728⟩]⟩ (.ok ()) _ :=
    runs_writePayload ⟨rfl,rfl⟩ hdw (by decide : 4194304 + 1 % oneMib + 1 ≤ 5242880) hsize.ge
      (by decide : 5242880 < 2^64)
  obtain ⟨c4,h4,hs4,hp4,ho4⟩ := Pool.Steps.finish lookedUpAbsent World.free AllocatesAlone true
    (fun _ _ _ _ hop => ⟨hop.1,.of_ne hop.2⟩) (hs3.trans hs2) (hputB.only only_writePayload) hp3
  -- and the first goes on
  have hputA : (writePayload halfStored.reader 0 [1] 4194304).Runs World.handle World.free
      ⟨dev.put (4194304 + 1 % halfStored.reader.blockSize) [2],5242880,false,halfStored.header,.one,false,
        [⟨.fullyPresent,4194304⟩,⟨.fullyPresent,3145728⟩]⟩ (.ok ()) _ :=
    runs_writePayload ⟨rfl,rfl⟩ hdw (by decide : 4194304 + 0 % oneMib + 1 ≤ 5242880) hsize.ge
      (by decide : 5242880 < 2^64)
  obtain ⟨c5,h5,hs5,hp5,ho5⟩ := Pool.Steps.finish lookedUpAbsent World.free AllocatesAlone false
    (fun _ _ _ _ hop => ⟨hop.1,.of_ne hop.2⟩) hs4 (hputA.only only_writePayload)
      ((ho4 false (by decide)).1.trans ((ho3 false (by decide)).1.trans hp2))
  have hret : ∀ t, c5.prog t = .done (.ok ()) := by
    intro t
    cases t with
    | false => exact hp5
    | true => exact (ho5 true (by decide)).1.trans hp4
  have hread := readAt_after_writes halfStored_opensAs (by rw [Build.size_device]; decide) halfStored_sound
    ⟨512,rfl⟩ sideBySide_apart
    ((((h1.trans h2).trans h3).trans h4).trans h5) hret
  exact ⟨c5,(((h1.trans h2).trans h3).trans h4).trans h5,hread false,hread true⟩

/-- Both look the block up before either has allocated it, and the first one's byte is gone. -/
theorem readAt_after_racing_writes :
    letI := castagnoli
    ∃ c : Pool Bool ReaderOp ReaderOp.Reply Error Unit World (Option Nat),
      OpensAs oneAbsent.device oneAbsent.reader oneAbsentState oneAbsent.device oneAbsentLayout ∧
      oneAbsent.device.size < 2^64 ∧
      SoundBat oneAbsent.reader oneAbsentLayout oneAbsentState.devSize oneAbsentState.bat ∧
      4096 ∣ oneAbsent.reader.batRegionOff ∧ RangesApart sideBySide ∧
      Pool.Steps World.handle lookedUpAbsent World.free (fun _ _ _ _ => True)
        (writesFrom oneAbsent.reader (oneAbsentState.start oneAbsent.device) none sideBySide) c ∧
      (∀ t, c.prog t = .done (.ok ())) ∧
      ((readAt oneAbsent.reader 0 1).run World.handle c.state).1 = .ok [0] := by
  let := castagnoli
  have hsize : oneAbsent.device.size = oneAbsent.size := Build.size_device
  obtain ⟨afterA,hA,allocatesA,-⟩ := exists_afterLookup (r := oneAbsent.reader) (o := 0) (b := [1]) rfl (by decide)
    (by decide) (by decide)
  obtain ⟨afterB,hB,allocatesB,-⟩ := exists_afterLookup (r := oneAbsent.reader) (o := 1) (b := [2]) rfl (by decide)
    (by decide) (by decide)
  rw [show batIdxOf oneAbsent.reader 0 = 0 by decide] at hA allocatesA
  rw [show batIdxOf oneAbsent.reader 1 = 0 by decide] at hB allocatesB
  have hw : oneAbsent.device.writable = true := by simp [Build.device,Device.zeroed]
  have hg : oneAbsent.device.growable = true := by simp [Build.device,Device.zeroed]
  have hn : noJournal oneAbsent.header := .inl rfl
  have halign : 4096 ∣ oneAbsent.reader.batRegionOff := ⟨512,rfl⟩
  -- the first to come allocates the fourth megabyte, the second the fifth
  have hrunA : (allocateBlockFor oneAbsent.reader 0 >>= writePayload oneAbsent.reader 0 [1]).Runs World.handle World.free
      ⟨oneAbsent.device,3145728,false,oneAbsent.header,.one,false,[⟨.notPresent,0⟩]⟩ (.ok ()) _ :=
    runs_allocating hn hw hg (by decide) (by decide : tailOffset oneAbsent.reader 3145728 = 3145728) (by decide) halign
      (by decide)
      (by decide) (by decide)
  obtain ⟨dev1,hd1⟩ : ∃ d, d = (oneAbsent.device.allocated oneAbsent.reader 0 3145728).put
    (3145728 + 0 % oneAbsent.reader.blockSize) [1] :=
    ⟨_,rfl⟩
  rw [← hd1] at hrunA
  have hrunB : (allocateBlockFor oneAbsent.reader 0 >>= writePayload oneAbsent.reader 1 [2]).Runs World.handle World.free
      ⟨dev1,4194304,false,oneAbsent.header,.one,false,[⟨.fullyPresent,3145728⟩]⟩ (.ok ()) _ :=
    runs_allocating hn (hd1 ▸ hw) (hd1 ▸ hg) (by decide) (by decide : tailOffset oneAbsent.reader 4194304 = 4194304)
      (by decide) halign
      (by decide) (by decide) (by decide)
  have hlook : (ReaderProg.loadBat 0).Runs World.handle World.free (oneAbsentState.start oneAbsent.device)
      (.ok (some ⟨.notPresent,0⟩)) (oneAbsentState.start oneAbsent.device) := runs_perform (o := .loadBat 0) trivial
  obtain ⟨c1,h1,hs1,hp1,ho1⟩ := Pool.Steps.turn lookedUpAbsent World.free (fun _ _ _ _ => True) false
    (c := writesFrom oneAbsent.reader (oneAbsentState.start oneAbsent.device) none sideBySide)
    (fun _ _ _ _ hfree => ⟨hfree,trivial⟩) rfl hlook hA
  obtain ⟨c2,h2,hs2,hp2,ho2⟩ := Pool.Steps.turn lookedUpAbsent World.free (fun _ _ _ _ => True) true
    (fun _ _ _ _ hfree => ⟨hfree,trivial⟩) hs1 hlook ((ho1 true (by decide)).1.trans hB)
  obtain ⟨c3,h3,hs3,hp3,ho3⟩ := Pool.Steps.finish lookedUpAbsent World.free (fun _ _ _ _ => True) false
    (fun _ _ _ _ hfree => ⟨hfree,trivial⟩) hs2 hrunA ((ho2 false (by decide)).1.trans (hp1.trans (allocatesA _ rfl)))
  obtain ⟨c,h4,hstate,hp4,ho4⟩ := Pool.Steps.finish lookedUpAbsent World.free (fun _ _ _ _ => True) true
    (fun _ _ _ _ hfree => ⟨hfree,trivial⟩) hs3 hrunB ((ho3 true (by decide)).1.trans (hp2.trans (allocatesB _ rfl)))
  have hc := ((h1.trans h2).trans h3).trans h4
  have hdoneA := (ho4 false (by decide)).1.trans hp3
  refine ⟨c,oneAbsent_opensAs,by rw [hsize]; decide,.of_absent (by decide),halign,sideBySide_apart,hc,?_,?_⟩
  · intro t
    cases t with
    | false => exact hdoneA
    | true => exact hp4
  rw [hstate]
  obtain ⟨dev2,hd2⟩ : ∃ d, d = (dev1.allocated oneAbsent.reader 0 4194304).put
    (4194304 + 1 % oneAbsent.reader.blockSize) [2] := ⟨_,rfl⟩
  rw [← hd2]
  have hpres : World.Present ⟨dev2,4194304 + oneAbsent.reader.blockSize,false,oneAbsent.header,.one,false,
      List.set [⟨.fullyPresent,3145728⟩] 0 ⟨.fullyPresent,4194304⟩⟩ 0 4194304 := rfl
  have hread := readAt_run (r := oneAbsent.reader)
    (w := ⟨dev2,4194304 + oneAbsent.reader.blockSize,false,oneAbsent.header,.one,false,
    List.set [⟨.fullyPresent,3145728⟩] 0 ⟨.fullyPresent,4194304⟩⟩) (o := 0) (n := 1)
    ⟨show 4194304 + oneAbsent.reader.blockSize < 2^64 by decide,by rw [hd2]; exact le_rfl,?_⟩ (by decide) ?_
  · have hzero : dev2.byte (4194304 + 0) = 0 := by
      rw [hd2,Device.byte_put_of_outside (.inl (by decide)),Device.byte_allocated (by decide) (by decide) (by decide)]
    rw [hread]
    refine congrArg (fun b => Outcome.ok [b]) (Eq.trans ?_ hzero)
    exact hpres.blockByte 0
  · intro i off hp
    obtain rfl | hi : i = 0 ∨ 1 ≤ i := by omega
    · obtain rfl : 4194304 = off := congrArg BatEntry.fileOffset (Option.some.inj (hpres.symm.trans hp))
      exact le_rfl
    · rw [World.Present,List.getElem?_eq_none (by simpa using hi)] at hp
      cases hp
  · intro v _ hv
    obtain rfl : v = 0 := by omega
    exact .inr ⟨_,hpres⟩

end ImgVhdx
