import ImgVhdx.Reader.Allocations
import ImgVhdx.Reader.Fresh

/-! What a refused write leaves behind. -/
namespace ImgVhdx
open Lib ReaderProg

section
variable {r : VhdxReader} {w : World} {c : BlockChunk} {buf : Bytes}

/-- Writing the bytes that are there is refused, or changes nothing. -/
private theorem devWrite_of_bytes {off : Nat} {bs : Bytes} (h : w.dev.bytes off bs.length = bs) :
    (∃ e, (devWrite off bs).run World.handle w = (.err e,w)) ∨ (devWrite off bs).run World.handle w = (.ok (),w) := by
  rcases w.dev.writeAt_cases off bs with ⟨e,he⟩ | ⟨-,-,he⟩
  · left
    have hr : (w.handle (.dev (.write off bs))).1 = .error e := congrArg Prod.fst he
    have hw : (w.handle (.dev (.write off bs))).2 = w := congrArg (fun x => { w with dev := x.2 }) he
    unfold devWrite
    rw [Prog.run,hr,hw]
    exact ⟨_,rfl⟩
  · right
    have hr : (w.handle (.dev (.write off bs))).1 = .ok () := congrArg Prod.fst he
    have hw : (w.handle (.dev (.write off bs))).2 = { w with dev := w.dev.put off bs } :=
      congrArg (fun x => { w with dev := x.2 }) he
    unfold devWrite
    rw [Prog.run,hr,hw,Device.put_of_bytes h]
    rfl

def World.Holds (buf : Bytes) (w : World) (c : BlockChunk) : Prop :=
  ∃ off, w.Present c.batIdx off ∧ w.dev.bytes (off + c.inBlock) c.chunkLen = slice buf c.bufPos c.chunkLen

def World.Refuses (w : World) (c : BlockChunk) : Prop :=
  ¬ w.Absent c.batIdx ∧ ∀ off, w.Present c.batIdx off → w.devSize < off + c.inBlock + c.chunkLen

/-- What becomes of a piece that is held: it is refused, or nothing changes. -/
private theorem writeChunk_of_holds [Crc32c] (h : w.Holds buf c) (hc : c.bufPos + c.chunkLen ≤ buf.length) :
    (∃ e, (writeChunk r buf c).run World.handle w = (.err e,w)) ∨ (writeChunk r buf c).run World.handle w =
    (.ok (),w) := by
  obtain ⟨off,hp,hbytes⟩ := h
  have hlen : (slice buf c.bufPos c.chunkLen).length = c.chunkLen := length_slice hc
  unfold writeChunk
  rw [Prog.run_bind_of_ok (Prog.run_lift_of_ok (index_of_le (by omega) hc)),Nat.add_sub_cancel_left,
    Prog.run_bind_of_ok (batEntryAt_run hp)]
  change (∃ e, (hostOffset off c.inBlock (slice buf c.bufPos c.chunkLen).length >>= fun host =>
    devWrite host (slice buf c.bufPos c.chunkLen)).run World.handle w = (.err e,w)) ∨ _
  rcases hostOffset_cases w off c.inBlock (slice buf c.bufPos c.chunkLen).length with ⟨e,he⟩ | ⟨-,hok⟩
  · left
    rw [Prog.run_bind,he]
    exact ⟨e,rfl⟩
  · change _ ∨ (hostOffset off c.inBlock (slice buf c.bufPos c.chunkLen).length >>= fun host =>
      devWrite host (slice buf c.bufPos c.chunkLen)).run World.handle w = _
    rw [Prog.run_bind_of_ok hok]
    exact devWrite_of_bytes (by rw [hlen,hbytes])

private theorem writeChunk_of_refuses [Crc32c] (h : w.Refuses c) (hc : c.bufPos + c.chunkLen ≤ buf.length) :
    ∃ e, (writeChunk r buf c).run World.handle w = (.err e,w) := by
  have hlen : (slice buf c.bufPos c.chunkLen).length = c.chunkLen := length_slice hc
  unfold writeChunk
  rw [Prog.run_bind_of_ok (Prog.run_lift_of_ok (index_of_le (by omega) hc)),Nat.add_sub_cancel_left]
  cases he : w.bat[c.batIdx]? with
  | none =>
    have hnone : (batEntryAt c.batIdx).run World.handle w = (.err (.corrupt "BAT index out of range"),w) := by
      change (Prog.lift (Outcome.okOr _ w.bat[c.batIdx]?)).run World.handle w = _
      rw [he]
      rfl
    rw [Prog.run_bind,hnone]
    exact ⟨_,rfl⟩
  | some e =>
    obtain ⟨state,off⟩ := e
    rw [Prog.run_bind_of_ok (batEntryAt_run he)]
    have habsent : state.zeroFill = false := by
      cases hz : state.zeroFill with
      | false => rfl
      | true => exact absurd ⟨_,he,hz⟩ h.1
    cases state with
    | fullyPresent =>
      obtain ⟨e,hrun⟩ := hostOffset_refused (w := w) off c.inBlock (slice buf c.bufPos c.chunkLen).length
        (by rw [hlen]; exact h.2 off he)
      refine ⟨e,?_⟩
      change (hostOffset off c.inBlock (slice buf c.bufPos c.chunkLen).length >>= fun host =>
        devWrite host (slice buf c.bufPos c.chunkLen)).run World.handle w = _
      rw [Prog.run_bind,hrun]
    | partiallyPresent => exact ⟨_,rfl⟩
    | reserved v => exact ⟨_,rfl⟩
    | notPresent => cases habsent
    | undefined => cases habsent
    | zero => cases habsent
    | unmapped => cases habsent

def RefusedFirst (buf : Bytes) (w : World) (cs : List BlockChunk) : Prop :=
  ∃ front c rest, cs = front ++ c :: rest ∧ (∀ x ∈ front, w.Holds buf x) ∧ w.Refuses c

private theorem writeChunks_of_refusedFirst [Crc32c] {cs : List BlockChunk} (h : RefusedFirst buf w cs)
    (hcs : ∀ c ∈ cs, c.bufPos + c.chunkLen ≤ buf.length) :
    ∃ e, (Prog.forEach (writeChunk r buf) cs).run World.handle w = (.err e,w) := by
  obtain ⟨front,c,rest,rfl,hfront,hc⟩ := h
  induction front with
  | nil =>
    obtain ⟨e,he⟩ := writeChunk_of_refuses (r := r) hc (hcs c List.mem_cons_self)
    rw [List.nil_append,Prog.forEach_cons,Prog.run_bind,he]
    exact ⟨e,rfl⟩
  | cons x front ih =>
    rw [List.cons_append,Prog.forEach_cons,Prog.run_bind]
    rcases writeChunk_of_holds (r := r) (hfront x List.mem_cons_self) (hcs x List.mem_cons_self) with ⟨e,he⟩ | hok
    · rw [he]
      exact ⟨e,rfl⟩
    · rw [hok]
      exact ih (fun y hy => hcs y (List.mem_cons_of_mem _ hy)) fun y hy => hfront y (List.mem_cons_of_mem _ hy)

/-- Nothing is to be changed before the write is refused: the reader is not writable, the range is past the end of the
disk, or the first piece that is not held is refused. -/
def Spared (r : VhdxReader) (w : World) (o : Nat) (buf : Bytes) : Prop :=
  r.writable = false ∨ ¬ InRange r o buf.length ∨ RefusedFirst buf w (blockChunks r o (o + buf.length))

private theorem writeAt_of_spared [Crc32c] {o : Nat} (h : Spared r w o buf) :
    ∃ e, (writeAt r o buf).run World.handle w = (.err e,w) := by
  unfold writeAt
  by_cases hw : r.writable = true
  swap
  · rw [if_pos hw]
    exact ⟨_,rfl⟩
  rw [if_neg (not_not.mpr hw)]
  by_cases hin : InRange r o buf.length
  swap
  · obtain ⟨e,he⟩ := transferEnd_refused hin
    rw [he]
    exact ⟨e,rfl⟩
  have hfirst := (h.resolve_left (by simp [hw])).resolve_left (not_not.mpr hin)
  have hlen : buf.length ≠ 0 := by
    intro h0
    obtain ⟨front,c,rest,hcs,-⟩ := hfirst
    rw [h0,blockChunks,blockChunksFrom_of_le (by omega)] at hcs
    simp at hcs
  obtain ⟨hend,h64⟩ := hin.resolve_left hlen
  rw [Prog.run_bind_of_ok (Prog.run_lift_of_ok (transferEnd_of_le hend h64 hlen))]
  dsimp only
  obtain ⟨e,he⟩ := writeChunks_of_refusedFirst (r := r) hfirst fun c hc => by
    have := (mem_blockChunks hc).inside
    omega
  rw [Prog.run_bind,he]
  exact ⟨e,rfl⟩

/-- A write whose pieces are written up to one that is refused. -/
private theorem writeAt_refused_after [Crc32c] {o : Nat} {front rest : List BlockChunk} (h : w.Writable r)
    (hin : InRange r o buf.length) (hcs : blockChunks r o (o + buf.length) = front ++ c :: rest)
    (ht : w.TakesAll r buf front) (hc : (w.wroteAll r buf front).Refuses c) :
    ∃ e, (writeAt r o buf).run World.handle w = (.err e,w.wroteAll r buf front) := by
  have hfit := fits_blockChunks h.covers hin
  rw [hcs] at hfit
  have hno : ¬ (w.wroteAll r buf front).Takes r c := by
    rintro (⟨off,hp,hle⟩ | ⟨ha,-⟩)
    · have := hc.2 off hp
      omega
    · exact hc.1 ha
  have hlen : buf.length ≠ 0 := by
    intro h0
    rw [h0,blockChunks,blockChunksFrom_of_le (by omega)] at hcs
    simp at hcs
  have hfront : (Prog.forEach (writeChunk r buf) front).run World.handle w = (.ok (),w.wroteAll r buf front) := by
    rcases writeChunks_cases h.ready (fun d hd => hfit d (List.mem_append_left _ hd)) with ⟨-,hok⟩ | ⟨a,x,b,rfl,-,hx,-⟩
    · exact hok
    · exact absurd (World.takesAll_append.mp ht).2.1 hx
  have hin' : c.bufPos + c.chunkLen ≤ buf.length := (hfit c (by simp)).2.1
  obtain ⟨e,he⟩ := writeChunk_of_refuses (r := r) hc hin'
  refine ⟨e,?_⟩
  obtain ⟨hend,h64⟩ := hin.resolve_left hlen
  unfold writeAt
  rw [if_neg (by simp [h.open_rw]),Prog.run_bind_of_ok (Prog.run_lift_of_ok (transferEnd_of_le hend h64 hlen))]
  dsimp only
  rw [hcs,Prog.forEach_append,Prog.bind_assoc,Prog.run_bind_of_ok hfront,Prog.forEach_cons,Prog.bind_assoc,
    Prog.run_bind,he]

variable [Crc32c]

/-- The states that reads and writes reach, each of which came back, over a device whose calls may fail. -/
inductive Visited (r : VhdxReader) (f0 : Flaky) : Flaky → Prop
  | start : Visited r f0 f0
  | request {f f' : Flaky} {q : Request} {x : Outcome Error Bytes} (before : Visited r f0 f)
      (run : (q.prog r).run Flaky.handle f = (x,f'))
      (returned : x ≠ .panic) : Visited r f0 f'

/-- What the one serves the other serves too, byte for byte, and so do two readers that open their devices afresh. -/
structure SameDisk (r : VhdxReader) (w w' : World) : Prop where
  live : ∀ off len b w1, (readAt r off len).run World.handle w = (.ok b,w1) →
    ∃ w2, (readAt r off len).run World.handle w' = (.ok b,w2)
  fresh : ∀ r1 s1 d1 off len b w1, Opens w.dev r1 s1 d1 → (readAt r1 off len).run World.handle (s1.start d1) = (.ok b,w1) →
    ∃ r2 s2 d2 w2, Opens w'.dev r2 s2 d2 ∧ (readAt r2 off len).run World.handle (s2.start d2) = (.ok b,w2)

theorem SameDisk.refl : SameDisk r w w := ⟨fun _ _ _ w1 h => ⟨w1,h⟩,fun r1 s1 d1 _ _ _ w1 ho h => ⟨r1,s1,d1,w1,ho,h⟩⟩

/-- In every state that requests reach on an opened image, whatever calls of the device failed on the way, a refused
write that changes nothing before it is refused leaves the disk as it was. It does so in any state: how it was reached
plays no part. -/
theorem refused_write_unchanged {d d' : Device} {s : ReaderState} (faults : Nat → Option FsError) : Opens d r s d' →
    ∀ f, Visited r ⟨s.start d',faults⟩ f → ∀ o buf e w', (writeAt r o buf).run World.handle f.world = (.err e,w') →
      Spared r f.world o buf → SameDisk r f.world w' := by
  intro _ f _ o buf e w' hrun hspared
  obtain ⟨e',he⟩ := writeAt_of_spared hspared
  obtain ⟨-,rfl⟩ := Prod.mk.inj (hrun.symm.trans he)
  exact .refl

end

/-- A partially present block, and a write that begins in it. -/
theorem refused_write_unchanged_two :
    letI := castagnoli
    ∃ e w', (writeAt (twoBlocks 0 7).reader 1048576 [1]).run World.handle
      ((twoBlocksState 0 7).start (twoBlocks 0 7).device) = (.err e,w') ∧
      SameDisk (twoBlocks 0 7).reader ((twoBlocksState 0 7).start (twoBlocks 0 7).device) w' := by
  let := castagnoli
  have hpieces : blockChunks (twoBlocks 0 7).reader 1048576 1048577 = [⟨0,1,0,1⟩] := by
    have hpiece : firstChunk (twoBlocks 0 7).reader 1048577 1048576 0 = ⟨0,1,0,1⟩ := by decide
    rw [blockChunks,blockChunksFrom_of_lt (by decide),hpiece,blockChunksFrom_of_le (by decide)]
  have hspared : Spared (twoBlocks 0 7).reader ((twoBlocksState 0 7).start (twoBlocks 0 7).device) 1048576 [1] := by
    refine .inr (.inr ⟨[],⟨0,1,0,1⟩,[],hpieces,List.forall_mem_nil _,?_,?_⟩)
    · rintro ⟨f,hf,hz⟩
      obtain rfl : BatEntry.fromU64 7 = f := Option.some.inj hf
      revert hz
      decide
    · intro off hp
      have : BatEntry.fromU64 7 = ⟨.fullyPresent,off⟩ := Option.some.inj hp
      have hstate : PayloadState.partiallyPresent = .fullyPresent := congrArg BatEntry.state this
      cases hstate
  obtain ⟨e,hrun⟩ := writeAt_of_spared hspared
  exact ⟨e,_,hrun,refused_write_unchanged (fun _ => none) (.inr (twoBlocks_opens _ _ (by decide) (by decide))) _ .start
    _ _ _ _ hrun hspared⟩

theorem World.Ready.served [Crc32c] {r : VhdxReader} {w : World} (h : w.Ready r)
    (hin : ∀ off, (⟨.fullyPresent,off⟩ : BatEntry) ∈ w.bat → off + r.blockSize ≤ w.devSize) : w.Served r where
  small := h.small
  le := h.size.ge
  inside _ off hp := hin off (List.mem_of_getElem? hp)

/-- A read of one byte. -/
private theorem readAt_byte {r : VhdxReader} {w : World} {v : Nat} (h : w.Served r) (hin : InRange r v 1)
    (hr : w.Readable (batIdxOf r v)) :
    (readAt r v 1).run World.handle w = (.ok [w.disk r v],w) := by
  refine (readAt_run h hin fun u hlo hhi => ?_).trans ?_
  · obtain rfl : u = v := by omega
    exact hr
  · rw [World.diskBytes,List.range_one]
    rfl

section crossing
variable [Crc32c] {w : World}

def crossing : BlockChunk := ⟨1048575,0,0,1⟩

omit [Crc32c] in
private theorem crossing_pieces :
    blockChunks (twoBlocks 0 7).reader 1048575 (1048575 + [(1 : UInt8),1].length) = [crossing] ++ ⟨0,1,1,1⟩ :: [] := by
  have hp1 : firstChunk (twoBlocks 0 7).reader (1048575 + [(1 : UInt8),1].length) 1048575 0 = crossing := by decide
  have hp2 : firstChunk (twoBlocks 0 7).reader (1048575 + [(1 : UInt8),1].length) (1048575 + crossing.chunkLen)
    (0 + crossing.chunkLen) =
    ⟨0,1,1,1⟩ := by decide
  rw [blockChunks,blockChunksFrom_of_lt (by decide),hp1,blockChunksFrom_of_lt (by decide),hp2,blockChunksFrom_of_le (by decide)]
  rfl

private theorem crossing_bat (hw : w.Ready (twoBlocks 0 7).reader)
    (hg : w.Grants (twoBlocks 0 7).reader crossing.batIdx) (hbat : w.bat = [⟨.notPresent,0⟩,⟨.partiallyPresent,0⟩])
    (ha : w.Absent crossing.batIdx) :
    (w.wrote (twoBlocks 0 7).reader crossing [1]).bat =
    [⟨.fullyPresent,tailOffset (twoBlocks 0 7).reader w.devSize⟩,⟨.partiallyPresent,0⟩] := by
  rw [ha.bat_wrote hw hg (by rw [hbat]; decide),hbat]
  rfl

omit [Crc32c] in
/-- A partially present block refuses. -/
private theorem refuses_second {e : BatEntry} (hbat : w.bat = [e,⟨.partiallyPresent,0⟩]) : w.Refuses ⟨0,1,1,1⟩ := by
  have hone : w.bat[1]? = some ⟨.partiallyPresent,0⟩ := by rw [hbat]; rfl
  constructor
  · rintro ⟨f,hf,hz⟩
    obtain rfl := Option.some.inj (hone.symm.trans hf)
    cases hz
  · intro off hp
    cases Option.some.inj (hone.symm.trans hp)

end crossing

/-- A write from the last byte of an absent block into a partially present one writes that byte, and is refused. -/
theorem refused_write_half_done :
    letI := castagnoli
    ∃ e w', (openRwOnDevice (twoBlocks 0 7).device).on (twoBlocks 0 7).device =
        (.ok ((twoBlocks 0 7).reader,twoBlocksState 0 7),(twoBlocks 0 7).device) ∧
      (writeAt (twoBlocks 0 7).reader 1048575 [1,1]).run World.handle
        ((twoBlocksState 0 7).start (twoBlocks 0 7).device) = (.err e,w') ∧
      (readAt (twoBlocks 0 7).reader 1048575 1).run World.handle ((twoBlocksState 0 7).start (twoBlocks 0 7).device) =
        (.ok [0],(twoBlocksState 0 7).start (twoBlocks 0 7).device) ∧
      (readAt (twoBlocks 0 7).reader 1048575 1).run World.handle w' = (.ok [1],w') := by
  let := castagnoli
  have hw := twoBlocks_writable 0 7 (by decide) (by decide)
  have hg : World.Grants _ _ crossing.batIdx := twoBlocks_grants 0 7
  have hbat : ((twoBlocksState 0 7).start (twoBlocks 0 7).device).bat = [⟨.notPresent,0⟩,⟨.partiallyPresent,0⟩] :=
    (by decide : [BatEntry.fromU64 0,BatEntry.fromU64 7] = [⟨.notPresent,0⟩,⟨.partiallyPresent,0⟩])
  have hopen := twoBlocks_opens 0 7 (by decide) (by decide)
  generalize (twoBlocksState 0 7).start (twoBlocks 0 7).device = w at hw hbat hg hopen ⊢
  have hat : batIdxOf (twoBlocks 0 7).reader 1048575 = crossing.batIdx := by decide
  have hin : 1048575 % (twoBlocks 0 7).reader.blockSize = crossing.inBlock + 0 := by decide
  have ha : w.Absent crossing.batIdx := ⟨⟨.notPresent,0⟩,by rw [hbat]; rfl,rfl⟩
  have ht : w.Takes (twoBlocks 0 7).reader crossing := .inr ⟨ha,hg⟩
  have hbat' := crossing_bat hw.ready hg hbat ha
  obtain ⟨e,hrun⟩ := writeAt_refused_after hw (by decide) crossing_pieces
    (show w.TakesAll (twoBlocks 0 7).reader [1,1] [crossing] from ⟨ht,trivial⟩) (refuses_second hbat')
  refine ⟨e,_,hopen,hrun,?_,?_⟩
  · have hserved : w.Served (twoBlocks 0 7).reader := hw.ready.served fun off hoff => by
      rw [hbat] at hoff
      simp at hoff
    rw [readAt_byte hserved (by decide) (.inl (hat ▸ ha)),World.disk,hat,ha.blockByte]
  · have hserved : (w.wrote (twoBlocks 0 7).reader crossing [1]).Served (twoBlocks 0 7).reader :=
        (hw.ready.wrote ht).served fun off hoff => by
      rw [hbat'] at hoff
      obtain rfl : off = tailOffset (twoBlocks 0 7).reader w.devSize := by simpa using hoff
      exact ha.devSize_wrote.ge
    have hthere : (w.wrote (twoBlocks 0 7).reader crossing [1]).Readable (batIdxOf (twoBlocks 0 7).reader 1048575) :=
      .inr ⟨_,hat ▸ (congrArg (·[crossing.batIdx]?) hbat').trans rfl⟩
    have hbyte : (w.wrote (twoBlocks 0 7).reader crossing [1]).blockByte crossing.batIdx (crossing.inBlock + 0) = 1 :=
      hw.ready.blockByte_wrote ht (by rw [hbat]; decide) rfl (by decide) (by decide)
    have hread := readAt_byte hserved (by decide) hthere
    rw [World.disk,hat,hin,hbyte] at hread
    exact hread

end ImgVhdx
