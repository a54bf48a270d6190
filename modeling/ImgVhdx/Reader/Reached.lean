import ImgVhdx.Reader.Single

/-! Whole writes with the reader to themselves, and the states that one after the other reach. -/
namespace ImgVhdx
open Lib ReaderProg

section chunks
variable {r : VhdxReader} {stop : Nat}

/-- A piece begins at a byte of the transfer. -/
theorem exists_firstChunk {u b : Nat} {c : BlockChunk} (hc : c ∈ blockChunksFrom r stop u b) :
    ∃ v, u ≤ v ∧ v < stop ∧ c = firstChunk r stop v (b + (v - u)) := by
  induction hn : stop - u using Nat.strongRecOn generalizing u b with
  | ind n ih =>
    by_cases h : u < stop
    · have hpos := firstChunk_pos (r := r) (b := b) h
      rw [blockChunksFrom_of_lt h] at hc
      rcases List.mem_cons.mp hc with rfl | hc
      · exact ⟨u,le_rfl,h,by rw [Nat.sub_self,Nat.add_zero]⟩
      · obtain ⟨v,hlo,hhi,rfl⟩ := ih _ (by omega) hc rfl
        refine ⟨v,by omega,hhi,?_⟩
        congr 1
        omega
    · rw [blockChunksFrom_of_le (by omega)] at hc
      cases hc

/-- The pieces of a transfer lie in different blocks. -/
theorem batIdx_apart (u b : Nat) : (blockChunksFrom r stop u b).Pairwise fun x y => x.batIdx ≠ y.batIdx := by
  induction hn : stop - u using Nat.strongRecOn generalizing u b with
  | ind n ih =>
    by_cases h : u < stop
    swap
    · rw [blockChunksFrom_of_le (by omega)]
      exact .nil
    have hpos := firstChunk_pos (r := r) (b := b) h
    rw [blockChunksFrom_of_lt h]
    refine List.pairwise_cons.mpr ⟨fun c hc he => ?_,ih _ (by omega) _ _ rfl⟩
    obtain ⟨v,hlo,hhi,rfl⟩ := exists_firstChunk hc
    have hblock : u / r.blockSize = v / r.blockSize := dataBatIndex_inj he
    have hu := Nat.div_add_mod u r.blockSize
    have hv := Nat.div_add_mod v r.blockSize
    have hm := Nat.mod_lt v r.blockSize_pos
    rw [← hblock] at hv
    simp only [firstChunk] at hlo
    omega

end chunks

section
variable [Crc32c] {r : VhdxReader} {w w0 : World} {buf : Bytes} {c : BlockChunk}

def World.wroteAll (r : VhdxReader) (buf : Bytes) (w : World) (cs : List BlockChunk) : World :=
  cs.foldl (fun w c => w.wrote r c (slice buf c.bufPos c.chunkLen)) w

def World.TakesAll (r : VhdxReader) (buf : Bytes) : World → List BlockChunk → Prop
  | _, [] => True
  | w, c :: rest => w.Takes r c ∧ World.TakesAll r buf (w.wrote r c (slice buf c.bufPos c.chunkLen)) rest

theorem World.takesAll_append {a b : List BlockChunk} : w.TakesAll r buf (a ++ b) ↔
    w.TakesAll r buf a ∧ (w.wroteAll r buf a).TakesAll r buf b := by
  induction a generalizing w with
  | nil => exact ⟨fun h => ⟨trivial,h⟩,fun h => h.2⟩
  | cons c a ih =>
    change (w.Takes r c ∧ World.TakesAll r buf _ (a ++ b)) ↔ (w.Takes r c ∧ World.TakesAll r buf _ a) ∧ _
    rw [ih,and_assoc]
    rfl

theorem World.Present.wrote_eq {off : Nat} {src : Bytes} (h : w.Present c.batIdx off) :
    w.wrote r c src = { w with dev := w.dev.put (off + c.inBlock) src } := by
  rw [World.wrote,h]
  rfl

theorem World.Absent.wrote_eq {src : Bytes} (h : w.Absent c.batIdx) : w.wrote r c src =
    { w.granted r c.batIdx with dev := (w.granted r c.batIdx).dev.put (tailOffset r w.devSize + c.inBlock) src } := by
  obtain ⟨e,he,hz⟩ := h
  rw [World.wrote,he]
  refine if_neg fun hs => ?_
  rw [hs] at hz
  cases hz

theorem World.Ready.wrote (h : w.Ready r) (ht : w.Takes r c) {src : Bytes} : (w.wrote r c src).Ready r := by
  have hput : ∀ {w : World} {off : Nat}, w.Ready r → World.Ready r { w with dev := w.dev.put off src } := fun h => {
    writable := h.writable
    unlocked := ⟨h.unlocked.size,h.unlocked.header⟩
    size := h.size
    small := h.small
    slots := h.slots
    log := h.log
    bat := h.bat }
  rcases ht with ⟨off,hp,-⟩ | ⟨ha,hg⟩
  · rw [hp.wrote_eq]
    exact hput h
  · rw [ha.wrote_eq]
    exact hput (h.granted hg)

theorem World.Absent.bat_wrote (ha : w.Absent c.batIdx) (h : w.Ready r) (hg : w.Grants r c.batIdx)
    (hi : c.batIdx < w.bat.length) (src : Bytes) :
    (w.wrote r c src).bat = w.bat.set c.batIdx ⟨.fullyPresent,tailOffset r w.devSize⟩ := by
  rw [ha.wrote_eq]
  exact World.bat_granted h hg hi

theorem World.Absent.devSize_wrote (ha : w.Absent c.batIdx) {src : Bytes} :
    (w.wrote r c src).devSize = tailOffset r w.devSize + r.blockSize := by
  rw [ha.wrote_eq]
  exact World.devSize_granted

/-- The BAT after a piece: one entry more, or as it was. -/
theorem World.Ready.bat_wrote (h : w.Ready r) (ht : w.Takes r c) (hi : c.batIdx < w.bat.length) (src : Bytes) :
    (w.wrote r c src).bat = w.bat ∨ (w.wrote r c src).bat =
    w.bat.set c.batIdx ⟨.fullyPresent,tailOffset r w.devSize⟩ := by
  rcases ht with ⟨off,hp,-⟩ | ⟨ha,hg⟩
  · rw [hp.wrote_eq]
    exact .inl rfl
  · exact .inr (ha.bat_wrote h hg hi _)

theorem World.Ready.length_wrote (h : w.Ready r) (ht : w.Takes r c) (hi : c.batIdx < w.bat.length) (src : Bytes) :
    (w.wrote r c src).bat.length = w.bat.length := by
  rcases h.bat_wrote ht hi src with hb | hb <;> rw [hb]
  rw [List.length_set]

/-- A piece that was written is there to be read. -/
theorem World.Ready.blockByte_wrote (h : w.Ready r) (ht : w.Takes r c) (hi : c.batIdx < w.bat.length) {src : Bytes}
    (hlen : src.length = c.chunkLen) (hb : c.inBlock + c.chunkLen ≤ r.blockSize) {k : Nat} (hk : k < src.length) :
    (w.wrote r c src).blockByte c.batIdx (c.inBlock + k) = src[k] := by
  rcases ht with ⟨off,hp,hle⟩ | ⟨ha,hg⟩
  · have hp' : (w.wrote r c src).Present c.batIdx off := by
      rw [hp.wrote_eq]
      exact hp
    rw [hp'.blockByte,hp.wrote_eq,← Nat.add_assoc]
    exact Device.byte_put_inside (by rw [h.size,hlen]; exact hle) hk
  · have hp' : (w.wrote r c src).Present c.batIdx (tailOffset r w.devSize) := by
      exact (congrArg (·[c.batIdx]?) (ha.bat_wrote h hg hi src)).trans (List.getElem?_set_self hi)
    rw [hp'.blockByte,ha.wrote_eq,← Nat.add_assoc]
    refine Device.byte_put_inside ?_ hk
    rw [(h.granted hg).size,World.devSize_granted]
    omega

theorem World.growable_wrote {src : Bytes} : (w.wrote r c src).dev.growable = w.dev.growable := by
  unfold World.wrote
  split
  · split_ifs
    · rfl
    · exact World.growable_granted
  · rfl

def Fits (r : VhdxReader) (buf : Bytes) (n : Nat) (cs : List BlockChunk) : Prop :=
  ∀ c ∈ cs, c.batIdx < n ∧ c.bufPos + c.chunkLen ≤ buf.length ∧ c.inBlock + c.chunkLen ≤ r.blockSize

theorem World.Ready.wroteAll {cs : List BlockChunk} (h : w.Ready r) (ht : w.TakesAll r buf cs)
    (hfit : Fits r buf w.bat.length cs) :
    (w.wroteAll r buf cs).Ready r ∧ (w.wroteAll r buf cs).bat.length = w.bat.length := by
  induction cs generalizing w with
  | nil => exact ⟨h,rfl⟩
  | cons c rest ih =>
    have hlen := h.length_wrote ht.1 (hfit c List.mem_cons_self).1 (slice buf c.bufPos c.chunkLen)
    obtain ⟨hr,hl⟩ := ih (h.wrote ht.1) ht.2 (fun d hd => hlen ▸ hfit d (List.mem_cons_of_mem _ hd))
    exact ⟨hr,hl.trans hlen⟩

/-- How a list of pieces goes: all are written, or one is refused after those before it were, or panics there. -/
theorem writeChunks_cases {cs : List BlockChunk} (h : w.Ready r) (hfit : Fits r buf w.bat.length cs) :
    (w.TakesAll r buf cs ∧ (Prog.forEach (writeChunk r buf) cs).run World.handle w = (.ok (),w.wroteAll r buf cs)) ∨
    ∃ front c rest, cs = front ++ c :: rest ∧ w.TakesAll r buf front ∧ ¬ (w.wroteAll r buf front).Takes r c ∧
      (((w.wroteAll r buf front).Absent c.batIdx → w.dev.growable = false) ∧
        (∃ e, (Prog.forEach (writeChunk r buf) cs).run World.handle w = (.err e,w.wroteAll r buf front)) ∨
      (w.wroteAll r buf front).Absent c.batIdx ∧ (w.wroteAll r buf front).Overruns r c.batIdx ∧
        ∃ v, (Prog.forEach (writeChunk r buf) cs).run World.handle w = (.panic,v) ∧
        (w.wroteAll r buf front).Stopped r v) := by
  induction cs generalizing w with
  | nil => exact .inl ⟨trivial,rfl⟩
  | cons c rest ih =>
    obtain ⟨hi,hc,hb⟩ := hfit c List.mem_cons_self
    rw [Prog.forEach_cons,Prog.run_bind]
    rcases writeChunk_cases h hi hc hb with ⟨ht,hrun⟩ | ⟨ht,hg,e,hrun⟩ | ⟨ha,hover,v,hrun,hv⟩
    · rw [hrun]
      have hlen := h.length_wrote ht hi (slice buf c.bufPos c.chunkLen)
      rcases ih (h.wrote ht) (fun d hd => hlen ▸ hfit d (List.mem_cons_of_mem _ hd)) with ⟨hall,hrest⟩ |
        ⟨front,x,more,rfl,hall,hx,hend⟩
      · exact .inl ⟨⟨ht,hall⟩,hrest⟩
      · refine .inr ⟨c :: front,x,more,rfl,⟨ht,hall⟩,hx,?_⟩
        rw [World.growable_wrote] at hend
        exact hend
    · rw [hrun]
      exact .inr ⟨[],c,rest,rfl,trivial,ht,.inl ⟨hg,e,rfl⟩⟩
    · rw [hrun]
      refine .inr ⟨[],c,rest,rfl,trivial,?_,.inr ⟨ha,hover,v,rfl,hv⟩⟩
      rintro (⟨off,hp,-⟩ | ⟨-,hg⟩)
      · obtain ⟨e,he,hz⟩ := ha
        obtain rfl := Option.some.inj (he.symm.trans hp)
        cases hz
      · exact hover.not_grants hg

def World.Covers (r : VhdxReader) (w : World) : Prop := ∀ v < r.virtualSize, batIdxOf r v < w.bat.length

omit [Crc32c] in
theorem fits_blockChunks {o : Nat} (hcov : w.Covers r) (hin : InRange r o buf.length) :
    Fits r buf w.bat.length (blockChunks r o (o + buf.length)) := by
  intro c hc
  have hof := mem_blockChunks hc
  have hin' := hof.inside
  obtain ⟨v,hlo,hhi,rfl⟩ := exists_firstChunk hc
  refine ⟨hcov v ?_,by omega,hof.block⟩
  rcases hin with h0 | ⟨hend,-⟩
  · omega
  · omega

omit [Crc32c] in
/-- A range past the end of the disk. -/
theorem transferEnd_refused {o n : Nat} (hin : ¬ InRange r o n) : ∃ e, transferEnd r o n = .err e := by
  have hlen : n ≠ 0 := fun h0 => hin (.inl h0)
  by_cases h64 : o + n < 2^64
  · have hend : o + n > r.virtualSize := by
      by_contra hle
      exact hin (.inr ⟨by omega,h64⟩)
    rw [transferEnd,if_neg hlen,checkedAdd_of_lt h64,Outcome.okOr_some,Outcome.ok_bind,Outcome.rejectIf_of _ hend]
    exact ⟨_,rfl⟩
  · rw [transferEnd,if_neg hlen,checkedAdd,if_neg h64]
    exact ⟨_,rfl⟩

/-- How a write goes: refused before it begins, or as its pieces go. -/
theorem writeAt_cases (h : w.Ready r) (hcov : w.Covers r) (hw : r.writable = true) (o : Nat) (buf : Bytes) :
    (¬ InRange r o buf.length ∧ ∃ e, (writeAt r o buf).run World.handle w = (.err e,w)) ∨
    (InRange r o buf.length ∧
      ((w.TakesAll r buf (blockChunks r o (o + buf.length)) ∧
        (writeAt r o buf).run World.handle w = (.ok (),w.wroteAll r buf (blockChunks r o (o + buf.length)))) ∨
      ∃ front c rest, blockChunks r o (o + buf.length) = front ++ c :: rest ∧ w.TakesAll r buf front ∧
        ¬ (w.wroteAll r buf front).Takes r c ∧
        (((w.wroteAll r buf front).Absent c.batIdx → w.dev.growable = false) ∧
          (∃ e, (writeAt r o buf).run World.handle w = (.err e,w.wroteAll r buf front)) ∨
        (w.wroteAll r buf front).Absent c.batIdx ∧ (w.wroteAll r buf front).Overruns r c.batIdx ∧
          ∃ v, (writeAt r o buf).run World.handle w = (.panic,v) ∧ (w.wroteAll r buf front).Stopped r v))) := by
  unfold writeAt
  rw [if_neg (by simp [hw])]
  by_cases hlen : buf.length = 0
  · have hnil : blockChunks r o (o + buf.length) = [] := by rw [hlen,blockChunks,blockChunksFrom_of_le (by omega)]
    rw [transferEnd,if_pos hlen,hnil]
    exact .inr ⟨.inl hlen,.inl ⟨trivial,rfl⟩⟩
  by_cases hin : InRange r o buf.length
  swap
  · obtain ⟨e,he⟩ := transferEnd_refused hin
    rw [he]
    exact .inl ⟨hin,e,rfl⟩
  obtain ⟨hend,h64⟩ := hin.resolve_left hlen
  refine .inr ⟨hin,?_⟩
  rw [Prog.run_bind_of_ok (Prog.run_lift_of_ok (transferEnd_of_le hend h64 hlen))]
  dsimp only
  rw [Prog.run_bind]
  rcases writeChunks_cases h (fits_blockChunks hcov hin) with ⟨hall,hrun⟩ | ⟨front,c,rest,hcs,hall,hc,hgo⟩
  · rw [hrun]
    exact .inl ⟨hall,rfl⟩
  · refine .inr ⟨front,c,rest,hcs,hall,hc,?_⟩
    rcases hgo with ⟨hg,e,hrun⟩ | ⟨ha,hover,v,hrun,hv⟩
    · rw [hrun]
      exact .inl ⟨hg,e,rfl⟩
    · rw [hrun]
      exact .inr ⟨ha,hover,v,rfl,hv⟩

/-- A write all of whose pieces can be written. -/
theorem writeAt_of_takesAll {o : Nat} (h : w.Ready r) (hcov : w.Covers r) (hw : r.writable = true)
    (hin : InRange r o buf.length) (ht : w.TakesAll r buf (blockChunks r o (o + buf.length))) :
    (writeAt r o buf).run World.handle w = (.ok (),w.wroteAll r buf (blockChunks r o (o + buf.length))) := by
  rcases writeAt_cases h hcov hw o buf with ⟨hno,-⟩ | ⟨-,⟨-,hok⟩ | ⟨front,c,rest,hcs,-,hc,-⟩⟩
  · exact absurd hin hno
  · exact hok
  · rw [hcs] at ht
    exact absurd (World.takesAll_append.mp ht).2.1 hc

/-- The states one write after the other reaches, each of which came back. -/
inductive Reached (r : VhdxReader) (w0 : World) : World → Prop
  | start : Reached r w0 w0
  | write {w w' : World} {o : Nat} {buf : Bytes} {x : Outcome Error Unit} (before : Reached r w0 w)
      (run : (writeAt r o buf).run World.handle w = (x,w')) (returned : x ≠ .panic) : Reached r w0 w'

/-- And those in the middle of a write, after some of its pieces. -/
inductive UnderWay (r : VhdxReader) (w0 : World) : World → Prop
  | pieces {w w' : World} {o : Nat} {buf : Bytes} {front rest : List BlockChunk} (before : Reached r w0 w)
      (inRange : InRange r o buf.length) (split : blockChunks r o (o + buf.length) = front ++ rest)
      (run : (Prog.forEach (writeChunk r buf) front).run World.handle w = (.ok (),w')) : UnderWay r w0 w'

/-- Ready to be written to by `r`. -/
structure World.Writable (r : VhdxReader) (w : World) : Prop where
  ready : w.Ready r
  covers : w.Covers r
  open_rw : r.writable = true

theorem writeAt_of_outOfRange {o : Nat} (h : w.Writable r) (hin : ¬ InRange r o buf.length) :
    ∃ e, (writeAt r o buf).run World.handle w = (.err e,w) :=
  ((writeAt_cases h.ready h.covers h.open_rw o buf).resolve_right fun hno => hin hno.1).2

def KeptByPieces (r : VhdxReader) (I : World → Prop) : Prop :=
  ∀ (w : World) (c : BlockChunk) (src : Bytes), w.Ready r → I w → w.Takes r c → c.batIdx < w.bat.length →
    I (w.wrote r c src)

theorem KeptByPieces.wroteAll {I : World → Prop} (hkept : KeptByPieces r I) {cs : List BlockChunk} (h : w.Ready r)
    (hI : I w) (ht : w.TakesAll r buf cs) (hfit : Fits r buf w.bat.length cs) : I (w.wroteAll r buf cs) := by
  induction cs generalizing w with
  | nil => exact hI
  | cons c rest ih =>
    have hi := (hfit c List.mem_cons_self).1
    have hlen := h.length_wrote ht.1 hi (slice buf c.bufPos c.chunkLen)
    exact ih (h.wrote ht.1) (hkept w c _ h hI ht.1 hi) ht.2 fun d hd => hlen ▸ hfit d (List.mem_cons_of_mem _ hd)

/-- A write left the first of its pieces written, and all of them where it succeeded; a panic is over a block that is
not there. -/
theorem pieces_of_run {w' : World} {o : Nat} {x : Outcome Error Unit} (h : w.Writable r)
    (hrun : (writeAt r o buf).run World.handle w = (x,w')) :
    ∃ front rest, blockChunks r o (o + buf.length) = front ++ rest ∧ w.TakesAll r buf front ∧
    Fits r buf w.bat.length front ∧
      (x = .ok () → rest = []) ∧ (x ≠ .panic ∧ w' = w.wroteAll r buf front ∨
        x = .panic ∧ ∃ c ∈ rest, (w.wroteAll r buf front).Absent c.batIdx ∧ c.batIdx < w.bat.length ∧
        (w.wroteAll r buf front).Stopped r w') := by
  rcases writeAt_cases h.ready h.covers h.open_rw o buf with ⟨-,e,he⟩ | ⟨hin,⟨hall,hok⟩ | ⟨front,c,rest,hcs,hall,-,hgo⟩⟩
  · obtain ⟨rfl,rfl⟩ := Prod.mk.inj (hrun.symm.trans he)
    exact ⟨[],_,rfl,trivial,(fun _ hc => absurd hc List.not_mem_nil),(fun hok => by cases hok),
      .inl ⟨(fun hp => by cases hp),rfl⟩⟩
  · obtain ⟨rfl,rfl⟩ := Prod.mk.inj (hrun.symm.trans hok)
    exact ⟨_,[],(List.append_nil _).symm,hall,fits_blockChunks h.covers hin,fun _ =>
      rfl,.inl ⟨(fun hp => by cases hp),rfl⟩⟩
  · have hfit := fits_blockChunks h.covers hin
    rw [hcs] at hfit
    have hfront : Fits r buf w.bat.length front := fun d hd => hfit d (List.mem_append_left _ hd)
    rcases hgo with ⟨-,e,he⟩ | ⟨ha,-,v,hp,hv⟩
    · obtain ⟨rfl,rfl⟩ := Prod.mk.inj (hrun.symm.trans he)
      exact ⟨front,_,hcs,hall,hfront,(fun hok => by cases hok),.inl ⟨(fun hp => by cases hp),rfl⟩⟩
    · obtain ⟨rfl,rfl⟩ := Prod.mk.inj (hrun.symm.trans hp)
      exact ⟨front,_,hcs,hall,hfront,(fun hok => by cases hok),
        .inr ⟨rfl,c,List.mem_cons_self,ha,(hfit c (List.mem_append_right _ List.mem_cons_self)).1,hv⟩⟩

/-- One that came back left nothing else. -/
theorem pieces_of_returned {w' : World} {o : Nat} {x : Outcome Error Unit} (h : w.Writable r)
    (hrun : (writeAt r o buf).run World.handle w = (x,w')) (hx : x ≠ .panic) :
    ∃ front rest, blockChunks r o (o + buf.length) = front ++ rest ∧ w.TakesAll r buf front ∧
      Fits r buf w.bat.length front ∧ w' = w.wroteAll r buf front ∧ (x = .ok () → rest = []) := by
  obtain ⟨front,rest,hcs,hall,hfit,hok,⟨-,hw⟩ | ⟨hp,-⟩⟩ := pieces_of_run h hrun
  · exact ⟨front,rest,hcs,hall,hfit,hw,hok⟩
  · exact absurd hp hx

theorem World.Writable.wroteAll {cs : List BlockChunk} (h : w.Writable r) (ht : w.TakesAll r buf cs)
    (hfit : Fits r buf w.bat.length cs) :
    (w.wroteAll r buf cs).Writable r := by
  obtain ⟨hready,hlen⟩ := h.ready.wroteAll ht hfit
  exact ⟨hready,fun v hv => hlen ▸ h.covers v hv,h.open_rw⟩

/-- What holds at first, and no piece can spoil, holds of every state that is reached. -/
theorem Reached.invariant {I : World → Prop} (hreach : Reached r w0 w) (h0 : w0.Writable r) (hI : I w0)
    (hkept : KeptByPieces r I) :
    w.Writable r ∧ I w := by
  induction hreach with
  | start => exact ⟨h0,hI⟩
  | write _ hrun hx ih =>
    obtain ⟨hw,hIw⟩ := ih
    obtain ⟨front,-,-,ht,hfit,rfl,-⟩ := pieces_of_returned hw hrun hx
    exact ⟨hw.wroteAll ht hfit,hkept.wroteAll hw.ready hIw ht hfit⟩

theorem UnderWay.invariant {I : World → Prop} (hreach : UnderWay r w0 w) (h0 : w0.Writable r) (hI : I w0)
    (hkept : KeptByPieces r I) :
    w.Writable r ∧ I w := by
  obtain ⟨before,hin,hsplit,hrun⟩ := hreach
  obtain ⟨hw,hIw⟩ := before.invariant h0 hI hkept
  have hall := fits_blockChunks hw.covers hin
  rw [hsplit] at hall
  have hfit : Fits r _ _ _ := fun d hd => hall d (List.mem_append_left _ hd)
  rcases writeChunks_cases hw.ready hfit with ⟨ht,hok⟩ | ⟨front,c,rest,-,-,-,⟨-,e,he⟩ | ⟨-,-,v,hp,-⟩⟩
  · obtain ⟨-,rfl⟩ := Prod.mk.inj (hrun.symm.trans hok)
    exact ⟨hw.wroteAll ht hfit,hkept.wroteAll hw.ready hIw ht hfit⟩
  · cases (Prod.mk.inj (hrun.symm.trans he)).1
  · cases (Prod.mk.inj (hrun.symm.trans hp)).1

section opened
variable {d d' : Device} {s : ReaderState}

theorem exists_opensAs (h : (openRwOnDevice d).on d = (.ok (r,s),d')) : ∃ l, OpensAs d r s d' l := by
  have hboth := h
  unfold openRwOnDevice at hboth
  split_ifs at hboth with hw
  · obtain ⟨l,d1,header,slot,d2,p,d3,hl,-,hp,hf⟩ := openInner_eq_ok hboth
    obtain ⟨m,hm,-⟩ := readMetadata_eq_ok hp
    obtain ⟨-,-,-,-,-,-,-,-,-,hb⟩ := finishOpen_eq_ok hf
    obtain ⟨b,-,hb,-⟩ := readBat_eq_ok hb
    exact ⟨_,h,l,d1,m,b,hl,hm,hb,rfl⟩
  · cases (Prod.mk.inj hboth).1

/-- What an open for writing leaves is ready to be written to. -/
theorem ready_of_opened (h : (openRwOnDevice d).on d = (.ok (r,s),d')) (hsmall : d.size < 2^64) :
    (s.start d').Writable r := by
  obtain ⟨l,hopens⟩ := exists_opensAs h
  obtain ⟨hstarted,-,hgrown⟩ := hopens.started
  obtain ⟨writable,rc,hw,hinner⟩ := Opens.inner (.inr h)
  obtain ⟨header,slot,chain,regions,hopened,hdev⟩ := openInner_inv hw hinner
  have hanchored : (s.start d').Anchored := hdev ▸ hopened.anchored
  have hsize : s.devSize = d'.size := hstarted.size
  refine ⟨?_,hstarted.covers,hstarted.writable⟩
  exact {
    writable := hstarted.devWritable
    unlocked := ⟨rfl,rfl⟩
    size := hsize.symm
    small := hsize.le.trans_lt (hgrown hsmall)
    slots := (hanchored.slots .two).trans hsize.ge
    log := fun hn => by
      obtain ⟨-,hend,-⟩ := hanchored.log hn
      have hlen : ¬ s.header.logLength < 8192 := fun hlt => hn (.inr (.inr hlt))
      rw [UInt32.lt_iff_toNat_lt] at hlen
      have h8192 : (8192 : UInt32).toNat = 8192 := rfl
      change s.header.logOffset.toNat + 8192 ≤ s.devSize
      have hend' : s.header.logOffset.toNat + s.header.logLength.toNat ≤ d'.size := hend
      omega
    bat := fun i hi => by
      have hroom := hstarted.batRoom
      have hstart := hstarted.batStart
      have hinside := hstarted.batInside
      have hi' : i < s.bat.length := hi
      change r.batRegionOff + i * batEntrySize + 8 ≤ s.devSize
      rw [show batEntrySize = 8 from rfl] at hroom ⊢
      rw [Span.stop] at hinside
      omega }

end opened

/-- A write inside one block is its one piece. -/
theorem writeAt_within {o : Nat} {b : Bytes} (hw : w.Writable r) (hin : InRange r o b.length) (hne : b.length ≠ 0)
    (hblock : o % r.blockSize + b.length ≤ r.blockSize) (ht : w.Takes r ⟨o % r.blockSize,batIdxOf r o,0,b.length⟩) :
    (writeAt r o b).run World.handle w = (.ok (),w.wrote r ⟨o % r.blockSize,batIdxOf r o,0,b.length⟩ b) := by
  have hrun := writeAt_of_takesAll hw.ready hw.covers hw.open_rw hin
    (by rw [blockChunks_within hne hblock]; exact ⟨ht,trivial⟩)
  rw [blockChunks_within hne hblock] at hrun
  rw [hrun]
  change (Outcome.ok (),w.wrote r _ (slice b 0 b.length)) = _
  rw [slice_eq_self rfl]

/-- Where the block is there, its bytes go straight to the file. -/
theorem writeAt_present {o off : Nat} {b : Bytes} (hw : w.Writable r) (hin : InRange r o b.length) (hne : b.length ≠ 0)
    (hblock : o % r.blockSize + b.length ≤ r.blockSize) (hp : w.Present (batIdxOf r o) off)
    (hroom : off + o % r.blockSize + b.length ≤ w.devSize) :
    (writeAt r o b).run World.handle w = (.ok (),{ w with dev := w.dev.put (off + o % r.blockSize) b }) :=
  (writeAt_within hw hin hne hblock (.inl ⟨off,hp,hroom⟩)).trans (congrArg (Prod.mk _) hp.wrote_eq)

omit [Crc32c] in
/-- A write of one byte at the start of the disk is one piece. -/
theorem first_byte_piece (b : Build) (x : UInt8) : blockChunks b.reader 0 (0 + [x].length) = [⟨0,0,0,1⟩] :=
  (blockChunks_within Nat.one_ne_zero (show 0 % oneMib + 1 ≤ oneMib by decide)).trans
    (congrArg (fun c : BlockChunk => [c])
      (by decide : (⟨0 % oneMib,dataBatIndex (0 / oneMib) 4096,0,1⟩ : BlockChunk) = ⟨0,0,0,1⟩))

/-- The first byte of a disk whose first block is there is written where the block is. -/
theorem writeAt_first_byte {b : Build} {off : Nat} (hw : w.Writable b.reader) (hp : w.Present 0 off)
    (hin : off + 1 ≤ w.devSize) (hdisk : 1 ≤ b.virtualSize) (x : UInt8) :
    (writeAt b.reader 0 [x]).run World.handle w = (.ok (),{ w with dev := w.dev.put off [x] }) := by
  have hidx : batIdxOf b.reader 0 = 0 := (by decide : dataBatIndex (0 / oneMib) 4096 = 0)
  exact writeAt_present hw (show InRange b.reader 0 [x].length from .inr ⟨hdisk,(by decide : 0 + 1 < 2^64)⟩)
    Nat.one_ne_zero
    (show 0 % oneMib + 1 ≤ oneMib by decide) (hidx.symm ▸ hp) hin

end
end ImgVhdx
