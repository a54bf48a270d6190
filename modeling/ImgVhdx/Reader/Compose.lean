import ImgVhdx.Reader.Announced

/-! Transfers in parts: a write is the writes of its parts one after the other, down to every byte of the file. -/
namespace ImgVhdx
open Lib ReaderProg

def flush (r : VhdxReader) : ReaderProg Unit := if ¬ r.writable then return () else devFlush

/-- One write after another, each where the one before it ends. -/
def writeParts [Crc32c] (r : VhdxReader) : Nat → List Bytes → ReaderProg Unit
  | _, [] => return ()
  | o, part :: rest => do
    writeAt r o part
    writeParts r (o + part.length) rest

section halves
variable [Crc32c] {r : VhdxReader} {w : World} {i pos p n m off : Nat} {a b : Bytes}

/-- A block that was allocated for a first half is there for the second. -/
theorem World.Absent.present_wrote (ha : w.Absent i) (h : w.Ready r) (hg : w.Grants r i) (hi : i < w.bat.length) :
    (w.wrote r ⟨p,i,pos,n⟩ a).Present i (tailOffset r w.devSize) := by
  have hbat : (w.wrote r ⟨p,i,pos,n⟩ a).bat = _ := World.Absent.bat_wrote ha h hg hi a
  exact (congrArg (·[i]?) hbat).trans (List.getElem?_set_self hi)

/-- A piece is taken where its halves are, one after the other. -/
private theorem World.Ready.takes_halves (h : w.Ready r) (pos : Nat) (a : Bytes) (hi : i < w.bat.length)
    (hb : p + (n + m) ≤ r.blockSize) :
    w.Takes r ⟨p,i,pos,n + m⟩ ↔ w.Takes r ⟨p,i,pos,n⟩ ∧ (w.wrote r ⟨p,i,pos,n⟩ a).Takes r ⟨p + n,i,pos + n,m⟩ := by
  have hpresent : ∀ {off}, w.Present i off →
      w.wrote r ⟨p,i,pos,n⟩ a = { w with dev := w.dev.put (off + p) a } := fun hp => World.Present.wrote_eq hp
  constructor
  · rintro (⟨off,hp,hin⟩ | ⟨ha,hg⟩)
    · dsimp only at hp hin
      rw [hpresent hp]
      exact ⟨.inl ⟨off,hp,by dsimp only; omega⟩,.inl ⟨off,hp,by dsimp only; omega⟩⟩
    · refine ⟨.inr ⟨ha,hg⟩,.inl ⟨_,World.Absent.present_wrote ha h hg hi,?_⟩⟩
      have hsize : (w.wrote r ⟨p,i,pos,n⟩ a).devSize = tailOffset r w.devSize + r.blockSize :=
        World.Absent.devSize_wrote ha
      rw [hsize]
      dsimp only
      omega
  · rintro ⟨⟨off,hp,hin⟩ | ⟨ha,hg⟩,hsecond⟩
    · dsimp only at hp hin
      rw [hpresent hp] at hsecond
      rcases hsecond with ⟨o,hpo,hend⟩ | ⟨ha,-⟩
      · obtain rfl : off = o := congrArg BatEntry.fileOffset (Option.some.inj (hp.symm.trans hpo))
        exact .inl ⟨off,hp,by dsimp only at hend ⊢; omega⟩
      · exact absurd hp (World.Absent.not_present ha)
    · exact .inr ⟨ha,hg⟩

/-- And is the halves, one after the other. -/
private theorem World.Ready.wrote_halves (h : w.Ready r) (b : Bytes) (ht : w.Takes r ⟨p,i,pos,n⟩)
    (hi : i < w.bat.length) (ha : a.length = n) :
    w.wrote r ⟨p,i,pos,n + m⟩ (a ++ b) = (w.wrote r ⟨p,i,pos,n⟩ a).wrote r ⟨p + n,i,pos + n,m⟩ b := by
  have hsecond : ∀ {off}, (w.wrote r ⟨p,i,pos,n⟩ a).Present i off →
    (w.wrote r ⟨p,i,pos,n⟩ a).wrote r ⟨p + n,i,pos + n,m⟩ b =
      { w.wrote r ⟨p,i,pos,n⟩ a with dev := (w.wrote r ⟨p,i,pos,n⟩ a).dev.put (off + (p + n)) b } :=
        fun hp => World.Present.wrote_eq hp
  rcases ht with ⟨off,hp,-⟩ | ⟨habsent,hg⟩
  · have hfirst : ∀ {k} {bs : Bytes}, w.wrote r ⟨p,i,pos,k⟩ bs = { w with dev := w.dev.put (off + p) bs } :=
      World.Present.wrote_eq hp
    have hthere : (w.wrote r ⟨p,i,pos,n⟩ a).Present i off := by
      rw [hfirst]
      exact hp
    rw [hsecond hthere,hfirst,hfirst,← Device.put_put_append,ha,Nat.add_assoc]
  · have hfirst : ∀ {k} {bs : Bytes}, w.wrote r ⟨p,i,pos,k⟩ bs =
      { w.granted r i with dev := (w.granted r i).dev.put (tailOffset r w.devSize + p) bs } :=
        World.Absent.wrote_eq habsent
    rw [hsecond (World.Absent.present_wrote habsent h hg hi),hfirst,hfirst,← Device.put_put_append,ha,Nat.add_assoc]

end halves

section cut
variable {r : VhdxReader} {cursor mid stop pos : Nat}

/-- A block that ends before the cut is the same piece on both sides. -/
private theorem firstChunk_of_ends (pos : Nat) (h : r.blockSize - cursor % r.blockSize ≤ mid - cursor)
    (hmid : mid ≤ stop) :
    firstChunk r stop cursor pos = firstChunk r mid cursor pos := by
  simp only [firstChunk,BlockChunk.mk.injEq,true_and]
  omega

/-- A block that is cut is two pieces of one block, side by side. -/
private theorem firstChunk_of_cut (stop pos : Nat) (hlo : cursor < mid)
    (h : mid - cursor < r.blockSize - cursor % r.blockSize) :
    firstChunk r mid cursor pos = ⟨cursor % r.blockSize,batIdxOf r cursor,pos,mid - cursor⟩ ∧
    firstChunk r stop mid (pos + (mid - cursor)) =
    ⟨cursor % r.blockSize + (mid - cursor),batIdxOf r cursor,pos + (mid - cursor),
      (firstChunk r stop mid 0).chunkLen⟩ ∧
    (mid ≤ stop → firstChunk r stop cursor pos = ⟨cursor % r.blockSize,batIdxOf r cursor,pos,
      mid - cursor + (firstChunk r stop mid 0).chunkLen⟩) ∧
    cursor % r.blockSize + (mid - cursor + (firstChunk r stop mid 0).chunkLen) ≤ r.blockSize := by
  have hb := r.blockSize_pos
  have hd := Nat.div_add_mod cursor r.blockSize
  have hm : mid = r.blockSize * (cursor / r.blockSize) + (cursor % r.blockSize + (mid - cursor)) := by omega
  have hlt : cursor % r.blockSize + (mid - cursor) < r.blockSize := by omega
  have hmod : mid % r.blockSize = cursor % r.blockSize + (mid - cursor) := by
    conv_lhs => rw [hm]
    rw [Nat.mul_add_mod,Nat.mod_eq_of_lt hlt]
  have hdiv : mid / r.blockSize = cursor / r.blockSize := by
    conv_lhs => rw [hm]
    rw [Nat.mul_add_div hb,Nat.div_eq_of_lt hlt,Nat.add_zero]
  simp only [firstChunk,batIdxOf,hmod,hdiv,BlockChunk.mk.injEq,true_and]
  omega

end cut

section cut
variable [Crc32c] {r : VhdxReader} {w : World} {buf : Bytes}

/-- Pieces on both sides of a cut are taken, and leave the same, as the pieces of the whole. -/
private theorem World.Ready.takesAll_cut {cursor mid stop : Nat} (h : w.Ready r) (pos : Nat) (hlo : cursor ≤ mid)
    (hhi : mid ≤ stop) (hroom : pos + (stop - cursor) ≤ buf.length)
    (hcov : ∀ v, cursor ≤ v → v < stop → batIdxOf r v < w.bat.length) :
    (w.TakesAll r buf (blockChunksFrom r stop cursor pos) ↔ w.TakesAll r buf (blockChunksFrom r mid cursor pos) ∧
      (w.wroteAll r buf (blockChunksFrom r mid cursor pos)).TakesAll r buf
      (blockChunksFrom r stop mid (pos + (mid - cursor)))) ∧
    (w.TakesAll r buf (blockChunksFrom r mid cursor pos) → w.wroteAll r buf (blockChunksFrom r stop cursor pos) =
      (w.wroteAll r buf (blockChunksFrom r mid cursor pos)).wroteAll r buf
      (blockChunksFrom r stop mid (pos + (mid - cursor)))) := by
  induction hn : mid - cursor using Nat.strongRecOn generalizing w cursor pos with
  | ind n ih =>
    subst hn
    rcases Nat.eq_or_lt_of_le hlo with rfl | hlt
    · rw [Nat.sub_self,Nat.add_zero,blockChunksFrom_of_le (le_refl cursor)]
      exact ⟨⟨fun ht => ⟨trivial,ht⟩,fun ht => ht.2⟩,fun _ => rfl⟩
    rcases Nat.eq_or_lt_of_le hhi with rfl | hend
    · rw [blockChunksFrom_of_le (le_refl mid)]
      exact ⟨⟨fun ht => ⟨ht,trivial⟩,fun ht => ht.1⟩,fun _ => rfl⟩
    have hi := hcov cursor le_rfl (hlt.trans hend)
    by_cases hfar : r.blockSize - cursor % r.blockSize ≤ mid - cursor
    · -- the first block is whole on the left of the cut
      have hsame := firstChunk_of_ends pos hfar hend.le
      have hpos := firstChunk_pos (r := r) (b := pos) hlt
      have hle := firstChunk_le (r := r) (b := pos) hlt
      rw [blockChunksFrom_of_lt (hlt.trans hend),blockChunksFrom_of_lt hlt,hsame]
      have hidx : (firstChunk r mid cursor pos).batIdx = batIdxOf r cursor := rfl
      generalize firstChunk r mid cursor pos = c at *
      have hnext : pos + (mid - cursor) = pos + c.chunkLen + (mid - (cursor + c.chunkLen)) := by omega
      rw [hnext]
      by_cases ht : w.Takes r c
      · have hlen := h.length_wrote ht (by rw [hidx]; exact hi) (slice buf c.bufPos c.chunkLen)
        obtain ⟨htakes,hwrote⟩ := ih _ (by omega) (h.wrote ht) (pos + c.chunkLen)
          (show cursor + c.chunkLen ≤ mid by omega)
          (by omega) (fun v hv hv' => by rw [hlen]; exact hcov v (by omega) hv') rfl
        exact ⟨⟨fun hall => ⟨⟨ht,(htakes.mp hall.2).1⟩,(htakes.mp hall.2).2⟩,fun hall =>
          ⟨ht,htakes.mpr ⟨hall.1.2,hall.2⟩⟩⟩,
          fun hall => hwrote hall.2⟩
      · exact ⟨⟨fun hall => absurd hall.1 ht,fun hall => absurd hall.1.1 ht⟩,fun hall => absurd hall.1 ht⟩
    · -- the cut goes through the first block
      obtain ⟨hleft,hright,hwhole,hblock⟩ := firstChunk_of_cut stop pos hlt (not_le.mp hfar)
      have hpos := firstChunk_pos (r := r) (b := 0) hend
      have hle := firstChunk_le (r := r) (b := 0) hend
      rw [blockChunksFrom_of_lt (hlt.trans hend),hwhole hend.le,blockChunksFrom_of_lt hlt,hleft,
        blockChunksFrom_of_lt hend,hright]
      generalize (firstChunk r stop mid 0).chunkLen = m at *
      dsimp only
      have hmid : cursor + (mid - cursor) = mid := by omega
      have hafter : cursor + (mid - cursor + m) = mid + m := by omega
      rw [hmid,hafter,blockChunksFrom_of_le (le_refl mid),← Nat.add_assoc pos]
      generalize mid - cursor = n at *
      have hlen : (slice buf pos n).length = n := length_slice (by omega)
      have hboth : slice buf pos (n + m) = slice buf pos n ++ slice buf (pos + n) m := slice_add ..
      have htakes := h.takes_halves pos (slice buf pos n) hi hblock
      have hwrote := fun ht : w.Takes r ⟨cursor % r.blockSize,batIdxOf r cursor,pos,n⟩ =>
        h.wrote_halves (m := m) (slice buf (pos + n) m) ht hi hlen
      refine ⟨⟨fun hall => ?_,fun hall => ?_⟩,fun hall => ?_⟩
      · obtain ⟨hfirst,hsecond⟩ := htakes.mp hall.1
        have hrest := hall.2
        rw [hboth,hwrote hfirst] at hrest
        exact ⟨⟨hfirst,trivial⟩,hsecond,hrest⟩
      · refine ⟨htakes.mpr ⟨hall.1.1,hall.2.1⟩,?_⟩
        rw [hboth,hwrote hall.1.1]
        exact hall.2.2
      · change (w.wrote r _ (slice buf pos (n + m))).wroteAll r buf _ = _
        rw [hboth,hwrote hall.1]
        rfl

/-- Pieces read from elsewhere in another buffer, where the same bytes stand. -/
private theorem World.pieces_moved {buf' : Bytes} {k : Nat} {stop u pos : Nat}
    (hs : ∀ x n, pos ≤ x → x + n ≤ pos + (stop - u) → slice buf' (x + k) n = slice buf x n) :
    (w.TakesAll r buf' (blockChunksFrom r stop u (pos + k)) ↔ w.TakesAll r buf (blockChunksFrom r stop u pos)) ∧
    w.wroteAll r buf' (blockChunksFrom r stop u (pos + k)) = w.wroteAll r buf (blockChunksFrom r stop u pos) := by
  induction hn : stop - u using Nat.strongRecOn generalizing w u pos with
  | ind n ih =>
    by_cases h : u < stop
    swap
    · rw [blockChunksFrom_of_le (by omega),blockChunksFrom_of_le (by omega)]
      exact ⟨Iff.rfl,rfl⟩
    have hpos := firstChunk_pos (r := r) (b := pos) h
    have hle := firstChunk_le (r := r) (b := pos) h
    have hlen : (firstChunk r stop u (pos + k)).chunkLen = (firstChunk r stop u pos).chunkLen := rfl
    have hslice : slice buf' (firstChunk r stop u (pos + k)).bufPos (firstChunk r stop u (pos + k)).chunkLen =
        slice buf (firstChunk r stop u pos).bufPos (firstChunk r stop u pos).chunkLen := hs pos _ le_rfl (by omega)
    have htakes : w.Takes r (firstChunk r stop u (pos + k)) ↔ w.Takes r (firstChunk r stop u pos) := Iff.rfl
    have hwrote : ∀ src, w.wrote r (firstChunk r stop u (pos + k)) src = w.wrote r (firstChunk r stop u pos) src := fun _ => rfl
    rw [blockChunksFrom_of_lt h,blockChunksFrom_of_lt h,hlen]
    rw [Nat.add_right_comm]
    generalize firstChunk r stop u pos = c at *
    have hnext : ∀ v : World, (v.TakesAll r buf' (blockChunksFrom r stop (u + c.chunkLen) (pos + c.chunkLen + k)) ↔
        v.TakesAll r buf (blockChunksFrom r stop (u + c.chunkLen) (pos + c.chunkLen))) ∧
        v.wroteAll r buf' (blockChunksFrom r stop (u + c.chunkLen) (pos + c.chunkLen + k)) =
          v.wroteAll r buf (blockChunksFrom r stop (u + c.chunkLen) (pos + c.chunkLen)) :=
      fun v => ih _ (by omega) (fun x n hx hxn => hs x n (by omega) (by omega)) rfl
    obtain ⟨hrest,hall⟩ := hnext (w.wrote r c (slice buf c.bufPos c.chunkLen))
    constructor
    · change (w.Takes r _ ∧ World.TakesAll r buf' (w.wrote r _ (slice buf' _ _)) _) ↔ w.Takes r _ ∧ _
      rw [hslice,htakes,hwrote,hrest]
    · change (w.wrote r _ (slice buf' _ _)).wroteAll r buf' _ = _
      rw [hslice,hwrote,hall]
      rfl

/-- A write that succeeds, by its pieces. -/
private theorem writeAt_eq_ok {w' : World} {o : Nat} (h : w.Writable r) :
    (writeAt r o buf).run World.handle w = (.ok (),w') ↔
    InRange r o buf.length ∧ w.TakesAll r buf (blockChunks r o (o + buf.length)) ∧
    w' = w.wroteAll r buf (blockChunks r o (o + buf.length)) := by
  constructor
  · intro hrun
    obtain ⟨front,rest,hcs,ht,-,rfl,hall⟩ := pieces_of_returned h hrun (by intro hp; cases hp)
    obtain rfl := hall rfl
    rw [List.append_nil] at hcs
    rw [hcs]
    refine ⟨?_,ht,rfl⟩
    rcases writeAt_cases h.ready h.covers h.open_rw o buf with ⟨-,e,he⟩ | ⟨hin,-⟩
    · cases (Prod.mk.inj (hrun.symm.trans he)).1
    · exact hin
  · rintro ⟨hin,ht,rfl⟩
    exact writeAt_of_takesAll h.ready h.covers h.open_rw hin ht

omit [Crc32c] in
/-- Both parts of a write are in the disk where the whole is. -/
private theorem inRange_add {o n m : Nat} : InRange r o (n + m) ↔ InRange r o n ∧ InRange r (o + n) m := by
  simp only [InRange]
  omega

/-- The pieces of two writes in a row are taken, and leave the same, as those of the one write of both. -/
theorem World.Writable.takesAll_append {o : Nat} (h : w.Writable r) (a b : Bytes) (hina : InRange r o a.length)
    (hinb : InRange r (o + a.length) b.length) :
    (w.TakesAll r (a ++ b) (blockChunks r o (o + a.length + b.length)) ↔
      w.TakesAll r a (blockChunks r o (o + a.length)) ∧
      (w.wroteAll r a (blockChunks r o (o + a.length))).TakesAll r b
      (blockChunks r (o + a.length) (o + a.length + b.length))) ∧
    (w.TakesAll r a (blockChunks r o (o + a.length)) →
      w.wroteAll r (a ++ b) (blockChunks r o (o + a.length + b.length)) =
      (w.wroteAll r a (blockChunks r o (o + a.length))).wroteAll r b
      (blockChunks r (o + a.length) (o + a.length + b.length))) := by
  have hleft : (w.TakesAll r (a ++ b) (blockChunksFrom r (o + a.length) o 0) ↔
    w.TakesAll r a (blockChunksFrom r (o + a.length) o 0)) ∧
      w.wroteAll r (a ++ b) (blockChunksFrom r (o + a.length) o 0) =
        w.wroteAll r a (blockChunksFrom r (o + a.length) o 0) :=
    World.pieces_moved (k := 0) fun x n _ hxn => slice_append_left (by omega)
  have hright : ∀ v : World, (v.TakesAll r (a ++ b)
    (blockChunksFrom r (o + a.length + b.length) (o + a.length) (0 + a.length)) ↔
        v.TakesAll r b (blockChunksFrom r (o + a.length + b.length) (o + a.length) 0)) ∧
      v.wroteAll r (a ++ b) (blockChunksFrom r (o + a.length + b.length) (o + a.length) (0 + a.length)) =
        v.wroteAll r b (blockChunksFrom r (o + a.length + b.length) (o + a.length) 0) := fun v =>
    World.pieces_moved fun x n _ _ => by rw [slice_append_right (Nat.le_add_left ..),Nat.add_sub_cancel]
  have hroom : 0 + (o + a.length + b.length - o) ≤ (a ++ b).length := by
    rw [List.length_append]
    omega
  have hcov : ∀ v, o ≤ v → v < o + a.length + b.length → batIdxOf r v < w.bat.length := by
    intro v _ hv
    refine h.covers v ?_
    simp only [InRange] at hina hinb
    omega
  obtain ⟨htakes,hwrote⟩ := h.ready.takesAll_cut 0 (Nat.le_add_right o a.length) (Nat.le_add_right _ b.length) hroom hcov
  rw [Nat.add_sub_cancel_left,(hright _).1,hleft.1,hleft.2] at htakes
  rw [Nat.add_sub_cancel_left,(hright _).2,hleft.1,hleft.2] at hwrote
  exact ⟨htakes,hwrote⟩

/-- What a write leaves can be written to in its turn. -/
theorem World.Writable.of_writeAt {w' : World} {o : Nat} (h : w.Writable r)
    (hrun : (writeAt r o buf).run World.handle w = (.ok (),w')) :
    w'.Writable r := by
  obtain ⟨hin,ht,rfl⟩ := (writeAt_eq_ok h).mp hrun
  exact h.wroteAll ht (fits_blockChunks h.covers hin)

theorem writeAt_nil (h : w.Writable r) (o : Nat) : (writeAt r o []).run World.handle w = (.ok (),w) :=
  (writeAt_eq_ok h).mpr ⟨.inl rfl,by rw [List.length_nil,blockChunks,blockChunksFrom_of_le (by omega)]; trivial,
    by rw [List.length_nil,blockChunks,blockChunksFrom_of_le (by omega)]; rfl⟩

omit [Crc32c] in
theorem flush_run (h : w.Writable r) : (flush r).run World.handle w = (.ok (),w) := by
  unfold flush
  rw [if_neg (not_not.mpr h.open_rw)]
  rfl

/-- A write succeeds exactly where the writes of its two parts do, one after the other, and leaves what they leave. -/
theorem writeAt_append {w' : World} {o : Nat} (h : w.Writable r) (a b : Bytes) :
    (writeAt r o (a ++ b)).run World.handle w = (.ok (),w') ↔
    ∃ w1, (writeAt r o a).run World.handle w = (.ok (),w1) ∧ (writeAt r (o + a.length) b).run World.handle w1 =
    (.ok (),w') := by
  have hwhole : (writeAt r o (a ++ b)).run World.handle w = (.ok (),w') ↔ _ := writeAt_eq_ok h
  rw [hwhole,List.length_append,inRange_add,← Nat.add_assoc]
  constructor
  · rintro ⟨⟨hina,hinb⟩,ht,rfl⟩
    obtain ⟨htakes,hwrote⟩ := h.takesAll_append a b hina hinb
    obtain ⟨ta,tb⟩ := htakes.mp ht
    have hfirst : (writeAt r o a).run World.handle w = (.ok (),_) := (writeAt_eq_ok h).mpr ⟨hina,ta,rfl⟩
    exact ⟨_,hfirst,(writeAt_eq_ok (h.of_writeAt hfirst)).mpr ⟨hinb,tb,hwrote ta⟩⟩
  · rintro ⟨w1,ha,hb⟩
    have hw1 := h.of_writeAt ha
    obtain ⟨hina,ta,rfl⟩ := (writeAt_eq_ok h).mp ha
    obtain ⟨hinb,tb,rfl⟩ := (writeAt_eq_ok hw1).mp hb
    obtain ⟨htakes,hwrote⟩ := h.takesAll_append a b hina hinb
    exact ⟨⟨hina,hinb⟩,htakes.mpr ⟨ta,tb⟩,(hwrote ta).symm⟩

/-- However a range is cut up: its parts are all written just where it is written whole, and the file, the header and
the BAT are then the same, down to every byte. -/
theorem writeParts_as_whole {w' : World} {o : Nat} (h : w.Writable r) (parts : List Bytes) :
    (writeParts r o parts).run World.handle w = (.ok (),w') ↔ (writeAt r o parts.flatten).run World.handle w =
    (.ok (),w') := by
  induction parts generalizing w o with
  | nil =>
    rw [List.flatten_nil,writeAt_nil h]
    rfl
  | cons part rest ih =>
    rw [writeParts,Prog.run_bind_eq_ok,List.flatten_cons,writeAt_append h]
    constructor
    · rintro ⟨_,w1,hpart,hrest⟩
      exact ⟨w1,hpart,(ih (h.of_writeAt hpart)).mp hrest⟩
    · rintro ⟨w1,hpart,hrest⟩
      exact ⟨(),w1,hpart,(ih (h.of_writeAt hpart)).mpr hrest⟩

end cut

/-- Two parts of a block that is not there: the first allocates it, and together they leave what the one write leaves. -/
theorem writeParts_as_whole_halfStored :
    letI := castagnoli
    (writeParts halfStored.reader 0 [[1],[2,3]]).run World.handle (halfStoredState.start halfStored.device) =
      (.ok (),⟨(halfStored.device.allocated halfStored.reader 0 4194304).put 4194304 [1,2,3],5242880,false,
        halfStored.header,.one,false,
        [⟨.fullyPresent,4194304⟩,⟨.fullyPresent,3145728⟩]⟩) := by
  let := castagnoli
  have hstart := ready_of_opened halfStored_opensAs.opens (by rw [Build.size_device]; decide)
  have hw : halfStored.device.writable = true := by simp [Build.device,Device.zeroed]
  have hg : halfStored.device.growable = true := by simp [Build.device,Device.zeroed]
  obtain ⟨after,hafter,allocates,-⟩ := exists_afterLookup (r := halfStored.reader) (o := 0) (b := [1,2,3]) rfl
    (.inr (by decide))
    (by decide) (by decide)
  rw [(by decide : batIdxOf halfStored.reader 0 = 0)] at hafter allocates
  have hallocate : (allocateBlockFor halfStored.reader 0 >>= writePayload halfStored.reader 0 [1,2,3]).Runs
    World.handle World.free
      ⟨halfStored.device,4194304,false,halfStored.header,.one,false,halfStoredState.bat⟩ (.ok ()) _ :=
    runs_allocating (.inl rfl) hw hg (by decide) (by decide : tailOffset halfStored.reader 4194304 = 4194304)
      (by decide) ⟨512,rfl⟩
      (by decide) (by decide) (by decide)
  refine (writeParts_as_whole hstart [[1],[2,3]]).mpr ?_
  change (writeAt halfStored.reader 0 [1,2,3]).run World.handle _ = _
  rw [hafter,Prog.run_bind_of_ok (show (ReaderProg.loadBat 0).run World.handle
    (halfStoredState.start halfStored.device) = _ from rfl)]
  exact (allocates ⟨.notPresent,0⟩ rfl) ▸ hallocate.run_eq

end ImgVhdx
