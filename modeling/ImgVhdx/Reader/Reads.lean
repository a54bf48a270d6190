import ImgVhdx.Reader.Start

/-! What a read returns: the bytes of the virtual disk, and the shared state as it was. -/
namespace ImgVhdx
open Lib ReaderProg

namespace World

def diskBytes (r : VhdxReader) (w : World) (offset len : Nat) :
    Bytes := (List.range len).map fun i => w.disk r (offset + i)

def Readable (w : World) (i : Nat) : Prop := w.Absent i ∨ ∃ off, w.Present i off

end World

section
variable {r : VhdxReader} {w : World}

private theorem World.diskBytes_add (offset m n : Nat) :
    w.diskBytes r offset (m + n) = w.diskBytes r offset m ++ w.diskBytes r (offset + m) n := by
  simp only [World.diskBytes,List.range_add,List.map_append,List.map_map]
  congr 2
  funext i
  exact congrArg (w.disk r) (Nat.add_assoc ..).symm

theorem World.getElem?_diskBytes {offset len : Nat} (i : Nat) :
    (w.diskBytes r offset len)[i]? = if i < len then some (w.disk r (offset + i)) else none := by
  rw [World.diskBytes,List.getElem?_map]
  split_ifs with h
  · rw [List.getElem?_range h]
    rfl
  · rw [List.getElem?_eq_none (by simpa using h)]
    rfl

theorem hostOffset_run {off inBlock len : Nat} (h : off + inBlock + len ≤ w.devSize) (h64 : w.devSize < 2^64) :
    (hostOffset off inBlock len).run World.handle w = (.ok (off + inBlock),w) := by
  unfold hostOffset
  rw [Prog.run_bind_of_ok (show loadSize.run World.handle w = (.ok w.devSize,w) from rfl),checkedAdd_of_lt (by omega)]
  simp only [Outcome.okOr_some]
  rw [Prog.run_bind_of_ok (Prog.run_lift_of_ok rfl),checkedAdd_of_lt (by omega)]
  simp only [Outcome.okOr_some]
  rw [Prog.run_bind_of_ok (Prog.run_lift_of_ok rfl),
    Prog.run_bind_of_ok (Prog.run_lift_of_ok (Outcome.rejectIf_of_not _ (by omega)))]
  rfl

private theorem devRead_run {off len : Nat} (h : off + len ≤ w.dev.size) :
    (devRead off len).run World.handle w = (.ok (w.dev.bytes off len),w) := by
  have hr : (w.handle (.dev (.read off len))).1 = .ok (w.dev.bytes off len) := Device.readAt_of_le h
  unfold devRead
  rw [Prog.run,hr]
  rfl

structure World.Served (r : VhdxReader) (w : World) : Prop where
  small : w.devSize < 2^64
  le : w.devSize ≤ w.dev.size
  inside : ∀ i off, w.Present i off → off + r.blockSize ≤ w.devSize

theorem Shared.served {l : Layout} (h : Shared r l w) : w.Served r := ⟨h.small,h.le,fun _ _ hp => (h.present hp).2.2⟩

/-- Of one piece: the block's bytes, or zeros where there is no block. -/
private theorem readChunk_run (h : w.Served r) {offset stop : Nat} {c : BlockChunk} (hc : c.Of r offset stop)
    (hr : w.Readable c.batIdx) :
    (readChunk c).run World.handle w = (.ok (w.diskBytes r (offset + c.bufPos) c.chunkLen),w) := by
  have hbytes : ∀ b : Bytes, (∀ i, b[i]? = if i < c.chunkLen then some (w.blockByte c.batIdx (c.inBlock + i)) else none) →
      b = w.diskBytes r (offset + c.bufPos) c.chunkLen := by
    intro b hb
    apply List.ext_getElem?
    intro i
    rw [hb,World.getElem?_diskBytes]
    split_ifs with hi
    · rw [World.disk,(hc.byte i hi).1,(hc.byte i hi).2]
    · rfl
  unfold readChunk
  rcases hr with ha | ⟨off,hp⟩
  · have hz := ha.blockByte
    obtain ⟨e,he,hs⟩ := ha
    have hentry : (batEntryAt c.batIdx).run World.handle w = (.ok e,w) := by
      change (Prog.lift (Outcome.okOr _ w.bat[c.batIdx]?)).run World.handle w = _
      rw [he]
      rfl
    rw [Prog.run_bind_of_ok hentry,← hbytes (zeros c.chunkLen) fun i => ?_]
    · generalize e.state = st at hs
      cases st <;> first | rfl | cases hs
    · rw [hz,zeros,List.getElem?_replicate]
  · have hentry : (batEntryAt c.batIdx).run World.handle w = (.ok ⟨.fullyPresent,off⟩,w) := by
      change (Prog.lift (Outcome.okOr _ w.bat[c.batIdx]?)).run World.handle w = _
      rw [hp]
      rfl
    have hin := h.inside _ _ hp
    have hblock := hc.block
    rw [Prog.run_bind_of_ok hentry]
    change (hostOffset off c.inBlock c.chunkLen >>= fun hostOff => devRead hostOff c.chunkLen).run World.handle w = _
    rw [Prog.run_bind_of_ok (hostOffset_run (by omega) h.small),devRead_run (by have := h.le; omega),
      ← hbytes (w.dev.bytes (off + c.inBlock) c.chunkLen) fun i => ?_]
    rw [Device.getElem?_bytes,hp.blockByte,Nat.add_assoc]

private theorem readChunks_run (h : w.Served r) {stop u b offset : Nat} (hpos : u = offset + b)
    (hr : ∀ v, u ≤ v → v < stop → w.Readable (batIdxOf r v)) :
    (readChunks (blockChunksFrom r stop u b)).run World.handle w = (.ok (w.diskBytes r u (stop - u)),w) := by
  induction hn : stop - u using Nat.strongRecOn generalizing u b with
  | ind n ih =>
    by_cases hlt : u < stop
    swap
    · rw [blockChunksFrom_of_le (by omega),show n = 0 by omega]
      rfl
    have hc := firstChunk_of (r := r) hpos hlt
    have hlen := firstChunk_pos (r := r) (b := b) hlt
    have hle := firstChunk_le (r := r) (b := b) hlt
    rw [blockChunksFrom_of_lt hlt]
    generalize hf : firstChunk r stop u b = c at *
    have hidx : c.batIdx = batIdxOf r u := by rw [← hf]; rfl
    have hbuf : offset + c.bufPos = u := by rw [← hf,hpos]; rfl
    have hfirst := readChunk_run h hc (hidx ▸ hr u le_rfl hlt)
    have hrest := ih (stop - (u + c.chunkLen)) (by omega) (u := u + c.chunkLen) (b := b + c.chunkLen)
      (by omega) (fun v hlo hhi => hr v (by omega) hhi) rfl
    rw [readChunks,Prog.run_bind_of_ok hfirst,Prog.run_bind_of_ok hrest,hbuf,
      show n = c.chunkLen + (stop - (u + c.chunkLen)) by omega,World.diskBytes_add]
    rfl

theorem transferEnd_of_le {offset len : Nat} (h : offset + len ≤ r.virtualSize) (h64 : offset + len < 2^64)
    (hlen : len ≠ 0) :
    transferEnd r offset len = .ok (some (offset + len)) := by
  rw [transferEnd,if_neg hlen,checkedAdd_of_lt h64]
  change Outcome.rejectIf (offset + len > r.virtualSize) _ >>= _ = _
  rw [Outcome.rejectIf_of_not _ (by omega)]
  rfl

/-- A read in range of blocks that can be served returns the bytes of the virtual disk. -/
theorem readAt_run (h : w.Served r) {o n : Nat} (hin : InRange r o n)
    (hr : ∀ v, o ≤ v → v < o + n → w.Readable (batIdxOf r v)) :
    (readAt r o n).run World.handle w = (.ok (w.diskBytes r o n),w) := by
  unfold readAt
  by_cases hlen : n = 0
  · rw [transferEnd,if_pos hlen,hlen]
    rfl
  obtain ⟨hle,h64⟩ := hin.resolve_left hlen
  rw [Prog.run_bind_of_ok (Prog.run_lift_of_ok (transferEnd_of_le hle h64 hlen))]
  have := readChunks_run h (Nat.add_zero o).symm hr
  rwa [Nat.add_sub_cancel_left] at this

end
end ImgVhdx
