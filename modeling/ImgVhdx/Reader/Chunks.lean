import ImgVhdx.Reader.Moves

/-! The pieces of a transfer: each lies in one block, and together they are the range,
byte for byte. -/
namespace ImgVhdx
open Lib ReaderProg

theorem VhdxReader.blockSize_pos (r : VhdxReader) : 0 < r.blockSize :=
  Nat.lt_of_lt_of_le (by decide) r.blockSize_range.1

theorem VhdxReader.and_mask (r : VhdxReader) (n : Nat) : n &&& (r.blockSize - 1) = n % r.blockSize := by
  obtain ⟨k,-,-,hk⟩ := r.blockSize_eq
  rw [hk,Nat.and_two_pow_sub_one_eq_mod]

/-- Where the virtual byte `v` lies: the BAT entry of its block, and its offset in the block. -/
def batIdxOf (r : VhdxReader) (v : Nat) : Nat := dataBatIndex (v / r.blockSize) r.chunkRatio

def firstChunk (r : VhdxReader) (stop cursor bufPos : Nat) : BlockChunk where
  inBlock := cursor % r.blockSize
  batIdx := batIdxOf r cursor
  bufPos := bufPos
  chunkLen := min (r.blockSize - cursor % r.blockSize) (stop - cursor)

section chunks
variable {r : VhdxReader} {stop cursor bufPos : Nat}

theorem blockChunksFrom_of_lt (h : cursor < stop) : blockChunksFrom r stop cursor bufPos =
    firstChunk r stop cursor bufPos :: blockChunksFrom r stop (cursor + (firstChunk r stop cursor bufPos).chunkLen)
      (bufPos + (firstChunk r stop cursor bufPos).chunkLen) := by
  rw [blockChunksFrom,if_pos h]
  simp only [r.and_mask,firstChunk,batIdxOf]

theorem blockChunksFrom_of_le (h : stop ≤ cursor) : blockChunksFrom r stop cursor bufPos = [] := by
  rw [blockChunksFrom,if_neg (by omega)]

theorem firstChunk_pos {b : Nat} (h : cursor < stop) : 0 < (firstChunk r stop cursor b).chunkLen := by
  have := Nat.mod_lt cursor r.blockSize_pos
  simp only [firstChunk]
  omega

theorem firstChunk_le {b : Nat} (h : cursor < stop) : cursor + (firstChunk r stop cursor b).chunkLen ≤ stop := by
  simp only [firstChunk]
  omega

/-- A range inside one block is one piece. -/
theorem blockChunks_within {o n : Nat} (hne : n ≠ 0) (hblock : o % r.blockSize + n ≤ r.blockSize) :
    blockChunks r o (o + n) = [⟨o % r.blockSize,batIdxOf r o,0,n⟩] := by
  have hpiece : firstChunk r (o + n) o 0 = ⟨o % r.blockSize,batIdxOf r o,0,n⟩ := by
    have hlen : min (r.blockSize - o % r.blockSize) (o + n - o) = n := by omega
    rw [firstChunk,hlen]
  rw [blockChunks,blockChunksFrom_of_lt (by omega),hpiece,blockChunksFrom_of_le le_rfl]

/-- Every byte of a piece is in the piece's block. -/
theorem firstChunk_block {i : Nat} (hi : i < (firstChunk r stop cursor bufPos).chunkLen) :
    (cursor + i) / r.blockSize = cursor / r.blockSize ∧ (cursor + i) % r.blockSize = cursor % r.blockSize + i := by
  have hb := r.blockSize_pos
  have hd := Nat.div_add_mod cursor r.blockSize
  have hlt : cursor % r.blockSize + i < r.blockSize := by
    simp only [firstChunk] at hi
    omega
  have he : cursor + i = r.blockSize * (cursor / r.blockSize) + (cursor % r.blockSize + i) := by omega
  rw [he]
  exact ⟨by rw [Nat.mul_add_div hb,Nat.div_eq_of_lt hlt,Nat.add_zero],by rw [Nat.mul_add_mod,Nat.mod_eq_of_lt hlt]⟩

structure BlockChunk.Of (r : VhdxReader) (offset stop : Nat) (c : BlockChunk) : Prop where
  inside : offset + c.bufPos + c.chunkLen ≤ stop
  block : c.inBlock + c.chunkLen ≤ r.blockSize
  byte : ∀ i, i < c.chunkLen →
    batIdxOf r (offset + c.bufPos + i) = c.batIdx ∧ (offset + c.bufPos + i) % r.blockSize = c.inBlock + i

theorem firstChunk_of {offset : Nat} (hpos : cursor = offset + bufPos) (h : cursor < stop) :
    (firstChunk r stop cursor bufPos).Of r offset stop where
  inside := by
    have := firstChunk_le (r := r) (b := bufPos) h
    change offset + bufPos + _ ≤ stop
    omega
  block := by
    have := Nat.mod_lt cursor r.blockSize_pos
    simp only [firstChunk]
    omega
  byte i hi := by
    obtain ⟨hd,hm⟩ := firstChunk_block hi
    change batIdxOf r (offset + bufPos + i) = batIdxOf r cursor ∧ (offset + bufPos + i) % r.blockSize =
      cursor % r.blockSize + i
    rw [← hpos]
    exact ⟨congrArg (dataBatIndex · r.chunkRatio) hd,hm⟩

private theorem mem_blockChunksFrom {b : Nat} {u : Nat} {offset : Nat} (hpos : u = offset + b) {c : BlockChunk}
    (hc : c ∈ blockChunksFrom r stop u b) : c.Of r offset stop := by
  induction hn : stop - u using Nat.strongRecOn generalizing u b with
  | ind n ih =>
    by_cases h : u < stop
    · rw [blockChunksFrom_of_lt h] at hc
      have := firstChunk_pos (r := r) (b := b) h
      rcases List.mem_cons.mp hc with rfl | hc
      · exact firstChunk_of hpos h
      · exact ih _ (by omega) (by omega) hc rfl
    · rw [blockChunksFrom_of_le (by omega)] at hc
      cases hc

theorem mem_blockChunks {offset : Nat} {c : BlockChunk} (hc : c ∈ blockChunks r offset stop) : c.Of r offset stop :=
  mem_blockChunksFrom (Nat.add_zero offset).symm hc

/-- Every byte of the range is in one of the pieces. -/
private theorem exists_blockChunksFrom {b : Nat} {u : Nat} {v : Nat} (hlo : u ≤ v) (hhi : v < stop) :
    ∃ c ∈ blockChunksFrom r stop u b, ∃ i < c.chunkLen, b + (v - u) = c.bufPos + i := by
  induction hn : stop - u using Nat.strongRecOn generalizing u b with
  | ind n ih =>
    have h : u < stop := by omega
    have hpos := firstChunk_pos (r := r) (b := b) h
    rw [blockChunksFrom_of_lt h]
    by_cases hv : v < u + (firstChunk r stop u b).chunkLen
    · exact ⟨_,List.mem_cons_self,v - u,by omega,rfl⟩
    · obtain ⟨c,hc,i,hi,he⟩ := ih _ (by omega) (u := u + (firstChunk r stop u b).chunkLen)
        (b := b + (firstChunk r stop u b).chunkLen) (by omega) rfl
      exact ⟨c,List.mem_cons_of_mem _ hc,i,hi,by omega⟩

end chunks

def BlockChunk.piece (c : BlockChunk) (buf : Bytes) : Piece := ⟨c.batIdx,c.inBlock,slice buf c.bufPos c.chunkLen⟩

def piecesOf (r : VhdxReader) (offset : Nat) (buf : Bytes) : List Piece :=
  (blockChunks r offset (offset + buf.length)).map fun c => c.piece buf

def Piece.Covers (p : Piece) (i k : Nat) : Prop := p.batIdx = i ∧ p.inBlock ≤ k ∧ k < p.inBlock + p.src.length

theorem batIdxOf_inj {r : VhdxReader} {v v' : Nat} (hi : batIdxOf r v = batIdxOf r v')
    (hk : v % r.blockSize = v' % r.blockSize) :
    v = v' := by
  have hd := dataBatIndex_inj hi
  rw [← Nat.div_add_mod v r.blockSize,← Nat.div_add_mod v' r.blockSize,hd,hk]

section pieces
variable {r : VhdxReader} {offset : Nat} {buf : Bytes} {p : Piece}

/-- A piece comes from a chunk of the range. -/
private theorem exists_chunk (hp : p ∈ piecesOf r offset buf) :
    ∃ c : BlockChunk, c.Of r offset (offset + buf.length) ∧ p = c.piece buf ∧
    p.src.length = c.chunkLen := by
  obtain ⟨c,hc,rfl⟩ := List.mem_map.mp hp
  have hof := mem_blockChunks hc
  have := hof.inside
  exact ⟨c,hof,rfl,length_slice (by omega)⟩

theorem piece_block (hp : p ∈ piecesOf r offset buf) : p.inBlock + p.src.length ≤ r.blockSize := by
  obtain ⟨c,hc,rfl,hlen⟩ := exists_chunk hp
  rw [hlen]
  exact hc.block

/-- The bytes of a piece are the buffer's, where the range goes through the block. -/
theorem Piece.Covers.byte {i k : Nat} (hc : p.Covers i k) (hp : p ∈ piecesOf r offset buf) :
    ∃ v, offset ≤ v ∧ v < offset + buf.length ∧ batIdxOf r v = i ∧ v % r.blockSize = k ∧
    p.src[k - p.inBlock]? = buf[v - offset]? := by
  obtain ⟨c,hof,rfl,hlen⟩ := exists_chunk hp
  obtain ⟨rfl,hlo,hhi⟩ := hc
  rw [hlen] at hhi
  have hin := hof.inside
  obtain ⟨hidx,hmod⟩ := hof.byte (k - c.inBlock)
    (by change c.inBlock ≤ k at hlo; change k < c.inBlock + _ at hhi; omega)
  change c.inBlock ≤ k at hlo
  change k < c.inBlock + c.chunkLen at hhi
  refine ⟨offset + c.bufPos + (k - c.inBlock),by omega,by omega,hidx,by omega,?_⟩
  change (slice buf c.bufPos c.chunkLen)[k - c.inBlock]? = _
  rw [getElem?_slice,if_pos (by omega)]
  congr 1
  omega

/-- Every byte of the range is in a piece. -/
theorem exists_piece {v : Nat} (hlo : offset ≤ v) (hhi : v < offset + buf.length) :
    ∃ p ∈ piecesOf r offset buf, ∃ k, ∃ hk : k < p.src.length, p.batIdx = batIdxOf r v ∧
    p.inBlock + k = v % r.blockSize ∧
      buf[v - offset]? = some p.src[k] := by
  obtain ⟨c,hc,i,hi,he⟩ := exists_blockChunksFrom (r := r) (b := 0) hlo hhi
  have hof := mem_blockChunks hc
  have hin := hof.inside
  have hlen : (c.piece buf).src.length = c.chunkLen := length_slice (by omega)
  obtain ⟨hidx,hmod⟩ := hof.byte i hi
  rw [show offset + c.bufPos + i = v by omega] at hidx hmod
  have hk : i < (c.piece buf).src.length := by omega
  refine ⟨_,List.mem_map_of_mem hc,i,hk,hidx.symm,hmod.symm,?_⟩
  rw [← List.getElem?_eq_getElem hk]
  change _ = (slice buf c.bufPos c.chunkLen)[i]?
  rw [getElem?_slice,if_pos hi]
  congr 1
  omega

end pieces

section follows
variable [Crc32c] {r : VhdxReader} {call : List Piece} {buf : Bytes} {ps : List Piece}

private theorem conforms_writeChunk {c : BlockChunk} (hc : c.bufPos + c.chunkLen ≤ buf.length)
    (hmem : c.piece buf ∈ call) :
    Conforms r call (fun l _ => l = ⟨.idle,ps ++ [c.piece buf]⟩) (writeChunk r buf c) ⟨.idle,ps⟩ := by
  have hsrc : slice buf c.bufPos (c.bufPos + c.chunkLen - c.bufPos) = (c.piece buf).src := by
    rw [Nat.add_sub_cancel_left]
    rfl
  unfold writeChunk
  refine conforms_lift_bind (index_of_le (by omega) hc) ?_
  rw [hsrc]
  refine Conforms.bind (m := fun l e => l = ⟨if e.state = .fullyPresent then .bound c.batIdx e.fileOffset
    else if e.state.zeroFill then .absent c.batIdx else .failed,ps⟩) ?_ ?_
  · refine Conforms.bind (m := fun l o => l = match o with
      | none => ⟨.failed,ps⟩
      | some e => ⟨if e.state = .fullyPresent then .bound c.batIdx e.fileOffset
          else if e.state.zeroFill then .absent c.batIdx else .failed,ps⟩) (conforms_perform fun w => ?_) ?_
    · have hi : ∃ p ∈ call, p.batIdx = c.batIdx := ⟨_,hmem,rfl⟩
      rcases (w.handle (.loadBat c.batIdx)).1 with _ | e
      · exact ⟨_,.outside hi,rfl⟩
      · refine ⟨_,?_,rfl⟩
        dsimp only
        split_ifs with h1 h2
        · exact .present hi h1
        · exact .absent hi h2
        · exact .unreadable hi h1 (by simpa using h2)
    · rintro _ (_ | e) rfl
      · exact .inl rfl
      · exact rfl
  rintro _ ⟨state,off⟩ rfl
  -- from a block that is there, whoever put it there
  have written : ∀ host, Conforms r call (fun l _ => l = ⟨.idle,ps ++ [c.piece buf]⟩)
      (hostOffset host c.inBlock (c.piece buf).src.length >>= fun hostOff => devWrite hostOff (c.piece buf).src)
      ⟨.bound c.batIdx host,ps⟩ := by
    intro host
    refine Conforms.bind (conforms_hostOffset (c := c.piece buf) hmem rfl) ?_
    rintro _ _ ⟨n,rfl,rfl,hn⟩
    exact conforms_devWrite (.payload hmem hn) fun e => ⟨_,.writeFailed (.inr (.inr ⟨_,_,_,rfl⟩)),.inl rfl⟩
  have allocated : Conforms r call (fun l _ => l = ⟨.idle,ps ++ [c.piece buf]⟩)
      (allocateBlockFor r c.batIdx >>= fun host => hostOffset host c.inBlock (c.piece buf).src.length >>= fun hostOff =>
        devWrite hostOff (c.piece buf).src) ⟨.absent c.batIdx,ps⟩ := by
    refine Conforms.bind conforms_allocateBlockFor ?_
    rintro _ host rfl
    exact written host
  cases state with
  | fullyPresent => exact written off
  | notPresent => exact allocated
  | undefined => exact allocated
  | zero => exact allocated
  | unmapped => exact allocated
  | partiallyPresent => exact .inl rfl
  | reserved v => exact .inl rfl

def Turned (r : VhdxReader) (offset : Nat) (buf : Bytes) (l : Phase) : Prop :=
  Refused (piecesOf r offset buf) l ∨ r.writable = false ∨ 2^64 ≤ offset + buf.length ∨
    r.virtualSize < offset + buf.length

/-- A transfer that is let through. -/
def InRange (r : VhdxReader) (offset len : Nat) : Prop := len = 0 ∨ offset + len ≤ r.virtualSize ∧ offset + len < 2^64

instance (r : VhdxReader) (offset len : Nat) : Decidable (InRange r offset len) := inferInstanceAs (Decidable (_ ∨ _))

/-- Every write call is made of these moves, and one that returns has written every piece. -/
theorem writeAt_follows (r : VhdxReader) (offset : Nat) (buf : Bytes) :
    (writeAt r offset buf).Follows World.handle (Move r (piecesOf r offset buf))
      (Prog.orFail (fun l _ => l = ⟨.idle,piecesOf r offset buf⟩ ∧ InRange r offset buf.length)
        (fun l _ => Turned r offset buf l) (Panicked r)) ⟨.idle,[]⟩ := by
  unfold writeAt
  cases hw : r.writable with
  | false => exact .inr (.inl hw)
  | true =>
    rw [if_neg (by simp)]
    by_cases hlen : buf.length = 0
    · have hnil : piecesOf r offset buf = [] := by
        rw [piecesOf,hlen,blockChunks,blockChunksFrom_of_le (by omega)]
        rfl
      rw [transferEnd,if_pos hlen,hnil]
      exact ⟨rfl,.inl hlen⟩
    by_cases h64 : offset + buf.length < 2^64
    swap
    · rw [transferEnd,if_neg hlen,checkedAdd,if_neg h64]
      exact .inr (.inr (.inl (by omega)))
    by_cases hend : offset + buf.length > r.virtualSize
    · rw [transferEnd,if_neg hlen,checkedAdd_of_lt h64]
      change Prog.Follows _ _ _ (Prog.lift (Outcome.rejectIf (offset + buf.length > r.virtualSize) _ >>= _) >>= _) _
      rw [Outcome.rejectIf_of _ hend]
      exact .inr (.inr (.inr hend))
    have ht : transferEnd r offset buf.length = .ok (some (offset + buf.length)) := by
      rw [transferEnd,if_neg hlen,checkedAdd_of_lt h64]
      change Outcome.rejectIf (offset + buf.length > r.virtualSize) _ >>= _ = _
      rw [Outcome.rejectIf_of_not _ hend]
      rfl
    rw [ht]
    have hloop : Conforms r (piecesOf r offset buf) (fun l _ => l = ⟨.idle,piecesOf r offset buf⟩)
        (Prog.forEach (writeChunk r buf) (blockChunks r offset (offset + buf.length)) >>= fun _ => devFlush)
          ⟨.idle,[]⟩ := by
      -- the loop has written the pieces it has been through, and holds nothing between two of them
      refine Conforms.bind (Prog.Follows.forEach (c := fun rest l => ∃ front,
        blockChunks r offset (offset + buf.length) = front ++ rest ∧ l = ⟨.idle,front.map fun c => c.piece buf⟩)
        ?_ _ ⟨[],rfl,rfl⟩) ?_
      · rintro c rest _ ⟨front,hf,rfl⟩
        have hmem : c ∈ blockChunks r offset (offset + buf.length) := by simp [hf]
        have hin := (mem_blockChunks hmem).inside
        refine Prog.Follows.mono (conforms_writeChunk (by omega) (List.mem_map_of_mem hmem)) ?_
        rintro _ (_ | _ | _) hl
        · exact ⟨front ++ [c],by simp [hf],by rw [hl]; simp⟩
        · exact hl
        · exact hl
      · rintro _ _ ⟨front,hf,rfl⟩
        rw [List.append_nil] at hf
        rw [piecesOf,hf]
        exact conforms_flush
    refine hloop.mono ?_
    rintro _ (_ | _ | _) hl
    · exact ⟨hl,.inr ⟨by omega,h64⟩⟩
    · exact .inl hl
    · exact hl

end follows
end ImgVhdx
