import ImgVhdx.Lib.Answers
import ImgVhdx.Reader.Durable

/-! An image as the array of bytes it serves, over any number of reads, writes and reopenings. -/
namespace ImgVhdx
open Lib DevProg ReaderProg

section disk
variable [Crc32c] {r : VhdxReader} {l : Layout} {w w0 : World} {c : BlockChunk} {src buf : Bytes} {i k : Nat}

def BlockChunk.Covers (c : BlockChunk) (i k : Nat) : Prop := i = c.batIdx ∧ c.inBlock ≤ k ∧ k < c.inBlock + c.chunkLen

/-- A piece leaves every byte of every block that it is not for. -/
theorem World.Session.blockByte_kept (h : World.Session r l w0 w) (ht : World.Turn r w c src) (hk : k < r.blockSize)
    (hout : ¬ c.Covers i k) :
    (w.wrote r c src).blockByte i k = w.blockByte i k := by
  have hlen := ht.length
  rcases ht.takes with ⟨off,hp,-⟩ | ⟨ha,hg⟩
  · rw [hp.wrote_eq]
    refine World.blockByte_congr (by rfl) fun a hpa => Device.byte_put_of_outside ?_
    by_cases hi : i = c.batIdx
    · subst hi
      obtain rfl : off = a := congrArg BatEntry.fileOffset (Option.some.inj (hp.symm.trans hpa))
      have hside : ¬ (c.inBlock ≤ k ∧ k < c.inBlock + c.chunkLen) := fun hin => hout ⟨rfl,hin⟩
      omega
    · have hapart := h.sound.apart _ _ _ _ hpa hp hi rfl rfl
      have hblock := ht.block
      unfold Span.Apart blockSpan Span.stop at hapart
      dsimp only at hapart
      omega
  · by_cases hi : i = c.batIdx
    · subst hi
      have hp : (w.wrote r c src).Present c.batIdx (tailOffset r w.devSize) :=
        World.Absent.present_wrote ha ht.ready hg ht.index
      have hside : ¬ (c.inBlock ≤ k ∧ k < c.inBlock + c.chunkLen) := fun hin => hout ⟨rfl,hin⟩
      rw [hp.blockByte,ha.blockByte,ha.wrote_eq,Device.byte_put_of_outside (by omega)]
      exact World.byte_granted ht.ready hg ht.index hk
    · have hentry := ht.ready.entry_wrote ht.takes ht.index src (Ne.symm hi)
      unfold World.blockByte
      rw [hentry]
      cases he : w.bat[i]? with
      | none => rfl
      | some e =>
        dsimp only
        split_ifs with hstate
        swap
        · rfl
        have hmem := List.mem_of_getElem? he
        have hdisk : e.state.blockOnDisk = true := by rw [hstate]; rfl
        have hin := h.sound.inside e hmem hdisk
        have hclear := h.sound.clear e hmem hdisk
        obtain ⟨hfrom,hto⟩ := h.placed.entry ht.index
        have hentry : (Span.mk (entryOffset r c.batIdx) batEntrySize).Apart (blockSpan r e.fileOffset) :=
          (hclear l.bat (by simp [Layout.parts])).symm.inner hfrom hto
        have hlo : (blockSpan r e.fileOffset).start ≤ e.fileOffset + k := Nat.le_add_right _ _
        have hhi : e.fileOffset + k < (blockSpan r e.fileOffset).stop := Nat.add_lt_add_left hk _
        refine ht.ready.byte_wrote ht.takes ht.index hlen (by omega) ?_ fun _ hn =>
          h.placed.aside_of_apart (hclear _ List.mem_cons_self) (hclear _ (List.mem_cons_of_mem _ List.mem_cons_self)) hn hlo hhi
        rw [ha.target_eq]
        by_contra hno
        rw [not_or,not_lt,not_le] at hno
        exact Span.apart_iff.mp hentry _ hno.1 hno.2 hlo hhi

omit [Crc32c] in
/-- Which bytes of the disk a piece of a transfer is for. -/
private theorem covers_firstChunk {stop cursor pos v : Nat} :
    (firstChunk r stop cursor pos).Covers (batIdxOf r v) (v % r.blockSize) ↔ cursor ≤ v ∧
    v < cursor + (firstChunk r stop cursor pos).chunkLen := by
  have hmod := Nat.mod_lt cursor r.blockSize_pos
  have hv := Nat.div_add_mod v r.blockSize
  have hu := Nat.div_add_mod cursor r.blockSize
  have hlen : (firstChunk r stop cursor pos).chunkLen ≤ r.blockSize - cursor % r.blockSize := Nat.min_le_left _ _
  constructor
  · rintro ⟨hi,hlo,hhi⟩
    have hblock : v / r.blockSize = cursor / r.blockSize := dataBatIndex_inj hi
    change cursor % r.blockSize ≤ v % r.blockSize at hlo
    change v % r.blockSize < cursor % r.blockSize + _ at hhi
    rw [hblock] at hv
    omega
  · rintro ⟨hlo,hhi⟩
    obtain ⟨i,rfl⟩ := Nat.exists_eq_add_of_le hlo
    have hin : i < (firstChunk r stop cursor pos).chunkLen := by omega
    obtain ⟨hd,hm⟩ := firstChunk_block hin
    refine ⟨congrArg (dataBatIndex · r.chunkRatio) hd,?_,?_⟩
    · rw [hm]
      exact Nat.le_add_right _ _
    · rw [hm]
      exact Nat.add_lt_add_left (by omega) _

/-- The pieces of a transfer put its bytes where they belong on the disk, and nothing else anywhere. -/
private theorem World.Session.disk_wroteAll {o stop cursor pos : Nat} (h : World.Session r l w0 w) (hready : w.Ready r)
    (hnum : w0.number < 2^64) (hpos : cursor = o + pos) (hlen : stop = o + buf.length)
    (hcov : ∀ v, cursor ≤ v → v < stop → batIdxOf r v < w.bat.length)
    (ht : w.TakesAll r buf (blockChunksFrom r stop cursor pos)) (v : Nat) :
    (w.wroteAll r buf (blockChunksFrom r stop cursor pos)).disk r v =
      if cursor ≤ v ∧ v < stop then buf.getD (v - o) 0 else w.disk r v := by
  induction hn : stop - cursor using Nat.strongRecOn generalizing w cursor pos with
  | ind n ih =>
    by_cases hlt : cursor < stop
    swap
    · rw [blockChunksFrom_of_le (by omega),if_neg (by omega)]
      rfl
    have hfirst := firstChunk_pos (r := r) (b := pos) hlt
    have hle := firstChunk_le (r := r) (b := pos) hlt
    have hof : (firstChunk r stop cursor pos).Of r o stop := firstChunk_of hpos hlt
    have hcovers : (firstChunk r stop cursor pos).Covers (batIdxOf r v) (v % r.blockSize) ↔ _ := covers_firstChunk
    have hi : (firstChunk r stop cursor pos).batIdx < w.bat.length := hcov cursor le_rfl hlt
    have hbuf : (firstChunk r stop cursor pos).bufPos = pos := rfl
    rw [blockChunksFrom_of_lt hlt] at ht ⊢
    generalize firstChunk r stop cursor pos = c at *
    obtain ⟨htakes,hrest⟩ := ht
    have hroom : c.bufPos + c.chunkLen ≤ buf.length := by omega
    have hturn : World.Turn r w c (slice buf c.bufPos c.chunkLen) := ⟨hready,htakes,hi,length_slice hroom,hof.block⟩
    have hentries := hready.length_wrote htakes hi (slice buf c.bufPos c.chunkLen)
    have hnext := ih _ (by omega) (h.wrote hturn hnum) (hready.wrote htakes)
      (show cursor + c.chunkLen = o + (pos + c.chunkLen) by omega)
      (fun u hlo hhi => by rw [hentries]; exact hcov u (by omega) hhi) hrest rfl
    refine hnext.trans ?_
    by_cases hmine : cursor ≤ v ∧ v < cursor + c.chunkLen
    · obtain ⟨k,rfl⟩ := Nat.exists_eq_add_of_le hmine.1
      have hsrc : k < (slice buf c.bufPos c.chunkLen).length := by
        rw [length_slice hroom]
        omega
      have hplace := hof.byte k (by omega)
      rw [show o + c.bufPos + k = cursor + k by omega] at hplace
      have hbyte : (slice buf c.bufPos c.chunkLen)[k]? = buf[cursor + k - o]? := by
        rw [getElem?_slice,if_pos (by omega),show cursor + k - o = c.bufPos + k by omega]
      rw [if_neg (by omega),if_pos (by omega),World.disk,hplace.1,hplace.2,
        hready.blockByte_wrote htakes hi (length_slice hroom) hof.block hsrc,List.getD_eq_getElem?_getD,← hbyte,
          List.getElem?_eq_getElem hsrc]
      rfl
    · rw [World.disk,h.blockByte_kept hturn (Nat.mod_lt _ r.blockSize_pos) fun hc => hmine (hcovers.mp hc)]
      exact if_congr (by omega) rfl rfl

end disk

section serving
variable [Crc32c] {r : VhdxReader} {w : World} {c : BlockChunk} {buf : Bytes} {o : Nat}

structure World.Serving (r : VhdxReader) (w : World) : Prop where
  room : w.Room r
  growable : w.dev.growable = true
  readable : ∀ v < r.virtualSize, w.Readable (batIdxOf r v)
  inside : ∀ i off, w.Present i off → off + r.blockSize ≤ w.devSize

theorem World.Serving.keptByPieces : KeptByPieces r (World.Serving r) := by
  intro w c src hready h ht hi
  obtain ⟨hroom,hgrow⟩ := growing_kept w c src hready ⟨h.room,h.growable⟩ ht hi
  have hle := World.devSize_le_wrote ht src
  refine ⟨hroom,hgrow,fun v hv => ?_,fun i off hp => ?_⟩
  · by_cases hmine : c.batIdx = batIdxOf r v
    · rcases ht with ⟨off,hp,-⟩ | ⟨ha,hg⟩
      · rw [hp.wrote_eq]
        exact h.readable v hv
      · rw [← hmine]
        exact .inr ⟨_,World.Absent.present_wrote ha hready hg hi⟩
    · have hentry := hready.entry_wrote ht hi src hmine
      exact (h.readable v hv).imp (fun ha => (World.absent_congr hentry).mpr ha) fun ⟨off,hp⟩ => ⟨off,hentry.trans hp⟩
  · by_cases hmine : c.batIdx = i
    · subst hmine
      rcases ht with ⟨a,hp',-⟩ | ⟨ha,hg⟩
      · rw [hp'.wrote_eq] at hp hle ⊢
        exact h.inside _ _ hp
      · have hnew : (w.wrote r c src).Present c.batIdx (tailOffset r w.devSize) :=
          World.Absent.present_wrote ha hready hg hi
        obtain rfl : tailOffset r w.devSize = off := congrArg BatEntry.fileOffset (Option.some.inj (hnew.symm.trans hp))
        rw [ha.devSize_wrote]
    · exact (h.inside i off ((hready.entry_wrote ht hi src hmine).symm.trans hp)).trans hle

omit [Crc32c] in
theorem World.Serving.takes (h : w.Serving r) (hr : w.Readable c.batIdx) (hb : c.inBlock + c.chunkLen ≤ r.blockSize)
    (hfits : EntryFits r c.batIdx) :
    w.Takes r c := by
  rcases hr with ha | ⟨off,hp⟩
  · obtain ⟨hpads,hroom⟩ := h.room.sums ha
    exact .inr ⟨ha,h.growable,hpads,hroom.trans_lt (by decide),hfits⟩
  · have := h.inside _ _ hp
    exact .inl ⟨off,hp,by omega⟩

omit [Crc32c] in
theorem entryFits_of_aligned (h : 4096 ∣ r.batRegionOff) (i : Nat) : EntryFits r i := by
  have hentry : entryOffset r i = r.batRegionOff + i * 8 := rfl
  unfold EntryFits
  rw [hentry,show logSectorSize = 4096 from rfl]
  omega

/-- So a write in range is taken whole. -/
private theorem World.Serving.takesAll (h : w.Serving r) (hw : w.Writable r) (halign : 4096 ∣ r.batRegionOff)
    (hin : InRange r o buf.length) :
    w.TakesAll r buf (blockChunks r o (o + buf.length)) := by
  rcases writeAt_cases hw.ready hw.covers hw.open_rw o buf with ⟨hno,-⟩ | ⟨-,⟨hall,-⟩ | ⟨front,c,rest,hcs,hall,hc,-⟩⟩
  · exact absurd hin hno
  · exact hall
  · have hfit := fits_blockChunks hw.covers hin
    have hmem : c ∈ blockChunks r o (o + buf.length) := by
      rw [hcs]
      simp
    rw [hcs] at hfit
    have hthen : (w.wroteAll r buf front).Serving r :=
      World.Serving.keptByPieces.wroteAll hw.ready h hall fun d hd => hfit d (List.mem_append_left _ hd)
    obtain ⟨v,hlo,hhi,rfl⟩ := exists_firstChunk hmem
    have hv : v < r.virtualSize := by
      rcases hin with h0 | ⟨hend,-⟩
      · omega
      · omega
    exact absurd (hthen.takes (hthen.readable v hv) (hfit _ (by simp)).2.2 (entryFits_of_aligned halign _)) hc

end serving

section lives
variable [Crc32c] {r : VhdxReader} {l : Layout} {w : World} {d d' : Device} {s : ReaderState}

/-- What is asked of an image over its life: what its reader is asked, or to be opened again. -/
inductive Demand where
  | request (q : Request)
  | reopen

def Demand.serve : Demand → VhdxReader × World → Outcome Error Bytes × VhdxReader × World
  | .request q, (r,w) =>
    let x := (q.prog r).run World.handle w
    (x.1,r,x.2)
  | .reopen, (r,w) =>
    match (openRwOnDevice w.dev).on w.dev with
    | (.ok (r',s),d) => (.ok [],r',s.start d)
    | (.err e,d) => (.err e,r,{ w with dev := d })
    | (.panic,d) => (.panic,r,{ w with dev := d })

def Demand.ofArray : Demand → Bytes → Option Bytes × Bytes
  | .request (.read off len), a => (if len = 0 ∨ off + len ≤ a.length then some (slice a off len) else none,a)
  | .request (.write off buf), a =>
    if buf.length = 0 ∨ off + buf.length ≤ a.length then (some [],splice a off buf) else (none,a)
  | .reopen, a => (some [],a)

/-- Opening takes a sequence number. -/
def Demand.cost : Demand → Nat
  | .request _ => 0
  | .reopen => 1

/-- The answer is the array's, or refuses what the array does not have. -/
def Answers (x : Outcome Error Bytes) : Option Bytes → Prop
  | some b => x = .ok b
  | none => ∃ e, x = .err e

/-- No slot past the log's front carries a GUID that comes after this header's. -/
def ClearAhead (log : Bytes) (h : Header) : Prop := ∀ k, Unstamped log (rotatedHeader^[k + 1] h).logGuid 8192

structure World.Alive (r : VhdxReader) (l : Layout) (n : Nat) (w : World) : Prop where
  opened : ∃ d s d', SoundlyOpened r l d s d' ∧ Reached r (s.start d') w ∧ (s.start d').number + n < 2^64 ∧
    ClearAhead (d'.bytes l.log.start l.log.len) s.header
  serving : w.Serving r

omit [Crc32c] in
/-- The size of a disk is a 64-bit field. -/
private theorem diskParameters_virtualSize {t : MetadataTable} {p : DiskParameters} (h : diskParameters t = .ok p) :
    p.virtualSize < 2^64 := by
  simp only [diskParameters,Outcome.bind_eq_ok] at h
  obtain ⟨_,-,_,-,b,-,n,hn,_,-,_,-,h⟩ := h
  have hsize : n < 2^64 := by
    simp only [readVirtualDiskSize,Outcome.bind_eq_ok,Outcome.rejectIf_eq_ok] at hn
    obtain ⟨_,hlen,hn⟩ := hn
    rw [readU64Le_of_le (by omega)] at hn
    cases hn
    exact ofLE_slice_lt b 0 8
  split at h
  · obtain ⟨_,-,hp⟩ := Outcome.bind_eq_ok.mp h
    rw [← Outcome.ok.inj hp]
    exact hsize
  · rw [← Outcome.ok.inj h]
    exact hsize

private theorem virtualSize_lt (h : (openRwOnDevice d).on d = (.ok (r,s),d')) : r.virtualSize < 2^64 := by
  obtain ⟨writable,rc,-,hinner⟩ := Opens.inner (.inr h)
  obtain ⟨_,_,_,_,_,p,_,-,-,hp,hf⟩ := openInner_eq_ok hinner
  obtain ⟨-,-,-,hsize,-⟩ := finishOpen_eq_ok hf
  simp only [readMetadata,on,Prog.run_bind_eq_ok,Prog.run_lift_eq_ok] at hp
  obtain ⟨_,_,-,_,_,-,_,_,-,_,_,-,hp,-⟩ := hp
  rw [hsize]
  exact diskParameters_virtualSize hp

/-- The ranges of the array are those of the disk. -/
private theorem World.Alive.inRange_iff {n : Nat} (h : w.Alive r l n) {o len : Nat} :
    InRange r o len ↔ len = 0 ∨ o + len ≤ r.virtualSize := by
  obtain ⟨d,s,d',hopened,-⟩ := h.opened
  have := virtualSize_lt hopened.opens.opens
  unfold InRange
  omega

theorem World.Alive.session {n : Nat} (h : w.Alive r l n) :
    w.Writable r ∧ ∃ w0 : World, w0.number < 2^64 ∧ World.Session r l w0 w := by
  obtain ⟨d,s,d',hopened,hreach,-⟩ := h.opened
  obtain ⟨hw,hsession⟩ := hopened.reached hreach
  exact ⟨hw,_,hopened.number,hsession⟩

def World.array (r : VhdxReader) (w : World) : Bytes := w.diskBytes r 0 r.virtualSize

omit [Crc32c] in
private theorem World.length_array : (w.array r).length = r.virtualSize := by
  rw [World.array,World.diskBytes,List.length_map,List.length_range]

omit [Crc32c] in
private theorem World.getElem?_array (i : Nat) :
    (w.array r)[i]? = if i < r.virtualSize then some (w.disk r i) else none := by
  rw [World.array,World.getElem?_diskBytes,Nat.zero_add]

/-- A read returns that part of the array, or refuses. -/
theorem World.Alive.read {n : Nat} (h : w.Alive r l n) (o len : Nat) :
    (InRange r o len ∧ (readAt r o len).run World.handle w = (.ok (slice (w.array r) o len),w)) ∨
      ¬ InRange r o len ∧ ∃ e, (readAt r o len).run World.handle w = (.err e,w) := by
  obtain ⟨hw,-⟩ := h.session
  by_cases hin : InRange r o len
  · refine .inl ⟨hin,?_⟩
    have hserved : w.Served r := ⟨hw.ready.small,hw.ready.size.ge,h.serving.inside⟩
    have hplace := h.inRange_iff.mp hin
    rw [readAt_run hserved hin fun v _ hv => h.serving.readable v (by omega)]
    refine congrArg (fun b => (Outcome.ok b,w)) ?_
    apply List.ext_getElem?
    intro i
    rw [World.getElem?_diskBytes,getElem?_slice,World.getElem?_array]
    split_ifs with hi hsize
    · rfl
    · omega
    · rfl
  · obtain ⟨e,he⟩ := transferEnd_refused hin
    refine .inr ⟨hin,e,?_⟩
    unfold readAt
    rw [he]
    rfl

/-- A write puts its bytes in the array, or refuses. -/
theorem World.Alive.write {n : Nat} (h : w.Alive r l n) (halign : 4096 ∣ r.batRegionOff) (o : Nat) (buf : Bytes) :
    (InRange r o buf.length ∧ ∃ w', (writeAt r o buf).run World.handle w = (.ok (),w') ∧ w'.Alive r l n ∧
      w'.array r = splice (w.array r) o buf) ∨
      ¬ InRange r o buf.length ∧ ∃ e, (writeAt r o buf).run World.handle w = (.err e,w) := by
  obtain ⟨hw,w0,hnum,hsession⟩ := h.session
  by_cases hin : InRange r o buf.length
  swap
  · rcases writeAt_cases hw.ready hw.covers hw.open_rw o buf with hno | ⟨hyes,-⟩
    · exact .inr hno
    · exact absurd hyes hin
  have htakes := h.serving.takesAll hw halign hin
  have hrun := writeAt_of_takesAll hw.ready hw.covers hw.open_rw hin htakes
  have hplace := h.inRange_iff.mp hin
  have hdisk := hsession.disk_wroteAll hw.ready hnum (Nat.add_zero o).symm rfl (fun v _ hv => hw.covers v (by omega)) htakes
  refine .inl ⟨hin,_,hrun,⟨?_,?_⟩,?_⟩
  · obtain ⟨d,s,d',hopened,hreach,hrest⟩ := h.opened
    exact ⟨d,s,d',hopened,hreach.write hrun (by intro hp; cases hp),hrest⟩
  · exact World.Serving.keptByPieces.wroteAll hw.ready h.serving htakes (fits_blockChunks hw.covers hin)
  · apply List.ext_getElem?
    intro i
    rw [World.getElem?_array,show (w.wroteAll r buf (blockChunks r o (o + buf.length))).disk r i = _ from hdisk i]
    rcases hplace with hempty | hend
    · obtain rfl := List.length_eq_zero_iff.mp hempty
      rw [show splice (w.array r) o [] = w.array r by simp [splice],World.getElem?_array,
        if_neg (show ¬ (o ≤ i ∧ i < o + ([] : Bytes).length) from fun hc => absurd (hc.1.trans_lt hc.2)
          (Nat.lt_irrefl o))]
    · rw [getElem?_splice (by rw [World.length_array]; exact hend),World.getElem?_array]
      by_cases hi : o ≤ i ∧ i < o + buf.length
      · rw [if_pos hi,if_pos hi,if_pos (by omega),List.getD_eq_getElem?_getD,List.getElem?_eq_getElem (by omega)]
        rfl
      · rw [if_neg hi,if_neg hi]

/-- Opened again, the file is still the array. -/
private theorem World.Alive.reopen {n : Nat} (h : w.Alive r l (1 + n)) :
    ∃ t d2, (openRwOnDevice w.dev).on w.dev = (.ok (r,t),d2) ∧ (t.start d2).Alive r l n ∧
    (t.start d2).array r = w.array r := by
  obtain ⟨d,s,d',hopened,hreach,hnum,hclear⟩ := h.opened
  obtain ⟨hw,hsession⟩ := hopened.reached hreach
  obtain ⟨k,hk⟩ := hsession.rotated
  have hahead : w.header ≠ s.header → Unstamped (d'.bytes l.log.start l.log.len) w.header.logGuid 8192 := by
    intro hne
    change w.header = rotatedHeader^[k] s.header at hk
    cases k with
    | zero => exact absurd hk hne
    | succ k =>
      rw [hk]
      exact hclear k
  obtain ⟨t,d2,hagain,hlog⟩ := hopened.reopened hreach (by omega) hahead
  have hbefore := hsession.number
  have hafter := hagain.number
  refine ⟨t,d2,hagain.sound.opens.opens,⟨⟨w.dev,t,d2,hagain.sound,.start,by omega,?_⟩,?_⟩,?_⟩
  · rcases hlog with ⟨hheader,hsame,hbytes⟩ | hzeros
    · rw [hbytes,hheader,hsame]
      exact hclear
    · rw [hzeros]
      intro j
      exact unstamped_zeros _ _ _
  · obtain ⟨hlow,hleft⟩ := h.serving.room
    refine ⟨⟨?_,?_⟩,?_,?_,?_⟩
    · change t.devSize ≤ 2^63
      rw [hagain.size]
      exact hlow
    · change tailOffset r t.devSize + (t.bat.countP _) * r.blockSize ≤ 2^63
      rw [hagain.size,hagain.bat]
      exact hleft
    · change d2.growable = true
      rw [hagain.growable]
      exact h.serving.growable
    · intro v hv
      have hsame : (t.start d2).bat[batIdxOf r v]? = w.bat[batIdxOf r v]? := congrArg (·[batIdxOf r v]?) hagain.bat
      exact (h.serving.readable v hv).imp (fun ha => (World.absent_congr hsame).mpr ha) fun ⟨off,hp⟩ =>
        ⟨off,hsame.trans hp⟩
    · intro i off hp
      have hsame : (t.start d2).bat[i]? = w.bat[i]? := congrArg (·[i]?) hagain.bat
      change _ ≤ t.devSize
      rw [hagain.size]
      exact h.serving.inside i off (hsame.symm.trans hp)
  · apply List.ext_getElem?
    intro i
    rw [World.getElem?_array,World.getElem?_array,hagain.disk]

def Together (r : VhdxReader) (l : Layout) (n : Nat) (x : VhdxReader × World) (a : Bytes) : Prop :=
  x.1 = r ∧ x.2.Alive r l n ∧ a = x.2.array r

/-- Whatever is asked, the answers agree, and the array is still what the reader stands for. -/
private theorem Together.demand (halign : 4096 ∣ r.batRegionOff) (q : Demand) (n : Nat) (x : VhdxReader × World)
    (a : Bytes) (h : Together r l (q.cost + n) x a) :
    Answers (q.serve x).1 (q.ofArray a).1 ∧ Together r l n (q.serve x).2 (q.ofArray a).2 := by
  obtain ⟨r',w⟩ := x
  obtain ⟨rfl,halive,rfl⟩ := h
  cases q with
  | request q =>
    replace halive : w.Alive r' l n := (Nat.zero_add n) ▸ halive
    cases q with
    | read o len =>
      have hplaces : (len = 0 ∨ o + len ≤ (w.array r').length) ↔ InRange r' o len := by
        rw [World.length_array]
        exact halive.inRange_iff.symm
      rcases halive.read o len with ⟨hin,hrun⟩ | ⟨hno,e,hrun⟩
      · have hserve : (Demand.request (.read o len)).serve (r',w) = (.ok (slice (w.array r') o len),r',w) :=
          congrArg (fun y : Outcome Error Bytes × World => (y.1,r',y.2)) hrun
        have harray : (Demand.request (.read o len)).ofArray (w.array r') =
          (some (slice (w.array r') o len),w.array r') :=
          congrArg (·,w.array r') (if_pos (hplaces.mpr hin))
        rw [hserve,harray]
        exact ⟨rfl,rfl,halive,rfl⟩
      · have hserve : (Demand.request (.read o len)).serve (r',w) = (.err e,r',w) :=
          congrArg (fun y : Outcome Error Bytes × World => (y.1,r',y.2)) hrun
        have harray : (Demand.request (.read o len)).ofArray (w.array r') = (none,w.array r') :=
          congrArg (·,w.array r') (if_neg fun hp => hno (hplaces.mp hp))
        rw [hserve,harray]
        exact ⟨⟨e,rfl⟩,rfl,halive,rfl⟩
    | write o buf =>
      have hplaces : (buf.length = 0 ∨ o + buf.length ≤ (w.array r').length) ↔ InRange r' o buf.length := by
        rw [World.length_array]
        exact halive.inRange_iff.symm
      have hprog : (Request.write o buf).prog r' = (writeAt r' o buf >>= fun _ => return []) := rfl
      rcases halive.write halign o buf with ⟨hin,w',hrun,hnext,hsplice⟩ | ⟨hno,e,hrun⟩
      · have hserve : (Demand.request (.write o buf)).serve (r',w) = (.ok [],r',w') := by
          unfold Demand.serve
          dsimp only
          rw [hprog,Prog.run_bind_of_ok hrun]
          rfl
        have harray : (Demand.request (.write o buf)).ofArray (w.array r') = (some [],splice (w.array r') o buf) :=
          if_pos (hplaces.mpr hin)
        rw [hserve,harray]
        exact ⟨rfl,rfl,hnext,hsplice.symm⟩
      · have hserve : (Demand.request (.write o buf)).serve (r',w) = (.err e,r',w) := by
          unfold Demand.serve
          dsimp only
          rw [hprog,Prog.run_bind,hrun]
        have harray : (Demand.request (.write o buf)).ofArray (w.array r') = (none,w.array r') :=
          if_neg fun hp => hno (hplaces.mp hp)
        rw [hserve,harray]
        exact ⟨⟨e,rfl⟩,rfl,halive,rfl⟩
  | reopen =>
    obtain ⟨t,d2,hopen,hnext,hsame⟩ := halive.reopen
    have hserve : Demand.reopen.serve (r',w) = (.ok [],r',t.start d2) := by
      unfold Demand.serve
      dsimp only
      rw [hopen]
    rw [hserve]
    exact ⟨rfl,rfl,hnext,hsame.symm⟩

/-- An image that open finds sound, with every block readable and nothing in its log that a later header could claim,
is an array of bytes: whatever it is asked in turn, to read, to write or to be closed and opened again, each answer is
the array's. -/
theorem serves_an_array (h : SoundlyOpened r l d s d') (hgrow : d.growable = true) (hsmall : d.size < 2^62)
    (halign : 4096 ∣ r.batRegionOff) (hreadable : ∀ v < r.virtualSize, (s.start d').Readable (batIdxOf r v))
    (hclear : ClearAhead (d'.bytes l.log.start l.log.len) s.header) (demands : List Demand)
    (hnum : (s.start d').number + (demands.map Demand.cost).sum < 2^64) :
    List.Forall₂ Answers (answers Demand.serve demands (r,s.start d'))
    (answers Demand.ofArray demands ((s.start d').array r)) := by
  have hgrowable : d'.growable = true := h.opens.started.2.1.trans hgrow
  have hserving : (s.start d').Serving r :=
    ⟨room_of_opened h.opens.opens hsmall,hgrowable,hreadable,fun i off hp => h.sound.inside _ hp.mem rfl⟩
  exact answers_agree (Together.demand halign) ⟨rfl,⟨⟨d,s,d',h,.start,hnum,hclear⟩,hserving⟩,rfl⟩

end lives

section oneLogged
variable [Crc32c]

theorem oneLogged_sound :
    SoundlyOpened (oneLogged 5).reader (oneLoggedLayout 5) (oneLogged 5).device (oneLoggedState 5) (oneLogged 5).device where
  opens := oneLogged_opensAs 5
  small := by rw [Build.size_device]; exact (by decide : 4194304 < 2^64)
  apart := {
    log_header := fun _ => (by decide : headerSection.Apart ⟨1048576,1048576⟩)
    log_metadata := fun _ => (by decide : (Span.mk 1048576 1048576).Apart ⟨2097152,metadataRegionSize⟩)
    log_bat := fun _ => (by decide : (Span.mk 1048576 1048576).Apart ⟨3145728,8⟩)
    header_metadata := (by decide : headerSection.Apart ⟨2097152,metadataRegionSize⟩)
    header_bat := (by decide : headerSection.Apart ⟨3145728,8⟩)
    metadata_bat := (by decide : (Span.mk 2097152 metadataRegionSize).Apart ⟨3145728,8⟩) }
  sound := {
    inside := fun e he hdisk => by
      obtain rfl := List.mem_singleton.mp he
      cases hdisk
    clear := fun e he hdisk => by
      obtain rfl := List.mem_singleton.mp he
      cases hdisk
    apart := fun i j e f he hf hne hdisk _ => by
      obtain rfl := List.mem_singleton.mp (List.mem_of_getElem? he)
      cases hdisk }
  identifier := (oneLogged_valid 5).bytes_identifier
  current := oneLogged_current
  number := (by decide : 5 + 1 < 2^64)

theorem oneLogged_log_zeros :
    (oneLogged 5).device.bytes (oneLoggedLayout 5).log.start (oneLoggedLayout 5).log.len = zeros 1048576 := by
  have hzeros : (oneLogged 5).device.bytes 1048576 1048576 = zeros 1048576 := by
    rw [Build.bytes_device (b := oneLogged 5) (show oneMib ≤ 1048576 from le_rfl)
      (.inl (show 1048576 + 1048576 ≤ 2097152 by decide)),
      show (oneLogged 5).body = [] from rfl,Device.putAll_nil,Device.bytes_zeroed]
  exact hzeros

private theorem oneLogged_log_clear :
    ClearAhead ((oneLogged 5).device.bytes (oneLoggedLayout 5).log.start (oneLoggedLayout 5).log.len)
    (oneLogged 5).header := by
  intro k
  rw [oneLogged_log_zeros]
  exact unstamped_zeros _ _ _

theorem oneLogged_number : ((oneLoggedState 5).start (oneLogged 5).device).number = 6 := rfl

end oneLogged

/-- A byte written through the log is read back when the image has been opened again. -/
theorem serves_an_array_oneLogged :
    letI := castagnoli
    answers Demand.serve [.request (.write 0 [1]),.reopen,.request (.read 0 1)]
      ((oneLogged 5).reader,(oneLoggedState 5).start (oneLogged 5).device) =
      [.ok [],.ok [],.ok [1]] := by
  let := castagnoli
  have hserves := serves_an_array oneLogged_sound (by simp [Build.device,Device.zeroed])
    (by rw [Build.size_device]; exact (by decide : 4194304 < 2^62))
    (by decide : 4096 ∣ 3145728) (fun v hv => .inl ?_) oneLogged_log_clear
      [.request (.write 0 [1]),.reopen,.request (.read 0 1)]
    (by rw [oneLogged_number]; decide)
  · have hlen : (((oneLoggedState 5).start (oneLogged 5).device).array (oneLogged 5).reader).length = 1048576 :=
      World.length_array
    generalize ((oneLoggedState 5).start (oneLogged 5).device).array (oneLogged 5).reader = a at hserves hlen
    have hroom : 0 + ([1] : Bytes).length ≤ a.length := by
      rw [hlen]
      decide
    have hwrite : (Demand.request (.write 0 [1])).ofArray a = (some [],splice a 0 [1]) := if_pos (.inr hroom)
    have hread : (Demand.request (.read 0 1)).ofArray (splice a 0 [1]) =
      (some (slice (splice a 0 [1]) 0 1),splice a 0 [1]) :=
      congrArg (·,splice a 0 [1]) (if_pos (.inr (by rw [length_splice hroom]; exact hroom)))
    have hback : slice (splice a 0 [1]) 0 1 = [1] := slice_splice_same hroom rfl
    have harray : answers Demand.ofArray [.request (.write 0 [1]),.reopen,.request (.read 0 1)] a =
        [some [],some [],some [1]] := by
      rw [answers_cons,hwrite,answers_cons,answers_cons,answers_nil,show Demand.reopen.ofArray (splice a 0 [1]) =
        (some [],splice a 0 [1]) from rfl,
        hread,hback]
    rw [harray] at hserves
    generalize answers Demand.serve _ _ = xs at *
    obtain _ | ⟨h1,_ | ⟨h2,_ | ⟨h3,_ | _⟩⟩⟩ := hserves
    rw [h1,h2,h3]
  · have hblock : batIdxOf (oneLogged 5).reader v = 0 := by
      change dataBatIndex (v / oneMib) 4096 = 0
      rw [Nat.div_eq_of_lt (show v < oneMib from hv)]
      decide
    rw [hblock]
    exact oneLogged_absent

end ImgVhdx
