import ImgVhdx.Device
import ImgVhdx.Lib.Words

/-! A copy-on-write view of an image file: writes land in memory a page at a time, reads see those pages over the
file's own bytes, and the whole is the device those writes would have made of the file. -/
namespace ImgVhdx
open Lib

/-- The unit a write is kept in. -/
def page : Nat := 4096

structure Overlay where
  base : Device
  baseLen : Nat
  len : Nat
  /-- Every page written, whole. -/
  pages : Nat → Option Bytes
  written : Bool

structure PagePiece where
  index : Nat
  inPage : Nat
  pos : Nat
  n : Nat

def piecesFrom (offset stop cur : Nat) : List PagePiece :=
  if cur < stop then
    let index := cur / page
    let inPage := cur % page
    let n := min (page - inPage) (stop - cur)
    { index, inPage, pos := cur - offset, n } :: piecesFrom offset stop (cur + n)
  else []
termination_by stop - cur
decreasing_by
  have hpage : page = 4096 := rfl
  have := Nat.mod_lt cur (show 0 < page by decide)
  omega

def pieces (offset len : Nat) : List PagePiece := piecesFrom offset (offset + len) offset

namespace Overlay

def new (base : Device) : Overlay where
  base
  baseLen := base.size
  len := base.size
  pages _ := none
  written := false

variable (o : Overlay)

def readBase (offset len : Nat) : Except FsError Bytes := do
  let there := min (o.baseLen - offset) len
  let bytes ← if there > 0 then o.base.readAt offset there else .ok []
  return bytes ++ zeros (len - there)

def bound (offset len : Nat) : Except FsError Unit :=
  match checkedAdd offset len with
  | some stop => if stop ≤ o.len then .ok () else .error (.outOfBounds offset len o.len)
  | none => .error (.outOfBounds offset len o.len)

def readPiece (p : PagePiece) : Except FsError Bytes :=
  match o.pages p.index with
  | some kept => .ok (slice kept p.inPage p.n)
  | none => o.readBase (p.index * page + p.inPage) p.n

def readPieces : List PagePiece → Except FsError Bytes
  | [] => .ok []
  | p :: rest => do
    let dst ← o.readPiece p
    let more ← readPieces rest
    return dst ++ more

def readAt (offset len : Nat) : Except FsError Bytes := do
  o.bound offset len
  o.readPieces (pieces offset len)

def pageFor (index : Nat) : Except FsError Bytes :=
  match o.pages index with
  | some kept => .ok kept
  | none => o.readBase (index * page) page

def keep (index : Nat) (bytes : Bytes) :
    Overlay := { o with pages := fun i => if i = index then some bytes else o.pages i }

def writePieces (buf : Bytes) : List PagePiece → Overlay → Except FsError Unit × Overlay
  | [], o => (.ok (),o)
  | p :: rest, o =>
    match o.pageFor p.index with
    | .error e => (.error e,o)
    | .ok bytes => writePieces buf rest (o.keep p.index (splice bytes p.inPage (slice buf p.pos p.n)))

def writeAt (offset : Nat) (buf : Bytes) : Except FsError Unit × Overlay :=
  match o.bound offset buf.length with
  | .error e => (.error e,o)
  | .ok () =>
    match writePieces buf (pieces offset buf.length) o with
    | (.error e,o') => (.error e,o')
    | (.ok (),o') => (.ok (),{ o' with written := true })

/-- Growth only. -/
def setLen (newLen : Nat) : Except FsError Unit × Overlay :=
  if newLen < o.len then
    (.error (.custom s!"the in-memory view of the image does not shrink ({o.len} to {newLen} bytes)"),o)
  else (.ok (),{ o with len := newLen, written := true })

def handle : (op : DevOp) → Overlay → op.Reply × Overlay
  | .size, o => (o.len,o)
  | .read off len, o => (o.readAt off len,o)
  | .write off bs, o => o.writeAt off bs
  | .setLen n, o => o.setLen n
  | .flush, o => (.ok (),o)

def byte (i : Nat) : UInt8 :=
  match o.pages (i / page) with
  | some bytes => bytes.getD (i % page) 0
  | none => o.base.byte i

/-- The overlay reads as this device, which may be written and grown. -/
structure Shows (o : Overlay) (d : Device) : Prop where
  baseLen : o.baseLen = o.base.size
  base_le : o.base.size ≤ d.size
  len : o.len = d.size
  small : d.size < 2^64
  whole : ∀ i bytes, o.pages i = some bytes → bytes.length = page
  byte : ∀ i, o.byte i = d.byte i
  writable : d.writable = true
  growable : d.growable = true

section shows
variable {o : Overlay} {d : Device} {off n : Nat}

theorem shows_new {base : Device} (h : base.size < 2^64) :
    (new base).Shows { base with writable := true, growable := true } where
  baseLen := rfl
  base_le := le_rfl
  len := rfl
  small := h
  whole _ _ h := by cases h
  byte _ := rfl
  writable := rfl
  growable := rfl

private theorem readBase_eq (h : o.baseLen = o.base.size) : o.readBase off n = .ok (o.base.bytes off n) := by
  have hpad : o.base.bytes off (min (o.baseLen - off) n) ++ zeros (n - min (o.baseLen - off) n) = o.base.bytes off n := by
    apply List.ext_getElem?
    intro i
    rw [Device.getElem?_bytes]
    by_cases hi : i < min (o.baseLen - off) n
    · rw [List.getElem?_append_left (by rwa [Device.length_bytes]),Device.getElem?_bytes,if_pos hi,if_pos (by omega)]
    · rw [List.getElem?_append_right (by rw [Device.length_bytes]; omega),Device.length_bytes]
      split_ifs with hn
      · rw [getElem?_zeros (by omega),o.base.blank (off + i) (by omega)]
      · exact List.getElem?_eq_none (by rw [length_zeros]; omega)
  unfold readBase
  dsimp only
  split_ifs with hpos
  · rw [Device.readAt_of_le (by omega)]
    exact congrArg Except.ok hpad
  · have h0 : min (o.baseLen - off) n = 0 := by omega
    rw [h0] at hpad ⊢
    exact congrArg Except.ok hpad

theorem Shows.bound (h : o.Shows d) :
    o.bound off n = if off + n ≤ d.size then .ok () else .error (.outOfBounds off n d.size) := by
  have hsmall := h.small
  unfold Overlay.bound
  rw [h.len]
  by_cases h64 : off + n < 2^64
  · rw [checkedAdd_of_lt h64]
  · rw [checkedAdd,if_neg h64,if_neg (by omega)]

private theorem byte_of_kept {i k : Nat} {bytes : Bytes} (hp : o.pages i = some bytes) (hk : k < page) :
    o.byte (i * page + k) = bytes.getD k 0 := by
  have hpos : 0 < page := by decide
  have hdiv : (i * page + k) / page = i := by rw [Nat.mul_comm,Nat.mul_add_div hpos,Nat.div_eq_of_lt hk,Nat.add_zero]
  have hmod : (i * page + k) % page = k := by rw [Nat.mul_comm,Nat.mul_add_mod,Nat.mod_eq_of_lt hk]
  unfold Overlay.byte
  rw [hdiv,hp,hmod]

private theorem byte_of_base {i k : Nat} (hp : o.pages i = none) (hk : k < page) :
    o.byte (i * page + k) = o.base.byte (i * page + k) := by
  have hdiv : (i * page + k) / page = i := by
    rw [Nat.mul_comm,Nat.mul_add_div (show 0 < page by decide),Nat.div_eq_of_lt hk,Nat.add_zero]
  unfold Overlay.byte
  rw [hdiv,hp]

/-- A piece inside its page reads as the device does. -/
private theorem Shows.readPiece (h : o.Shows d) {p : PagePiece} (hp : p.inPage + p.n ≤ page) :
    o.readPiece p = .ok (d.bytes (p.index * page + p.inPage) p.n) := by
  unfold Overlay.readPiece
  cases hk : o.pages p.index with
  | none =>
    rw [readBase_eq h.baseLen]
    refine congrArg Except.ok (Device.bytes_congr fun i hlo hhi => ?_)
    obtain ⟨k,rfl⟩ := Nat.exists_eq_add_of_le (show p.index * page ≤ i by omega)
    rw [← h.byte,byte_of_base hk (by omega)]
  | some kept =>
    have hlen := h.whole _ _ hk
    refine congrArg Except.ok (List.ext_getElem? fun i => ?_)
    rw [getElem?_slice,Device.getElem?_bytes]
    split_ifs with hi
    · rw [← h.byte,Nat.add_assoc,byte_of_kept hk (by omega),List.getD_eq_getElem?_getD,List.getElem?_eq_getElem (by omega)]
      rfl
    · rfl

theorem Shows.pageFor (h : o.Shows d) (i : Nat) : o.pageFor i = .ok (d.bytes (i * page) page) := by
  have hread := h.readPiece (p := ⟨i,0,0,page⟩) (by dsimp only; omega)
  unfold Overlay.pageFor
  unfold Overlay.readPiece at hread
  simp only [Nat.add_zero] at hread
  cases hk : o.pages i with
  | none =>
    rw [hk] at hread
    exact hread
  | some kept =>
    rw [hk] at hread
    dsimp only at hread ⊢
    rwa [slice_eq_self (h.whole _ _ hk)] at hread

/-- Where the pieces of a span start: each lies in one page, and they follow one another. -/
private theorem piecesFrom_of_lt (a : Nat) {stop cur : Nat} (h : cur < stop) :
    ∃ m, 0 < m ∧ cur + m ≤ stop ∧ cur % page + m ≤ page ∧
    piecesFrom a stop cur = ⟨cur / page,cur % page,cur - a,m⟩ :: piecesFrom a stop (cur + m) := by
  have hpage : page = 4096 := rfl
  have hmod := Nat.mod_lt cur (show 0 < page by decide)
  refine ⟨min (page - cur % page) (stop - cur),by omega,by omega,by omega,?_⟩
  rw [piecesFrom,if_pos h]

private theorem piecesFrom_of_le {offset stop cur : Nat} (h : stop ≤ cur) : piecesFrom offset stop cur = [] := by
  rw [piecesFrom,if_neg (by omega)]

private theorem start_of_piece (cur : Nat) : cur / page * page + cur % page = cur := by
  rw [Nat.mul_comm]
  exact Nat.div_add_mod cur page

private theorem Shows.readPieces (h : o.Shows d) (offset stop cur : Nat) :
    o.readPieces (piecesFrom offset stop cur) = .ok (d.bytes cur (stop - cur)) := by
  induction hk : stop - cur using Nat.strong_induction_on generalizing cur with
  | _ k ih =>
    by_cases hlt : cur < stop
    · obtain ⟨m,hm,hend,hin,hp⟩ := piecesFrom_of_lt offset hlt
      have hrest := ih (stop - (cur + m)) (by omega) (cur + m) rfl
      rw [hp,Overlay.readPieces,h.readPiece hin,hrest,start_of_piece]
      refine congrArg Except.ok ?_
      rw [← Device.bytes_add,← hk]
      congr 1
      dsimp only
      omega
    · rw [piecesFrom_of_le (by omega),Overlay.readPieces,← hk,show stop - cur = 0 by omega]
      rfl

theorem Shows.readAt (h : o.Shows d) : o.readAt off n = d.readAt off n := by
  unfold Overlay.readAt Device.readAt
  rw [h.bound]
  split_ifs with hin
  · have hread := h.readPieces off (off + n) off
    rw [Nat.add_sub_cancel_left] at hread
    exact hread
  · rfl

/-- A page kept with bytes spliced in shows the device with those bytes written. -/
theorem Shows.keep (h : o.Shows d) {i k : Nat} {b : Bytes} (hk : k + b.length ≤ page)
    (hin : i * page + k + b.length ≤ d.size) :
    (o.keep i (splice (d.bytes (i * page) page) k b)).Shows (d.put (i * page + k) b) where
  baseLen := h.baseLen
  base_le := h.base_le
  len := h.len
  small := h.small
  whole j bytes hj := by
    unfold Overlay.keep at hj
    dsimp only at hj
    split_ifs at hj with hij
    · rw [← Option.some.inj hj,length_splice (by rwa [Device.length_bytes]),Device.length_bytes]
    · exact h.whole j bytes hj
  byte j := by
    have hr := Nat.mod_lt j (show 0 < page by decide)
    have hj := start_of_piece j
    generalize j / page = q,j % page = r at hr hj
    subst hj
    by_cases hq : q = i
    · subst hq
      have hkept : (o.keep q (splice (d.bytes (q * page) page) k b)).pages q =
        some (splice (d.bytes (q * page) page) k b) := if_pos rfl
      rw [byte_of_kept hkept hr,List.getD_eq_getElem?_getD,getElem?_splice (by rwa [Device.length_bytes])]
      split_ifs with hin'
      · obtain ⟨t,rfl⟩ := Nat.exists_eq_add_of_le hin'.1
        rw [← Nat.add_assoc,Device.byte_put_inside hin (show t < b.length by omega),Nat.add_sub_cancel_left,
          List.getElem?_eq_getElem (by omega)]
        rfl
      · rw [Device.byte_put_of_outside (by omega),Device.getElem?_bytes,if_pos hr]
        rfl
    · have hother : (o.keep i (splice (d.bytes (i * page) page) k b)).byte (q * page + r) = o.byte (q * page + r) := by
        have hdiv : (q * page + r) / page = q := by
          rw [Nat.mul_comm,Nat.mul_add_div (show 0 < page by decide),Nat.div_eq_of_lt hr,Nat.add_zero]
        unfold Overlay.byte Overlay.keep
        dsimp only
        rw [hdiv,if_neg hq]
      have hout : q * page + r < i * page + k ∨ i * page + k + b.length ≤ q * page + r := by
        rcases Nat.lt_or_gt_of_ne hq with hlt | hgt
        · have := Nat.mul_le_mul_right page (show q + 1 ≤ i by omega)
          rw [Nat.add_mul] at this
          omega
        · have := Nat.mul_le_mul_right page (show i + 1 ≤ q by omega)
          rw [Nat.add_mul] at this
          omega
      rw [hother,h.byte,Device.byte_put_of_outside hout]
  writable := h.writable
  growable := h.growable

theorem Shows.writePieces {buf : Bytes} (offset stop : Nat) (hbuf : stop ≤ offset + buf.length) {o : Overlay}
    {d : Device} (h : o.Shows d) (cur : Nat) (hoff : offset ≤ cur) (hstop : cur ≤ stop) (hin : stop ≤ d.size) :
    ∃ o', writePieces buf (piecesFrom offset stop cur) o = (.ok (),o') ∧ o'.base = o.base ∧
      o'.Shows (d.put cur (slice buf (cur - offset) (stop - cur))) := by
  induction hk : stop - cur using Nat.strong_induction_on generalizing cur o d with
  | _ k ih =>
    by_cases hlt : cur < stop
    · obtain ⟨m,hm,hend,hpage,hp⟩ := piecesFrom_of_lt offset hlt
      have hsrc : (slice buf (cur - offset) m).length = m := length_slice (by omega)
      have hstart := start_of_piece cur
      have hkept := h.keep (i := cur / page) (k := cur % page) (b := slice buf (cur - offset) m) (by omega) (by omega)
      rw [hstart] at hkept
      obtain ⟨o',hrun,hbase,hshows⟩ := ih (stop - (cur + m)) (by omega) hkept (cur + m) (by omega) hend hin rfl
      refine ⟨o',?_,hbase,?_⟩
      · rw [hp,Overlay.writePieces,h.pageFor]
        exact hrun
      · -- the piece and the rest of the span are one write
        have hjoin : slice buf (cur - offset) m ++ slice buf (cur + m - offset) (stop - (cur + m)) =
            slice buf (cur - offset) k := by
          rw [show cur + m - offset = cur - offset + m by omega,← slice_add,show m + (stop - (cur + m)) = k by omega]
        rw [← hjoin,← Device.put_put_append,hsrc]
        exact hshows
    · refine ⟨o,?_,rfl,?_⟩
      · rw [piecesFrom_of_le (by omega)]
        rfl
      · rw [← hk,show stop - cur = 0 by omega,slice_zero_length,Device.put_nil]
        exact h

theorem Shows.mark (h : o.Shows d) (b : Bool) : ({ o with written := b } : Overlay).Shows d :=
  ⟨h.baseLen,h.base_le,h.len,h.small,h.whole,h.byte,h.writable,h.growable⟩

/-- A write lands on what is shown and marks the overlay. -/
theorem Shows.writeAt_of_le (h : o.Shows d) {buf : Bytes} (hin : off + buf.length ≤ d.size) :
    ∃ o' : Overlay, o.writeAt off buf = (.ok (),{ o' with written := true }) ∧ o'.base = o.base ∧
    o'.Shows (d.put off buf) := by
  obtain ⟨o',hrun,hbase,hshows⟩ := h.writePieces off (off + buf.length) le_rfl off le_rfl (by omega) hin
  rw [Nat.sub_self,Nat.add_sub_cancel_left,slice_all] at hshows
  refine ⟨o',?_,hbase,hshows⟩
  unfold Overlay.writeAt pieces
  rw [h.bound,if_pos hin]
  dsimp only
  rw [hrun]

/-- Or it is refused, as the device refuses it. -/
theorem Shows.writeAt_of_gt (h : o.Shows d) {buf : Bytes} (hin : ¬ off + buf.length ≤ d.size) :
    o.writeAt off buf = (.error (.outOfBounds off buf.length d.size),o) ∧
    d.writeAt off buf = (.error (.outOfBounds off buf.length d.size),d) := by
  refine ⟨?_,?_⟩
  · unfold Overlay.writeAt
    rw [h.bound,if_neg hin]
  · unfold Device.writeAt
    rw [if_neg (not_not.mpr h.writable),if_neg hin]

theorem Shows.setLen (h : o.Shows d) (hle : d.size ≤ n) (h64 : n < 2^64) :
    o.setLen n = (.ok (),{ o with len := n, written := true }) ∧
    ({ o with len := n, written := true } : Overlay).Shows (d.resize n) := by
  refine ⟨if_neg (by rw [h.len]; omega),?_⟩
  exact {
    baseLen := h.baseLen
    base_le := h.base_le.trans hle
    len := rfl
    small := h64
    whole := h.whole
    byte := fun i => (h.byte i).trans (Device.byte_resize_of_le hle i).symm
    writable := h.writable
    growable := h.growable }

end shows

end Overlay

end ImgVhdx
