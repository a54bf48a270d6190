import ImgVhdx.Reader.Recovery
import ImgVhdx.Reader.Survives

/-! The life of an image that the power is cut under, in a write or in the opening after it: opened again, it is the
image there was, but for bytes of the writes that were cut. -/
namespace ImgVhdx
open Lib ReaderProg

/-- Openings one after the other that the power is cut in. -/
inductive CutOpenings [Crc32c] : Nat → Device → Device → Prop
  | none {d : Device} : CutOpenings 0 d d
  | cut {n : Nat} {d m e : Device} (before : CutOpenings n d m)
      (left : (openRwOnDevice m).Leaves Device.handle Device.torn m e) : CutOpenings (n + 1) d e

/-- The life of an image: it is written to, and the power may be cut in a write or ahead of one, and then in any
number of openings, after which it is opened again. -/
inductive Outlived [Crc32c] (r0 : VhdxReader) (w0 : World) : Nat → VhdxReader → World → Prop
  | start : Outlived r0 w0 0 r0 w0
  | write {n : Nat} {r : VhdxReader} {w w' : World} {o : Nat} {buf : Bytes} {x : Outcome Error Unit}
      (before : Outlived r0 w0 n r w)
      (run : (writeAt r o buf).run World.handle w = (x,w')) (returned : x ≠ .panic) : Outlived r0 w0 n r w'
  | cut {n k : Nat} {r r' : VhdxReader} {w m : World} {o : Nat} {buf : Bytes} {e d : Device} {t : ReaderState}
      (before : Outlived r0 w0 n r w)
      (left : (writeAt r o buf).Leaves World.handle World.torn w m) (openings : CutOpenings k m.dev e)
      (opens : (openRwOnDevice e).on e = (.ok (r',t),d)) : Outlived r0 w0 (n + k + 1) r' (t.start d)

section lives
variable [Crc32c] {r r' : VhdxReader} {l : Layout} {w m : World} {d d' e : Device} {t : ReaderState} {o n k : Nat} {buf : Bytes}

/-- However many openings are cut short, the disk is the one it was. -/
private theorem World.Stands.cut_openings (hs : w.Stands r l d) (hcuts : CutOpenings k d e)
    (hnum : w.number + k + 1 < 2^64) :
    ∃ v : World, v.Stands r l e ∧ v.number ≤ w.number + k ∧ ∀ x, v.disk r x = w.disk r x := by
  induction hcuts with
  | none => exact ⟨w,hs,le_rfl,fun _ => rfl⟩
  | cut before left ih =>
    obtain ⟨u,hu,hle,hdisk⟩ := ih hs (by omega)
    obtain ⟨v,hv,hnext,hsame⟩ := hu.throughout_open (by omega) _ left
    exact ⟨v,hv,by omega,fun x => (hsame x).trans (hdisk x)⟩

/-- A session cut in a write leaves what stands for the image there was, but for bytes of the write. -/
private theorem SoundlyOpened.survives (h : SoundlyOpened r l d t d') (hnum : (t.start d').number + 1 < 2^64)
    (hclear : ClearOf (d'.bytes l.log.start l.log.len) t.header) (halign : 4096 ∣ r.batRegionOff)
    (hreach : Reached r (t.start d') w) (hcut : (writeAt r o buf).Leaves World.handle World.torn w m) :
    w.Survives r l (t.start d').number o buf m.dev := by
  obtain ⟨hw,hsession⟩ := h.reached hreach
  exact h.throughout_write hnum hclear halign hsession hw o buf m hcut

/-- At each point of its life the image is one that was soundly opened and then written to. -/
theorem Outlived.sound (hlife : Outlived r (t.start d') n r' w) (h : SoundlyOpened r l d t d')
    (halign : 4096 ∣ r.batRegionOff) (hclear : ClearOf (d'.bytes l.log.start l.log.len) t.header)
    (hnum : (t.start d').number + n < 2^64) :
    r' = r ∧ ∃ e s e', SoundlyOpened r l e s e' ∧ ClearOf (e'.bytes l.log.start l.log.len) s.header ∧
      (s.start e').number ≤ (t.start d').number + n ∧ Reached r (s.start e') w := by
  induction hlife with
  | start => exact ⟨rfl,d,t,d',h,hclear,le_rfl,.start⟩
  | write before run returned ih =>
    obtain ⟨rfl,e,s,e',hsound,hlog,hle,hreach⟩ := ih hnum
    exact ⟨rfl,e,s,e',hsound,hlog,hle,hreach.write run returned⟩
  | cut before left openings opens ih =>
    obtain ⟨rfl,e,s,e',hsound,hlog,hle,hreach⟩ := ih (by omega)
    obtain ⟨v,hstands,hnumber,-⟩ := hsound.survives (by omega) hlog halign hreach left
    obtain ⟨u,hagain,hlater,-⟩ := hstands.cut_openings openings (by omega)
    obtain ⟨t2,d2,hreopened,hlog2⟩ := hagain.opens
    obtain ⟨hopened,rfl⟩ := Prod.mk.inj (hreopened.sound.opens.opens.symm.trans opens)
    obtain ⟨rfl,rfl⟩ := Prod.mk.inj (Outcome.ok.inj hopened)
    have hnext := hreopened.number
    exact ⟨rfl,_,_,_,hreopened.sound,hlog2,by omega,.start⟩

/-- So does each point of its life. -/
private theorem Outlived.survives (hlife : Outlived r (t.start d') n r' w) (h : SoundlyOpened r l d t d')
    (halign : 4096 ∣ r.batRegionOff) (hclear : ClearOf (d'.bytes l.log.start l.log.len) t.header)
    (hnum : (t.start d').number + n + 1 < 2^64) (hcut : (writeAt r' o buf).Leaves World.handle World.torn w m) :
    r' = r ∧ w.Survives r l ((t.start d').number + n) o buf m.dev := by
  obtain ⟨rfl,e,s,e',hsound,hlog,hle,hreach⟩ := hlife.sound h halign hclear (by omega)
  obtain ⟨v,hstands,hnumber,hpart⟩ := hsound.survives (by omega) hlog halign hreach hcut
  exact ⟨rfl,v,hstands,hnumber.trans hle,hpart⟩

/-- Cut in a write at any point of its life, an image that was soundly opened opens again by the same reader, and
every byte of its disk is what it was or, inside the range of the write, what the write put there. -/
theorem cut_writes_survive (h : SoundlyOpened r l d t d') (halign : 4096 ∣ r.batRegionOff)
    (hclear : ClearOf (d'.bytes l.log.start l.log.len) t.header) (hlife : Outlived r (t.start d') n r' w)
    (hnum : (t.start d').number + n + 1 < 2^64) (o : Nat) (buf : Bytes)
    (hcut : (writeAt r' o buf).Leaves World.handle World.torn w m) :
    r' = r ∧ ∃ s e, (openRwOnDevice m.dev).on m.dev = (.ok (r,s),e) ∧ ∀ x, (s.start e).disk r x = w.disk r x ∨
      o ≤ x ∧ x < o + buf.length ∧ (s.start e).disk r x = buf.getD (x - o) 0 := by
  obtain ⟨rfl,v,hstands,-,hpart⟩ := hlife.survives h halign hclear hnum hcut
  obtain ⟨t2,d2,hagain,-⟩ := hstands.opens
  refine ⟨rfl,t2,d2,hagain.sound.opens.opens,fun x => ?_⟩
  rw [hagain.disk]
  exact hpart x

/-- And cut in its opening then, any number of times over, it still opens by that reader, with the bytes that opening
it at once would have found. -/
theorem cut_openings_agree (h : SoundlyOpened r l d t d') (halign : 4096 ∣ r.batRegionOff)
    (hclear : ClearOf (d'.bytes l.log.start l.log.len) t.header) (hlife : Outlived r (t.start d') n r' w)
    (hnum : (t.start d').number + n + k + 1 < 2^64) (o : Nat) (buf : Bytes)
    (hcut : (writeAt r' o buf).Leaves World.handle World.torn w m) (hagain : CutOpenings k m.dev e) :
    ∃ s d1 s' d2, (openRwOnDevice m.dev).on m.dev = (.ok (r,s),d1) ∧
      (openRwOnDevice e).on e = (.ok (r,s'),d2) ∧ ∀ x, (s'.start d2).disk r x = (s.start d1).disk r x := by
  obtain ⟨rfl,v,hstands,hnumber,-⟩ := hlife.survives h halign hclear (by omega) hcut
  obtain ⟨u,hlater,-,hsame⟩ := hstands.cut_openings hagain (by omega)
  obtain ⟨s,d1,hfirst,-⟩ := hstands.opens
  obtain ⟨s',d2,hlast,-⟩ := hlater.opens
  exact ⟨s,d1,s',d2,hfirst.sound.opens.opens,hlast.sound.opens.opens,fun x => by rw [hfirst.disk,hlast.disk,hsame]⟩

end lives

/-- The power is cut nine calls into the write that allocates a block and journals it. -/
theorem cut_writes_survive_oneLogged :
    letI := castagnoli
    ∃ s e, (openRwOnDevice ((writeAt (oneLogged 5).reader 0 [1]).cut World.handle 9
      ((oneLoggedState 5).start (oneLogged 5).device)).dev).on
        ((writeAt (oneLogged 5).reader 0 [1]).cut World.handle 9 ((oneLoggedState 5).start (oneLogged 5).device)).dev =
          (.ok ((oneLogged 5).reader,s),e) ∧
      ((s.start e).disk (oneLogged 5).reader 0 = 0 ∨ (s.start e).disk (oneLogged 5).reader 0 = 1) := by
  let := castagnoli
  obtain ⟨-,s,e,hopens,hdisk⟩ := cut_writes_survive oneLogged_sound (by decide : 4096 ∣ 3145728) oneLogged_log_free
    .start (by rw [oneLogged_number]; decide) 0 [1]
    (Prog.leaves_cut _ 9 _)
  have hblock : batIdxOf (oneLogged 5).reader 0 = 0 := by decide
  have hzero : ((oneLoggedState 5).start (oneLogged 5).device).disk (oneLogged 5).reader 0 = 0 := by
    rw [World.disk,hblock]
    exact oneLogged_absent.blockByte _
  refine ⟨s,e,hopens,(hdisk 0).imp (·.trans hzero) fun hnew => hnew.2.2⟩

/-- And then twelve calls into the opening. -/
theorem cut_openings_agree_oneLogged :
    letI := castagnoli
    ∃ m e s d1 s' d2, CutOpenings 1 m e ∧ (openRwOnDevice m).on m = (.ok ((oneLogged 5).reader,s),d1) ∧
      (openRwOnDevice e).on e = (.ok ((oneLogged 5).reader,s'),d2) ∧
      (s'.start d2).disk (oneLogged 5).reader 0 = (s.start d1).disk (oneLogged 5).reader 0 := by
  let := castagnoli
  let m := ((writeAt (oneLogged 5).reader 0 [1]).cut World.handle 9 ((oneLoggedState 5).start (oneLogged 5).device)).dev
  have hcuts : CutOpenings 1 m ((openRwOnDevice m).cutOn 12 m) := .cut .none (Prog.leaves_cut _ 12 _)
  obtain ⟨s,d1,s',d2,hfirst,hlast,hdisk⟩ :=
    cut_openings_agree oneLogged_sound (by decide : 4096 ∣ 3145728) oneLogged_log_free .start
      (by rw [oneLogged_number]; decide) 0 [1]
    (Prog.leaves_cut _ 9 _) hcuts
  exact ⟨m,_,s,d1,s',d2,hcuts,hfirst,hlast,hdisk 0⟩

end ImgVhdx
