import ImgVhdx.Cli.InMemory
import ImgVhdx.Reader.Refused
import ImgVhdx.Lib.Files

/-! The command line's `read`: the guest's bytes to standard output, or to a file that skips their runs of zeros.
Both ways leave the same bytes. -/
namespace ImgVhdx
open Lib ReaderProg

inductive CliError where
  | failed (message : String)
  | notImplemented (message : String)
  deriving DecidableEq

structure IoError where
  brokenPipe : Bool
  message : String

def chunk : Nat := 2^20

inductive FileOp where
  | create (path : String)
  | seek (n : Nat)
  | write (bs : Bytes)
  | setLen (n : Nat)
  | sync
  | remove (path : String)
  | rename (src dest : String)

inductive CopyOp where
  | readAt (off len : Nat)
  | print (bs : Bytes)
  | flush
  | file (op : FileOp)

@[reducible] def CopyOp.Reply : CopyOp → Type
  | .readAt _ _ => Outcome Error Bytes
  | _ => Except IoError Unit

abbrev CopyProg (α : Type) := Prog CopyOp CopyOp.Reply CliError α

/-- The range a `read` covers, refused whole if any of it is past the end. -/
def range (size : Nat) (offset length : Option Nat) : Outcome CliError (Nat × Nat) := do
  let offset := offset.getD 0
  Outcome.rejectIf (offset > size) (.failed s!"--offset {offset} is past the end of the {size}-byte virtual disk")
  let length := length.getD (size - offset)
  let past := CliError.failed s!"{length} bytes at {offset} run past the end of the {size}-byte virtual disk"
  let stop ← Outcome.okOr past (checkedAdd offset length)
  Outcome.rejectIf (stop > size) past
  return (offset,length)

def chunksFrom (stop cur : Nat) : List (Nat × Nat) :=
  if cur < stop then
    let n := min chunk (stop - cur)
    (cur,n) :: chunksFrom stop (cur + n)
  else []
termination_by stop - cur
decreasing_by
  have hchunk : 0 < chunk := Nat.two_pow_pos 20
  omega

section verb
variable (display : Error → String) (image : String)

def vhdxError : Error → CliError
  | .unsupported what => .notImplemented s!"{image}: {display (.unsupported what)}"
  | e => .failed s!"{image}: {display e}"

def readGuest (c : Nat × Nat) : CopyProg Bytes := .call (.readAt c.1 c.2) fun
  | .ok b => .done (.ok b)
  | .err e => .done (.err (vhdxError display image e))
  | .panic => .done .panic

/-- A closed pipe is the reader's choice, not a failure. -/
def stdoutError (e : IoError) : CopyProg Unit :=
  if e.brokenPipe then .done (.ok ()) else .throw (.failed s!"write stdout: {e.message}")

def toStdout : List (Nat × Nat) → CopyProg Unit
  | [] => .call .flush fun
    | .ok () => .done (.ok ())
    | .error e => stdoutError e
  | c :: rest => do
    let buf ← readGuest display image c
    .call (.print buf) fun
      | .ok () => toStdout rest
      | .error e => stdoutError e

def fileCall (path : String) (op : FileOp) : CopyProg Unit := .call (.file op) fun
  | .ok () => .done (.ok ())
  | .error e => .throw (.failed s!"write {path}: {e.message}")

def copyChunk (path : String) (c : Nat × Nat) : CopyProg Unit := do
  let buf ← readGuest display image c
  if buf.all (· == 0) then fileCall path (.seek c.2) else fileCall path (.write buf)

/-- A trailing run of zeros is skipped, so the length is set at the end. -/
def copyTo (path : String) (chunks : List (Nat × Nat)) (length : Nat) : CopyProg Unit := do
  fileCall path (.create path)
  Prog.forEach (copyChunk display image path) chunks
  fileCall path (.setLen length)
  fileCall path .sync

def toFile (dest : String) (chunks : List (Nat × Nat)) (length : Nat) : CopyProg Unit := do
  let path := dest ++ ".partial"
  (copyTo display image path chunks length).releasing (.call (.file (.remove path)) fun _ => .done (.ok ()))
  .call (.file (.rename path dest)) fun
    | .ok () => .done (.ok ())
    | .error e => .throw (.failed s!"rename to {dest}: {e.message}")

def readOpened (r : VhdxReader) (offset length : Option Nat) (output : Option String) : CopyProg Unit := do
  let (offset,length) ← Prog.lift (range r.virtualSize offset length)
  match output with
  | none => toStdout display image (chunksFrom (offset + length) offset)
  | some dest => toFile display image dest (chunksFrom (offset + length) offset) length

end verb

/-- Standard output and the files, one of them open. The image itself is none of these. -/
structure Shell where
  stdout : Bytes
  files : String → Option Bytes
  path : String
  pos : Nat

namespace Shell
variable (s : Shell)

def current : OpenFile := ⟨(s.files s.path).getD [],s.pos⟩

def keep (f : OpenFile) :
    Shell := { s with files := fun p => if p = s.path then some f.bytes else s.files p, pos := f.pos }

def handleFile : FileOp → Shell
  | .create path => { s with path }.keep .empty
  | .seek n => s.keep (s.current.skip n)
  | .write bs => s.keep (s.current.write bs)
  | .setLen n => s.keep (s.current.setLen n)
  | .sync => s
  | .remove path => { s with files := fun p => if p = path then none else s.files p }
  | .rename src dest =>
    { s with files := fun p => if p = dest then s.files src else if p = src then none else s.files p }

def handle (r : VhdxReader) : (op : CopyOp) → (Overlay × World) × Shell → op.Reply × (Overlay × World) × Shell
  | .readAt off len, (x,s) =>
    let y := (ImgVhdx.readAt r off len).run Overlay.handleReader x
    (y.1,y.2,s)
  | .print bs, (x,s) => (.ok (),x,{ s with stdout := s.stdout ++ bs })
  | .flush, (x,s) => (.ok (),x,s)
  | .file op, (x,s) => (.ok (),x,s.handleFile op)

end Shell

def readVerb [Crc32c] (display : Error → String) (base : Device) (image : String) (offset length : Option Nat)
    (output : Option String) (s : Shell) : Outcome CliError Unit × Shell :=
  match openImage base with
  | (.ok (r,t),o) =>
    let y := (readOpened display image r offset length output).run (Shell.handle r) ((o,t.start base),s)
    (y.1,y.2.2)
  | (.err e,_) => (.err (vhdxError display image e),s)
  | (.panic,_) => (.panic,s)

section lengths
variable {r : VhdxReader} {w w' : World} {b : Bytes}

private theorem devRead_length {off n : Nat} (h : (devRead off n).run World.handle w = (.ok b,w')) : b.length = n := by
  unfold devRead at h
  have hr : (w.handle (.dev (.read off n))).1 = w.dev.readAt off n := rfl
  rw [Prog.run,hr] at h
  cases hread : w.dev.readAt off n with
  | error e =>
    rw [hread] at h
    cases h
  | ok b' =>
    rw [hread] at h
    obtain ⟨-,rfl⟩ := Device.readAt_eq_ok.mp hread
    cases h
    exact Device.length_bytes

private theorem readChunk_length {c : BlockChunk} (h : (readChunk c).run World.handle w = (.ok b,w')) :
    b.length = c.chunkLen := by
  obtain ⟨entry,w1,-,h⟩ := Prog.run_bind_eq_ok.mp h
  generalize entry.state = st at h
  cases st with
  | fullyPresent =>
    obtain ⟨hostOff,w2,-,h⟩ := Prog.run_bind_eq_ok.mp h
    exact devRead_length h
  | partiallyPresent => cases h
  | reserved v => cases h
  | _ =>
    cases h
    exact length_zeros _

private theorem readChunks_length {stop u a : Nat}
    (h : (readChunks (blockChunksFrom r stop u a)).run World.handle w = (.ok b,w')) :
    b.length = stop - u := by
  induction hn : stop - u using Nat.strongRecOn generalizing u a w w' b with
  | ind n ih =>
    by_cases hlt : u < stop
    · rw [blockChunksFrom_of_lt hlt,readChunks] at h
      obtain ⟨dst,w1,hdst,h⟩ := Prog.run_bind_eq_ok.mp h
      obtain ⟨more,w2,hmore,h⟩ := Prog.run_bind_eq_ok.mp h
      have hpos := firstChunk_pos (r := r) (b := a) hlt
      have hle := firstChunk_le (r := r) (b := a) hlt
      have hrest := ih (stop - (u + (firstChunk r stop u a).chunkLen)) (by omega) hmore rfl
      cases h
      rw [List.length_append,readChunk_length hdst,hrest]
      omega
    · rw [blockChunksFrom_of_le (by omega)] at h
      cases h
      rw [List.length_nil]
      omega

/-- A read that goes well fills what was to be filled. -/
private theorem readAt_length {off n : Nat} (h : (readAt r off n).run World.handle w = (.ok b,w')) : b.length = n := by
  obtain ⟨stop,w1,hstop,hrest⟩ := Prog.run_bind_eq_ok.mp h
  obtain ⟨hend,rfl⟩ := Prog.run_lift_eq_ok.mp hstop
  by_cases hn : n = 0
  · rw [transferEnd,if_pos hn] at hend
    cases hend
    cases hrest
    exact hn.symm
  · rw [transferEnd,if_neg hn] at hend
    obtain ⟨u,hu,hend⟩ := Outcome.bind_eq_ok.mp hend
    obtain ⟨-,-,hend⟩ := Outcome.bind_eq_ok.mp hend
    obtain ⟨-,rfl⟩ := checkedAdd_eq_some.mp (Outcome.okOr_eq_ok.mp hu)
    cases hend
    rw [readChunks_length hrest,Nat.add_sub_cancel_left]

end lengths

/-- A read leaves the overlay and the reader as they were. -/
private theorem Overlay.reads_leaves {α : Type} {p : ReaderProg α} (hp : Reads p) (x : Overlay × World) :
    (p.run Overlay.handleReader x).2 = x := by
  refine hp.keeps (I := fun y => y = x) (fun op y hop hy => ?_) rfl
  obtain ⟨o,v⟩ := x
  subst hy
  cases op with
  | dev op =>
    cases op with
    | write off bs => cases hop
    | setLen n => cases hop
    | _ => rfl
  | loadSize => rfl
  | loadBat i => rfl
  | _ => cases hop

namespace Shell
variable {s : Shell} {f g : OpenFile}

@[simp] theorem current_keep : (s.keep f).current = f := by
  unfold current keep
  dsimp only
  rw [if_pos rfl,Option.getD_some]

@[simp] theorem keep_keep : (s.keep f).keep g = s.keep g := by
  unfold keep
  congr 1
  funext p
  dsimp only
  split_ifs <;> rfl

end Shell

section copies
variable {display : Error → String} {image path : String} {r : VhdxReader} {x : Overlay × World} {s : Shell}
  {f : OpenFile} {c : Nat × Nat}
  {l : List (Nat × Nat)} {done : Bytes}

def guest (r : VhdxReader) (x : Overlay × World) (c : Nat × Nat) :
    Bytes := ((readAt r c.1 c.2).run Overlay.handleReader x).1.value.getD []

structure Serves (r : VhdxReader) (x : Overlay × World) (c : Nat × Nat) : Prop where
  ok : ((readAt r c.1 c.2).run Overlay.handleReader x).1 = .ok (guest r x c)
  length : (guest r x c).length = c.2

private theorem Serves.readGuest (h : Serves r x c) :
    (readGuest display image c).run (Shell.handle r) (x,s) = (.ok (guest r x c),x,s) := by
  have hread : Shell.handle r (.readAt c.1 c.2) (x,s) = (.ok (guest r x c),x,s) := by
    unfold Shell.handle
    dsimp only
    rw [h.ok,Overlay.reads_leaves (reads_readAt c.1 c.2)]
  unfold ImgVhdx.readGuest
  rw [Prog.run,hread]
  rfl

/-- Standard output receives the chunks in order. -/
private theorem toStdout_run (h : ∀ c ∈ l, Serves r x c) : (toStdout display image l).run (Shell.handle r) (x,s) =
    (.ok (),x,{ s with stdout := s.stdout ++ l.flatMap (guest r x) }) := by
  induction l generalizing s with
  | nil =>
    rw [List.flatMap_nil,List.append_nil]
    rfl
  | cons c l ih =>
    obtain ⟨hc,hl⟩ := List.forall_mem_cons.mp h
    rw [toStdout,Prog.run_bind_of_ok hc.readGuest,List.flatMap_cons,← List.append_assoc]
    exact ih hl

private theorem fileCall_run {op : FileOp} :
    (fileCall path op).run (Shell.handle r) (x,s) = (.ok (),x,s.handleFile op) := rfl

/-- A chunk is written, or passed over where it is all zeros. -/
private theorem copyChunk_run (display : Error → String) (image path : String) (s : Shell) (h : Serves r x c)
    (hf : f.Stands done) : ∃ g : OpenFile, g.Stands (done ++ guest r x c) ∧
    (copyChunk display image path c).run (Shell.handle r) (x,s.keep f) = (.ok (),x,s.keep g) := by
  unfold copyChunk
  rw [Prog.run_bind_of_ok h.readGuest]
  split_ifs with hz
  · have hzeros : guest r x c = zeros c.2 := by
      rw [zeros,List.eq_replicate_iff]
      exact ⟨h.length,fun b hb => by simpa using List.all_eq_true.mp hz b hb⟩
    refine ⟨f.skip c.2,hzeros ▸ hf.skip c.2,?_⟩
    rw [fileCall_run,Shell.handleFile,Shell.current_keep,Shell.keep_keep]
  · refine ⟨f.write (guest r x c),hf.write _,?_⟩
    rw [fileCall_run,Shell.handleFile,Shell.current_keep,Shell.keep_keep]

private theorem copyChunks_run (display : Error → String) (image path : String) (s : Shell) (h : ∀ c ∈ l, Serves r x c)
    (hf : f.Stands done) : ∃ g : OpenFile, g.Stands (done ++ l.flatMap (guest r x)) ∧
    (Prog.forEach (copyChunk display image path) l).run (Shell.handle r) (x,s.keep f) = (.ok (),x,s.keep g) := by
  induction l generalizing f done with
  | nil => exact ⟨f,by rwa [List.flatMap_nil,List.append_nil],rfl⟩
  | cons c l ih =>
    obtain ⟨hc,hl⟩ := List.forall_mem_cons.mp h
    obtain ⟨g,hg,hrun⟩ := copyChunk_run display image path s hc hf
    obtain ⟨g',hg',hrest⟩ := ih hl hg
    refine ⟨g',by rwa [List.flatMap_cons,← List.append_assoc],?_⟩
    rw [Prog.forEach_cons,Prog.run_bind_of_ok hrun,hrest]

/-- The file that is written holds the chunks, once its length is set. -/
private theorem copyTo_run (display : Error → String) (image path : String) (s : Shell) (h : ∀ c ∈ l, Serves r x c) :
    ∃ g : OpenFile, g.bytes = l.flatMap (guest r x) ∧
      (copyTo display image path l (l.flatMap (guest r x)).length).run (Shell.handle r) (x,s) =
      (.ok (),x,{ s with path }.keep g) := by
  obtain ⟨g,hg,hrun⟩ := copyChunks_run display image path { s with path } h OpenFile.stands_empty
  rw [List.nil_append] at hg
  refine ⟨g.setLen (l.flatMap (guest r x)).length,hg.setLen,?_⟩
  unfold copyTo
  rw [Prog.run_bind_of_ok fileCall_run,Shell.handleFile,Prog.run_bind_of_ok hrun,Prog.run_bind_of_ok fileCall_run,
    Shell.handleFile,
    Shell.current_keep,Shell.keep_keep]
  rfl

/-- And takes the name it was asked for. -/
private theorem toFile_run (display : Error → String) (image dest : String) (s : Shell) (h : ∀ c ∈ l, Serves r x c) :
    ∃ t : Shell, (toFile display image dest l (l.flatMap (guest r x)).length).run (Shell.handle r) (x,s) = (.ok (),x,t) ∧
      t.stdout = s.stdout ∧
      t.files = fun p => if p = dest then some (l.flatMap (guest r x)) else if p = dest ++
      ".partial" then none else s.files p := by
  obtain ⟨g,hg,hrun⟩ := copyTo_run display image (dest ++ ".partial") s h
  refine ⟨({ s with path := dest ++ ".partial" }.keep g).handleFile (.rename (dest ++ ".partial") dest),?_,rfl,?_⟩
  · unfold toFile
    rw [Prog.run_bind_of_ok (Prog.run_releasing_eq_ok.mpr hrun)]
    rfl
  · funext p
    unfold Shell.handleFile Shell.keep
    dsimp only
    rw [if_pos rfl,hg]
    split_ifs <;> rfl

private theorem chunksFrom_of_lt {stop cur : Nat} (h : cur < stop) : ∃ n, 0 < n ∧ cur + n ≤ stop ∧
    chunksFrom stop cur = (cur,n) :: chunksFrom stop (cur + n) := by
  have hchunk : 0 < chunk := Nat.two_pow_pos 20
  refine ⟨min chunk (stop - cur),by omega,by omega,?_⟩
  rw [chunksFrom,if_pos h]

private theorem chunksFrom_of_le {stop cur : Nat} (h : stop ≤ cur) : chunksFrom stop cur = [] := by
  rw [chunksFrom,if_neg (by omega)]

private theorem mem_chunksFrom {stop cur : Nat} (hc : c ∈ chunksFrom stop cur) : cur ≤ c.1 ∧ c.1 + c.2 ≤ stop := by
  induction hn : stop - cur using Nat.strongRecOn generalizing cur with
  | ind n ih =>
    by_cases hlt : cur < stop
    · obtain ⟨m,hm,hle,hl⟩ := chunksFrom_of_lt hlt
      rw [hl] at hc
      rcases List.mem_cons.mp hc with rfl | hc
      · exact ⟨le_rfl,hle⟩
      · obtain ⟨hlo,hhi⟩ := ih (stop - (cur + m)) (by omega) hc rfl
        exact ⟨by omega,hhi⟩
    · rw [chunksFrom_of_le (by omega)] at hc
      cases hc

/-- Together the chunks are as long as the range. -/
private theorem length_chunks {stop cur : Nat} (h : ∀ c ∈ chunksFrom stop cur, Serves r x c) :
    ((chunksFrom stop cur).flatMap (guest r x)).length = stop - cur := by
  induction hn : stop - cur using Nat.strongRecOn generalizing cur with
  | ind n ih =>
    by_cases hlt : cur < stop
    · obtain ⟨m,hm,hle,hl⟩ := chunksFrom_of_lt hlt
      rw [hl] at h ⊢
      obtain ⟨hc,hrest⟩ := List.forall_mem_cons.mp h
      rw [List.flatMap_cons,List.length_append,hc.length,ih (stop - (cur + m)) (by omega) hrest rfl]
      omega
    · rw [chunksFrom_of_le (by omega),List.flatMap_nil,List.length_nil]
      omega

/-- Over an overlay that shows a device, a read that goes well fills what was to be filled. -/
private theorem serves_of_ok {d : Device} {o : Overlay} {t : ReaderState} {base : Device} (h : o.Shows d) {v m : Nat}
    {b : Bytes} (hread : ((readAt r v m).run Overlay.handleReader (o,t.start base)).1 = .ok b) :
    Serves r (o,t.start base) (v,m) := by
  have hguest : guest r (o,t.start base) (v,m) = b := by
    unfold guest
    rw [hread]
    rfl
  refine ⟨hread.trans (congrArg _ hguest.symm),hguest ▸ ?_⟩
  have hworld := (h.reads (w := t.start d) (v := t.start base) (reads_readAt (r := r) v m) rfl rfl).1
  rw [hread] at hworld
  exact readAt_length (Prod.ext hworld.symm rfl)

end copies

section verb
variable [Crc32c] {base : Device} {r : VhdxReader} {t : ReaderState} {o : Overlay} {offset length : Option Nat} {u n : Nat}

private theorem shows_of_openImage (hsmall : base.size < 2^64) (h : openImage base = (.ok (r,t),o)) :
    ∃ d, o.Shows d := by
  have halike : AlikeOver (openInner false true) (Overlay.new base) (base.withMode true true) :=
    alike_openInner (Overlay.shows_new hsmall)
  have hafter := halike.2
  unfold openImage at h
  rw [show (Overlay.new base).isWritable = true from rfl] at h
  rw [h] at hafter
  exact ⟨_,hafter⟩

/-- Of any image file and any range that is accepted, while reads and calls on files go well: what `read` prints is what
`read -o` leaves in the file, which is as long as was asked for, and no other file is changed. -/
theorem readVerb_copy_as_plain (hsmall : base.size < 2^64) (hopen : openImage base = (.ok (r,t),o))
    (hrange : range r.virtualSize offset length = .ok (u,n))
    (hreads : ∀ v m, u ≤ v → v + m ≤ u + n → ∃ b, ((readAt r v m).run Overlay.handleReader (o,t.start base)).1 = .ok b)
    (display : Error → String) (image dest : String) (s : Shell) : ∃ bytes : Bytes, bytes.length = n ∧
      readVerb display base image offset length none s = (.ok (),{ s with stdout := s.stdout ++ bytes }) ∧
      (readVerb display base image offset length (some dest) s).1 = .ok () ∧
      (readVerb display base image offset length (some dest) s).2.stdout = s.stdout ∧
      (readVerb display base image offset length (some dest) s).2.files =
        fun p => if p = dest then some bytes else if p = dest ++ ".partial" then none else s.files p := by
  obtain ⟨d,hd⟩ := shows_of_openImage hsmall hopen
  have hserves : ∀ c ∈ chunksFrom (u + n) u, Serves r (o,t.start base) c := by
    intro c hc
    obtain ⟨hlo,hhi⟩ := mem_chunksFrom hc
    obtain ⟨b,hb⟩ := hreads c.1 c.2 hlo hhi
    exact serves_of_ok hd hb
  have hlen := length_chunks hserves
  rw [Nat.add_sub_cancel_left] at hlen
  have hlift : (Prog.lift (range r.virtualSize offset length) : CopyProg (Nat × Nat)).run (Shell.handle r)
    ((o,t.start base),s) =
    (.ok (u,n),(o,t.start base),s) := Prog.run_lift_of_ok hrange
  obtain ⟨s',hrun,hout,hfiles⟩ := toFile_run display image dest s hserves
  rw [hlen] at hrun
  have hplain : (readOpened display image r offset length none).run (Shell.handle r) ((o,t.start base),s) =
      (.ok (),(o,t.start base),{ s with stdout :=
        s.stdout ++ (chunksFrom (u + n) u).flatMap (guest r (o,t.start base)) }) := by
    unfold readOpened
    rw [Prog.run_bind_of_ok hlift]
    exact toStdout_run hserves
  have hcopy : (readOpened display image r offset length (some dest)).run (Shell.handle r) ((o,t.start base),s) =
      (.ok (),(o,t.start base),s') := by
    unfold readOpened
    rw [Prog.run_bind_of_ok hlift]
    exact hrun
  refine ⟨_,hlen,?_,?_,?_,?_⟩
  · unfold readVerb
    rw [hopen]
    dsimp only
    rw [hplain]
  · unfold readVerb
    rw [hopen]
    dsimp only
    rw [hcopy]
  · unfold readVerb
    rw [hopen]
    dsimp only
    rw [hcopy]
    exact hout
  · unfold readVerb
    rw [hopen]
    dsimp only
    rw [hcopy]
    exact hfiles

end verb

/-- A whole disk of two blocks, the first absent and the second there. -/
theorem readVerb_copy_as_plain_twoBlocks :
    letI := castagnoli
    let d := (twoBlocks 0 1048582).device
    let s : Shell := ⟨[],fun _ => none,"",0⟩
    ∃ bytes : Bytes, bytes.length = 2097152 ∧
      (readVerb (fun _ => "") d "disk.vhdx" none none none s).2.stdout = bytes ∧
      (readVerb (fun _ => "") d "disk.vhdx" none none (some "disk.raw") s).2.files "disk.raw" = some bytes := by
  let := castagnoli
  intro d s
  have hsmall : d.size < 2^64 := by
    rw [show d.size = 3145728 from Build.size_device]
    decide
  have hwritable : d.writable = true := rfl
  have hmode : d.withMode true true = d := Device.withMode_self hwritable rfl
  have hopen := twoBlocks_opens 0 1048582 (by decide) (by decide)
  obtain ⟨-,⟨e,-,he⟩ | ⟨r,t,st,hr,ht,hsame,-,hreads⟩⟩ := in_memory_as_in_place hsmall .rwOnDevice
  · rw [hmode,hopen] at he
    cases he
  rcases ho : openImage d with ⟨y,o⟩
  rw [ho] at hr hreads
  dsimp only at hr hreads
  subst hr
  rw [hmode,hopen] at ht hreads
  obtain ⟨rfl,rfl⟩ := Prod.mk.inj (Outcome.ok.inj ht)
  have hsize : r.virtualSize = 2097152 := congrArg VhdxReader.virtualSize hsame.symm
  have hrange : range r.virtualSize none none = .ok (0,2097152) := by
    rw [hsize]
    decide
  have hserved : ((twoBlocksState 0 1048582).start d).Served (twoBlocks 0 1048582).reader :=
    (twoBlocks_writable 0 1048582 (by decide) (by decide)).ready.served fun off hoff => by
      have hbat : ((twoBlocksState 0 1048582).start d).bat = [⟨.notPresent,0⟩,⟨.fullyPresent,1048576⟩] :=
        (by decide : [BatEntry.fromU64 0,BatEntry.fromU64 1048582] = _)
      rw [hbat] at hoff
      obtain rfl : off = 1048576 := by simpa using hoff
      exact (by decide : 1048576 + 1048576 ≤ 3145728)
  have hidx : ∀ v < 2097152, batIdxOf (twoBlocks 0 1048582).reader v = 0 ∨ batIdxOf (twoBlocks 0 1048582).reader v = 1 := by
    intro v hv
    have hdiv : v / 1048576 = 0 ∨ v / 1048576 = 1 := by omega
    change dataBatIndex (v / 1048576) 4096 = 0 ∨ dataBatIndex (v / 1048576) 4096 = 1
    rcases hdiv with h | h
    · exact .inl (by rw [h]; decide)
    · exact .inr (by rw [h]; decide)
  have hreadable : ∀ v < 2097152, ((twoBlocksState 0 1048582).start d).Readable
      (batIdxOf (twoBlocks 0 1048582).reader v) := by
    intro v hv
    rcases hidx v hv with h | h
    · rw [h]
      exact .inl ⟨_,rfl,by decide⟩
    · rw [h]
      exact .inr ⟨1048576,(by decide : some (BatEntry.fromU64 1048582) = some ⟨.fullyPresent,1048576⟩)⟩
  have hvirtual : (twoBlocks 0 1048582).reader.virtualSize = 2097152 := rfl
  have hall : ∀ v m, 0 ≤ v → v + m ≤ 0 + 2097152 →
      ∃ b, ((readAt r v m).run Overlay.handleReader (o,(twoBlocksState 0 1048582).start d)).1 = .ok b := by
    intro v m _ hm
    rw [(hreads v m).1,readAt_run hserved (.inr ⟨by rw [hvirtual]; omega,by omega⟩) fun u _ hu =>
      hreadable u (by omega)]
    exact ⟨_,rfl⟩
  obtain ⟨bytes,hlen,hplain,-,-,hfiles⟩ :=
    readVerb_copy_as_plain hsmall ho hrange hall (fun _ => "") "disk.vhdx" "disk.raw" s
  refine ⟨bytes,hlen,?_,?_⟩
  · rw [hplain]
    rfl
  · rw [hfiles]
    rfl

end ImgVhdx
