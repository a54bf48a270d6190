import ImgVhdx.Cli.Read
import ImgVhdx.Reader.Compose

/-! The command line's `write`: standard input into the guest, from a file as its reads come or from a pipe that is
read whole first. Either way the image is left as by one write of all of it, or as it was. -/
namespace ImgVhdx
open Lib ReaderProg

inductive WriteOp where
  | writeAt (off : Nat) (bs : Bytes)
  | flush
  /- one read of standard input, of up to `n` bytes -/
  | read (n : Nat)
  /- standard input to its end, but no more than `n` bytes of it -/
  | readToEnd (n : Nat)

@[reducible] def WriteOp.Reply : WriteOp → Type
  | .writeAt _ _ | .flush => Outcome Error Unit
  | .read _ | .readToEnd _ => Except IoError Bytes

abbrev WriteProg (α : Type) := Prog WriteOp WriteOp.Reply CliError α

/-- A regular file on standard input, as it is asked before it is read. -/
structure InputFile where
  isImage : Bool
  length : Except IoError Nat
  position : Except IoError Nat

inductive Input where
  | file (n : Nat)
  | buffered (data : Bytes)

structure WriteReport where
  offset : Nat
  bytes : Nat
  deriving DecidableEq

def WriteReport.text (r : WriteReport) : String := s!"wrote {r.bytes} bytes at {r.offset}"

def chunksOf (data : Bytes) : List Bytes := if data = [] then [] else data.take chunk :: chunksOf (data.drop chunk)
termination_by data.length
decreasing_by
  have hchunk : 0 < chunk := Nat.two_pow_pos 20
  have hlen := List.length_pos_iff.mpr ‹_›
  rw [List.length_drop]
  omega

section verb
variable (display : Error → String) (image : String)

def writeError : Error → CliError
  | .unsupported why => .notImplemented s!"write: {image}: {why}"
  | e => vhdxError display image e

def stdinError (e : IoError) : CliError := .failed s!"read stdin: {e.message}"

def stdinReply {α : Type} : Except IoError α → Outcome CliError α
  | .ok a => .ok a
  | .error e => .err (stdinError e)

def writeGuest (off : Nat) (bs : Bytes) : WriteProg Unit := .call (.writeAt off bs) fun
  | .ok () => .done (.ok ())
  | .err e => .done (.err (writeError display image e))
  | .panic => .done .panic

def writeStream (left cur : Nat) : WriteProg Nat :=
  if left = 0 then .done (.ok cur)
  else .call (.read (min chunk left)) fun
    | .error e => .throw (stdinError e)
    | .ok got =>
      if got = [] then .done (.ok cur)
      else do
        writeGuest display image cur got
        writeStream (left - got.length) (cur + got.length)
termination_by left
decreasing_by
  have hlen := List.length_pos_iff.mpr ‹_›
  omega

def checkedFile (size offset : Nat) (file : InputFile) : Outcome CliError Nat := do
  Outcome.rejectIf (file.isImage = true) (.failed s!"{image}: stdin is the image being written")
  let len ← stdinReply file.length
  let cur ← stdinReply file.position
  let n := len - cur
  Outcome.rejectIf (n > size - offset)
    (.failed s!"{n} bytes at {offset} run past the end of the {size}-byte virtual disk")
  return n

def checkedData (size offset : Nat) (data : Bytes) : Outcome CliError Input := do
  let room := size - offset
  Outcome.rejectIf (data.length > room)
    (.failed s!"stdin holds more than the {room} bytes from {offset} to the end of the {size}-byte virtual disk")
  return .buffered data

def checkedInput (size offset : Nat) : Option InputFile → WriteProg Input
  | some file => do
    let n ← Prog.lift (checkedFile image size offset file)
    return .file n
  | none => .call (.readToEnd (min (size - offset + 1) (2^64 - 1))) fun got => .done do
    let data ← stdinReply got
    checkedData size offset data

def writeInput (offset : Nat) : Input → WriteProg Nat
  | .buffered data => do
    Prog.forEach (fun p => writeGuest display image (offset + p.2 * chunk) p.1) (chunksOf data).zipIdx
    return data.length
  | .file n => do
    let stop ← writeStream display image n offset
    return stop - offset

def writeOpened (r : VhdxReader) (stdin : Option InputFile) (offset : Nat) : WriteProg WriteReport := do
  Prog.lift (Outcome.rejectIf (offset > r.virtualSize)
    (.failed s!"--offset {offset} is past the end of the {r.virtualSize}-byte virtual disk"))
  let input ← checkedInput image r.virtualSize offset stdin
  let written ← writeInput display image offset input
  .call .flush fun
    | .ok () => .done (.ok ⟨offset,written⟩)
    | .err e => .done (.err (vhdxError display image e))
    | .panic => .done .panic

end verb

/-- Standard input, and how much of it each read yields: something, as long as something was asked for and is left. -/
structure Stdin where
  left : Bytes
  sizes : List Nat

def Stdin.read (s : Stdin) (n : Nat) : Bytes × Stdin :=
  let got := min n (max 1 (s.sizes.headD n))
  (s.left.take got,⟨s.left.drop got,s.sizes.tail⟩)

def Stdin.handle [Crc32c] (r : VhdxReader) : (op : WriteOp) → World × Stdin → op.Reply × World × Stdin
  | .writeAt off bs, (w,s) =>
    let y := (ImgVhdx.writeAt r off bs).run World.handle w
    (y.1,y.2,s)
  | .flush, (w,s) =>
    let y := (ImgVhdx.flush r).run World.handle w
    (y.1,y.2,s)
  | .read n, (w,s) => (.ok (s.read n).1,w,(s.read n).2)
  | .readToEnd n, (w,s) => (.ok (s.left.take n),w,{ s with left := s.left.drop n })

def writeVerb [Crc32c] (display : Error → String) (image : String) (d : Device) (stdin : Option InputFile)
    (offset : Nat) (s : Stdin) :
    Outcome CliError WriteReport × Device :=
  match (openRwOnDevice d).on d with
  | (.ok (r,t),d') =>
    let y := (writeOpened display image r stdin offset).run (Stdin.handle r) (t.start d',s)
    (y.1,y.2.1.dev)
  | (.err e,d') => (.err (writeError display image e),d')
  | (.panic,d') => (.panic,d')

section stdin
variable {s : Stdin} {n : Nat}

private theorem Stdin.read_append (s : Stdin) (n : Nat) :
    (s.read n).1 ++ (s.read n).2.left = s.left := List.take_append_drop ..

private theorem Stdin.read_length_le : (s.read n).1.length ≤ n := (List.length_take_le ..).trans (Nat.min_le_left ..)

/-- A read yields nothing only at the end. -/
private theorem Stdin.read_eq_nil (hn : 0 < n) (h : (s.read n).1 = []) : s.left = [] := by
  unfold Stdin.read at h
  dsimp only at h
  rw [List.take_eq_nil_iff] at h
  exact h.resolve_left (by omega)

private theorem chunksOf_nil : chunksOf [] = [] := by rw [chunksOf,if_pos rfl]

private theorem chunksOf_of_ne_nil {data : Bytes} (h : data ≠ []) :
    chunksOf data = data.take chunk :: chunksOf (data.drop chunk) := by
  rw [chunksOf,if_neg h]

end stdin

section runs
variable [Crc32c] {display : Error → String} {image : String} {r : VhdxReader} {w w' : World} {s : Stdin}
  {x : World × Stdin} {offset : Nat}

private theorem writeGuest_eq_ok {off : Nat} {bs : Bytes} :
    (writeGuest display image off bs).run (Stdin.handle r) (w,s) = (.ok (),x) ↔
    (writeAt r off bs).run World.handle w = (.ok (),x.1) ∧ x.2 = s := by
  obtain ⟨v,t⟩ := x
  unfold writeGuest
  rw [Prog.run,show Stdin.handle r (.writeAt off bs) (w,s) =
    (((writeAt r off bs).run World.handle w).1,((writeAt r off bs).run World.handle w).2,s) from rfl]
  rcases (writeAt r off bs).run World.handle w with ⟨_ | e | _,w1⟩
  · simp only [Prog.run_done,Prod.mk.injEq,true_and]
    exact and_congr_right fun _ => eq_comm
  · simp
  · simp

/-- At the end of the input nothing more is written. -/
private theorem done_eq_ok {cur stop : Nat} (h : w.Writable r) :
    (∃ s', (.done (.ok cur) : WriteProg Nat).run (Stdin.handle r) (w,s) = (.ok stop,w',s')) ↔
      (writeAt r cur []).run World.handle w = (.ok (),w') ∧ stop = cur + ([] : Bytes).length := by
  rw [writeAt_nil h,List.length_nil,Nat.add_zero]
  simp only [Prog.run_done,Prod.mk.injEq,Outcome.ok.injEq,true_and]
  exact ⟨fun ⟨_,hs,hw,_⟩ => ⟨hw,hs.symm⟩,fun ⟨hw,hs⟩ => ⟨s,hs.symm,hw,rfl⟩⟩

/-- Whatever the sizes in which the file is read, it is written as in one write. -/
private theorem writeStream_eq_ok {left cur stop : Nat} (h : w.Writable r) :
    (∃ s', (writeStream display image left cur).run (Stdin.handle r) (w,s) = (.ok stop,w',s')) ↔
      (writeAt r cur (s.left.take left)).run World.handle w = (.ok (),w') ∧ stop = cur + (s.left.take left).length := by
  induction left using Nat.strongRecOn generalizing w s cur with
  | ind left ih =>
    rw [writeStream]
    split_ifs with hleft
    · rw [hleft,List.take_zero]
      exact done_eq_ok h
    have hmin : 0 < min chunk left := Nat.lt_min.mpr ⟨Nat.two_pow_pos 20,Nat.pos_of_ne_zero hleft⟩
    have hsplit := s.read_append (min chunk left)
    have hle := Stdin.read_length_le (s := s) (n := min chunk left)
    have hnil := Stdin.read_eq_nil (s := s) hmin
    rw [Prog.run,show Stdin.handle r (.read (min chunk left)) (w,s) =
      (.ok (s.read (min chunk left)).1,w,(s.read (min chunk left)).2) from rfl]
    generalize s.read (min chunk left) = got at *
    obtain ⟨got,s1⟩ := got
    dsimp only at *
    split_ifs with hgot
    · rw [hnil hgot,List.take_nil]
      exact done_eq_ok h
    · have hlen := List.length_pos_iff.mpr hgot
      have htake : s.left.take left = got ++ s1.left.take (left - got.length) := by
        rw [← hsplit,List.take_append,List.take_of_length_le (by omega)]
      rw [htake,writeAt_append h,List.length_append,← Nat.add_assoc]
      constructor
      · rintro ⟨s',hrun⟩
        obtain ⟨_,⟨w1,s2⟩,hguest,hrest⟩ := Prog.run_bind_eq_ok.mp hrun
        obtain ⟨hfirst,rfl⟩ := writeGuest_eq_ok.mp hguest
        obtain ⟨hsecond,hstop⟩ := (ih _ (by omega) (h.of_writeAt hfirst)).mp ⟨s',hrest⟩
        exact ⟨⟨w1,hfirst,hsecond⟩,hstop⟩
      · rintro ⟨⟨w1,hfirst,hsecond⟩,hstop⟩
        obtain ⟨s',hrest⟩ := (ih _ (by omega) (h.of_writeAt hfirst)).mpr ⟨hsecond,hstop⟩
        exact ⟨s',Prog.run_bind_eq_ok.mpr ⟨(),(w1,s1),writeGuest_eq_ok.mpr ⟨hfirst,rfl⟩,hrest⟩⟩

/-- And so is what was read whole, a chunk at a time. -/
private theorem writeChunked_eq_ok {data : Bytes} {i : Nat} (h : w.Writable r) (display : Error → String)
    (image : String) (offset : Nat) :
    (Prog.forEach (fun p => writeGuest display image (offset + p.2 * chunk) p.1) ((chunksOf data).zipIdx i)).run
    (Stdin.handle r) (w,s) = (.ok (),x) ↔
      (writeAt r (offset + i * chunk) data).run World.handle w = (.ok (),x.1) ∧ x.2 = s := by
  induction hn : data.length using Nat.strongRecOn generalizing data w i with
  | ind n ih =>
    subst hn
    by_cases hdata : data = []
    · obtain ⟨v,t⟩ := x
      rw [hdata,chunksOf_nil,List.zipIdx_nil,Prog.forEach,writeAt_nil h]
      simp only [Prog.run_done,Prod.mk.injEq,true_and]
      exact and_congr_right fun _ => eq_comm
    have hlen := List.length_pos_iff.mpr hdata
    have hchunk : 0 < chunk := Nat.two_pow_pos 20
    have hdrop : (data.drop chunk).length < data.length := by
      rw [List.length_drop]
      omega
    have hwhole : ∀ v : World, (writeAt r (offset + i * chunk) data).run World.handle w = (.ok (),v) ↔
        ∃ w1, (writeAt r (offset + i * chunk) (data.take chunk)).run World.handle w = (.ok (),w1) ∧
          (writeAt r (offset + i * chunk + (data.take chunk).length) (data.drop chunk)).run World.handle w1 =
            (.ok (),v) := fun v => by
      conv_lhs => rw [← List.take_append_drop chunk data]
      exact writeAt_append h ..
    have hnext : ∀ w1 v : World, w1.Writable r →
      ((writeAt r (offset + i * chunk + (data.take chunk).length) (data.drop chunk)).run World.handle w1 = (.ok (),v) ↔
        (writeAt r (offset + (i + 1) * chunk) (data.drop chunk)).run World.handle w1 = (.ok (),v)) := by
      intro w1 v hw1
      by_cases hlast : data.length ≤ chunk
      · rw [List.drop_of_length_le hlast,writeAt_nil hw1,writeAt_nil hw1]
      · rw [List.length_take,Nat.min_eq_left (by omega),Nat.succ_mul,Nat.add_assoc]
    rw [chunksOf_of_ne_nil hdata,List.zipIdx_cons,Prog.forEach_cons,Prog.run_bind_eq_ok,hwhole]
    constructor
    · rintro ⟨_,⟨w1,s1⟩,hguest,hrest⟩
      obtain ⟨hfirst,rfl⟩ := writeGuest_eq_ok.mp hguest
      obtain ⟨hsecond,hs⟩ := (ih _ hdrop (h.of_writeAt hfirst) rfl).mp hrest
      exact ⟨⟨w1,hfirst,(hnext w1 _ (h.of_writeAt hfirst)).mpr hsecond⟩,hs⟩
    · rintro ⟨⟨w1,hfirst,hsecond⟩,hs⟩
      exact ⟨(),(w1,s),writeGuest_eq_ok.mpr ⟨hfirst,rfl⟩,(ih _ hdrop (h.of_writeAt hfirst) rfl).mpr
        ⟨(hnext w1 _ (h.of_writeAt hfirst)).mp hsecond,hs⟩⟩

def WritesAs (display : Error → String) (image : String) (r : VhdxReader) (offset : Nat) (w : World) (s : Stdin)
    (input : Input) (data : Bytes) : Prop :=
  ∀ (w' : World) (n : Nat), (∃ s', (writeInput display image offset input).run (Stdin.handle r) (w,s) = (.ok n,w',s')) ↔
    (writeAt r offset data).run World.handle w = (.ok (),w') ∧ n = data.length

private theorem writeInput_file (h : w.Writable r) (n : Nat) :
    WritesAs display image r offset w s (.file n) (s.left.take n) := by
  intro w' k
  have hstream : ∀ stop, (∃ s', (writeStream display image n offset).run (Stdin.handle r) (w,s) = (.ok stop,w',s')) ↔
    _ := fun _ => writeStream_eq_ok h
  constructor
  · rintro ⟨s',hrun⟩
    obtain ⟨stop,⟨w1,t⟩,hstop,hdone⟩ := Prog.run_bind_eq_ok.mp hrun
    cases hdone
    obtain ⟨hwrite,rfl⟩ := (hstream stop).mp ⟨_,hstop⟩
    exact ⟨hwrite,Nat.add_sub_cancel_left ..⟩
  · rintro ⟨hwrite,rfl⟩
    obtain ⟨s',hrun⟩ := (hstream _).mpr ⟨hwrite,rfl⟩
    refine ⟨s',Prog.run_bind_eq_ok.mpr ⟨_,_,hrun,?_⟩⟩
    rw [Nat.add_sub_cancel_left]
    rfl

private theorem writeInput_buffered (h : w.Writable r) (data : Bytes) :
    WritesAs display image r offset w s (.buffered data) data := by
  intro w' k
  have hchunks : ∀ x, (Prog.forEach _ ((chunksOf data).zipIdx 0)).run (Stdin.handle r) (w,s) = (.ok (),x) ↔ _ := fun _ =>
    writeChunked_eq_ok h display image offset
  rw [Nat.zero_mul,Nat.add_zero] at hchunks
  constructor
  · rintro ⟨s',hrun⟩
    obtain ⟨_,⟨w1,t⟩,hwritten,hdone⟩ := Prog.run_bind_eq_ok.mp hrun
    cases hdone
    exact ⟨((hchunks _).mp hwritten).1,rfl⟩
  · rintro ⟨hwrite,rfl⟩
    exact ⟨s,Prog.run_bind_eq_ok.mpr ⟨(),(w',s),(hchunks _).mpr ⟨hwrite,rfl⟩,rfl⟩⟩

/-- The input that is not refused, and the bytes of it that are written. -/
inductive Accepted (size offset : Nat) (s : Stdin) : Option InputFile → Bytes → Prop
  | file {f : InputFile} {len cur : Nat} (other : f.isImage = false) (length : f.length = .ok len)
      (position : f.position = .ok cur)
      (fits : len - cur ≤ size - offset) : Accepted size offset s (some f) (s.left.take (len - cur))
  | buffered (fits : s.left.length ≤ size - offset) : Accepted size offset s none s.left

omit [Crc32c] in
private theorem checkedFile_cases (image : String) (size offset : Nat) (f : InputFile) :
    (∃ len cur, f.isImage = false ∧ f.length = .ok len ∧ f.position = .ok cur ∧ len - cur ≤ size - offset ∧
      checkedFile image size offset f = .ok (len - cur)) ∨
    (∀ data, ¬ Accepted size offset s (some f) data) ∧ ∃ e, checkedFile image size offset f = .err e := by
  unfold checkedFile
  by_cases himage : f.isImage = true
  · rw [Outcome.rejectIf_of _ himage]
    refine .inr ⟨fun data hdata => ?_,_,rfl⟩
    cases hdata with
    | file other =>
      rw [himage] at other
      cases other
  rw [Outcome.rejectIf_of_not _ himage]
  rcases hlen : f.length with e | len
  · refine .inr ⟨fun data hdata => ?_,_,rfl⟩
    cases hdata with
    | file _ length =>
      rw [hlen] at length
      cases length
  rcases hcur : f.position with e | cur
  · refine .inr ⟨fun data hdata => ?_,_,rfl⟩
    cases hdata with
    | file _ _ position =>
      rw [hcur] at position
      cases position
  simp only [stdinReply,Outcome.ok_bind]
  by_cases hfits : len - cur > size - offset
  · rw [Outcome.rejectIf_of _ hfits]
    refine .inr ⟨fun data hdata => ?_,_,rfl⟩
    cases hdata with
    | file _ length position fits =>
      cases hlen.symm.trans length
      cases hcur.symm.trans position
      omega
  · rw [Outcome.rejectIf_of_not _ hfits]
    exact .inl ⟨len,cur,by simpa using himage,rfl,rfl,by omega,rfl⟩

/-- All of the input is looked at before any of it is written. -/
private theorem checkedInput_run {size : Nat} (h : w.Writable r) (hstdin : s.left.length < 2^64)
    (display : Error → String) (image : String) (offset : Nat) (stdin : Option InputFile) :
    (∃ input data t, Accepted size offset s stdin data ∧
      (checkedInput image size offset stdin).run (Stdin.handle r) (w,s) = (.ok input,w,t) ∧
      WritesAs display image r offset w t input data) ∨
    (∀ data, ¬ Accepted size offset s stdin data) ∧ ∃ e t,
    (checkedInput image size offset stdin).run (Stdin.handle r) (w,s) = (.err e,w,t) := by
  rcases stdin with _ | f
  · have hread : (checkedInput image size offset none).run (Stdin.handle r) (w,s) =
        (checkedData size offset (s.left.take (min (size - offset + 1) (2^64 - 1))),w,_) := rfl
    rw [hread]
    unfold checkedData
    dsimp only
    by_cases hfits : s.left.length ≤ size - offset
    · rw [List.take_of_length_le (by omega),Outcome.rejectIf_of_not _ (by omega)]
      exact .inl ⟨_,_,_,.buffered hfits,rfl,writeInput_buffered h _⟩
    · rw [Outcome.rejectIf_of _ (by rw [List.length_take]; omega)]
      refine .inr ⟨fun data hdata => ?_,_,_,rfl⟩
      cases hdata with
      | buffered fits => exact hfits fits
  · rcases checkedFile_cases (s := s) image size offset f with ⟨len,cur,hother,hlen,hcur,hfits,hfile⟩ | ⟨hno,e,hfile⟩
    · refine .inl ⟨.file (len - cur),_,s,.file hother hlen hcur hfits,?_,writeInput_file h _⟩
      rw [checkedInput,hfile]
      rfl
    · refine .inr ⟨hno,e,s,?_⟩
      rw [checkedInput,hfile]
      rfl

/-- An input that is not refused is written as in one write; one that is refused is not written at all. -/
private theorem writeOpened_run (h : w.Writable r) (hstdin : s.left.length < 2^64) (display : Error → String)
    (image : String) (stdin : Option InputFile) (offset : Nat) :
    (∃ data, offset ≤ r.virtualSize ∧ Accepted r.virtualSize offset s stdin data ∧
      ∀ report w', (∃ s', (writeOpened display image r stdin offset).run (Stdin.handle r) (w,s) = (.ok report,w',s')) ↔
        report = ⟨offset,data.length⟩ ∧ (writeAt r offset data).run World.handle w = (.ok (),w')) ∨
    ((∀ data, offset ≤ r.virtualSize → ¬ Accepted r.virtualSize offset s stdin data) ∧
      ∃ e s', (writeOpened display image r stdin offset).run (Stdin.handle r) (w,s) = (.err e,w,s')) := by
  unfold writeOpened
  by_cases hoff : offset > r.virtualSize
  · rw [Outcome.rejectIf_of _ hoff]
    exact .inr ⟨fun data hle _ => absurd hoff (not_lt.mpr hle),_,s,rfl⟩
  rw [Outcome.rejectIf_of_not _ hoff]
  have hflush : ∀ {v : World} {t : Stdin}, v.Writable r → Stdin.handle r .flush (v,t) = (.ok (),v,t) := fun hv => by
    unfold Stdin.handle
    dsimp only
    rw [flush_run hv]
  rcases checkedInput_run h hstdin display image offset stdin with ⟨input,data,t,hdata,hrun,hwrites⟩ | ⟨hno,e,t,hrun⟩
  · refine .inl ⟨data,not_lt.mp hoff,hdata,fun report w' => ?_⟩
    simp only [Prog.lift,Prog.ok_bind,Prog.run_bind_of_ok hrun,Prog.run_bind_eq_ok]
    constructor
    · rintro ⟨s',n,⟨w1,t1⟩,hinput,hdone⟩
      obtain ⟨hwrite,rfl⟩ := (hwrites w1 n).mp ⟨t1,hinput⟩
      rw [Prog.run,hflush (h.of_writeAt hwrite)] at hdone
      cases hdone
      exact ⟨rfl,hwrite⟩
    · rintro ⟨rfl,hwrite⟩
      obtain ⟨t1,hinput⟩ := (hwrites w' _).mpr ⟨hwrite,rfl⟩
      refine ⟨t1,_,_,hinput,?_⟩
      rw [Prog.run,hflush (h.of_writeAt hwrite)]
      rfl
  · refine .inr ⟨fun data _ => hno data,e,t,?_⟩
    simp only [Prog.lift,Prog.ok_bind,Prog.run_bind,hrun]

end runs

section verb
variable [Crc32c] {d d' : Device} {r : VhdxReader} {t : ReaderState} {s : Stdin}

/-- Of any image that opens for writing, any offset and any input, and however much of it each read yields: an input
that is not refused is written if one write of all of it is, and leaves what that one leaves; one that is refused
leaves the image as it was opened. -/
theorem writeVerb_as_one_write (hsmall : d.size < 2^64) (hopen : (openRwOnDevice d).on d = (.ok (r,t),d'))
    (hstdin : s.left.length < 2^64) (display : Error → String) (image : String) (stdin : Option InputFile)
    (offset : Nat) :
    (∃ data, offset ≤ r.virtualSize ∧ Accepted r.virtualSize offset s stdin data ∧
      ∀ report after, writeVerb display image d stdin offset s = (.ok report,after) ↔
        report = ⟨offset,data.length⟩ ∧ ∃ w, (writeAt r offset data).run World.handle (t.start d') = (.ok (),w) ∧
        after = w.dev) ∨
    ((∀ data, offset ≤ r.virtualSize → ¬ Accepted r.virtualSize offset s stdin data) ∧
      ∃ e, writeVerb display image d stdin offset s = (.err e,d')) := by
  have hverb : writeVerb display image d stdin offset s =
      (((writeOpened display image r stdin offset).run (Stdin.handle r) (t.start d',s)).1,
        ((writeOpened display image r stdin offset).run (Stdin.handle r) (t.start d',s)).2.1.dev) := by
    unfold writeVerb
    rw [hopen]
  rw [hverb]
  rcases writeOpened_run (ready_of_opened hopen hsmall) hstdin display image stdin offset with
    ⟨data,hoff,hdata,hwrites⟩ | ⟨hno,e,s',hrun⟩
  · refine .inl ⟨data,hoff,hdata,fun report after => ?_⟩
    constructor
    · intro hrun
      obtain ⟨hok,rfl⟩ := Prod.mk.inj hrun
      obtain ⟨rfl,hwrite⟩ := (hwrites report _).mp ⟨_,Prod.ext hok rfl⟩
      exact ⟨rfl,_,hwrite,rfl⟩
    · rintro ⟨rfl,w,hwrite,rfl⟩
      obtain ⟨s',hrun⟩ := (hwrites _ w).mpr ⟨rfl,hwrite⟩
      rw [hrun]
  · refine .inr ⟨hno,e,?_⟩
    rw [hrun]
    rfl

end verb

/-- A file of three bytes that arrive one at a time, into a disk whose first block is there. -/
theorem writeVerb_as_one_write_oneStored :
    letI := castagnoli
    writeVerb (fun _ => "") "disk.vhdx" oneStored.device (some ⟨false,.ok 3,.ok 0⟩) 5 ⟨[1,2,3],[1,1,1]⟩ =
      (.ok ⟨5,3⟩,oneStored.device.put 4194309 [1,2,3]) := by
  let := castagnoli
  have hsmall : oneStored.device.size < 2^64 := by
    rw [Build.size_device]
    exact (by decide : 5242880 < 2^64)
  have hfile : Accepted oneStored.reader.virtualSize 5 ⟨[1,2,3],[1,1,1]⟩ (some ⟨false,.ok 3,.ok 0⟩) [1,2,3] :=
    .file rfl rfl rfl (by decide : 3 - 0 ≤ oneMib - 5)
  rcases writeVerb_as_one_write (s := ⟨[1,2,3],[1,1,1]⟩) hsmall oneStored_opens (by decide) (fun _ => "") "disk.vhdx"
    (some ⟨false,.ok 3,.ok 0⟩) 5 with ⟨data,-,hdata,hwrites⟩ | ⟨hno,-⟩
  · have hthree : data = [1,2,3] := by
      cases hdata with
      | file _ length position =>
        cases length
        cases position
        rfl
    subst hthree
    refine (hwrites _ _).mpr ⟨rfl,_,writeAt_present oneStored_writable (.inr (by decide)) (by decide)
      (by decide) oneStored_present ?_,rfl⟩
    exact (by decide : 4194304 + 5 % oneMib + 3 ≤ 5242880)
  · exact absurd hfile (hno _ (by decide : 5 ≤ oneMib))

end ImgVhdx
