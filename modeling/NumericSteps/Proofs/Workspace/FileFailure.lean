import NumericSteps.Proofs.Matrix.Grammar
import NumericSteps.Proofs.Workspace.Files

namespace NumericSteps

/-- Something that the operating system refused for a file, or bytes in it that are no text. -/
structure Trouble where
  path : Path
  fault : OsFault
  /-- The file was open by then. -/
  opened : Bool

/-- The trouble with a change that fails. A file that cannot be removed stops nothing. -/
def Change.trouble : Change → OsFault → Option Trouble
  | .create path, f => some ⟨path, f, false⟩
  | .openAppend path, f => some ⟨path, f, false⟩
  | .write path _, f => some ⟨path, f, true⟩
  | .rename _ target, f => some ⟨target, f, false⟩
  | _, _ => none

def Disk.ReadFault.trouble (path : Path) : Disk.ReadFault → Trouble
  | .unopened f => ⟨path, f, false⟩
  | .unreadable f => ⟨path, f, true⟩

/-- The result of the changes in a course is the first trouble that they met, in these words. -/
def Course.Answers {ε : Type} (words : Trouble → ε) (course : Course) (res : Except ε Unit) : Prop :=
  ∀ g, res = .error g ↔ ∃ t, course.Tells Change.trouble t ∧ words t = g

namespace Course

variable {ε : Type} {words : Trouble → ε} {front back course : Course} {c : Change} {f : OsFault}
  {u : Unit} {res : Except ε Unit} {t : Trouble} {g : ε}

theorem answers_nil : Answers words [] (.ok u) :=
  fun _ => iff_of_false (fun h => nomatch h) fun ⟨_, ht, _⟩ => not_tells_nil ht

theorem answers_failed (h : c.trouble f = some t) (hg : words t = g) :
    Answers words [(c, .error f)] (.error g) := by
  intro g'
  simp [tells_failed, h, hg]

theorem Answers.cons_ok (h : Answers words course res) : Answers words ((c, .ok u) :: course) res := by
  intro g
  simpa only [tells_cons_ok] using h g

/-- What works does not say anything. -/
theorem Answers.not_tells (h : Answers words course (.ok u)) : ¬ course.Tells Change.trouble t := by
  intro ht
  cases (h (words t)).2 ⟨t, ht, rfl⟩

theorem Answers.append_ok (h : Answers words front (.ok u)) (k : Answers words back res) :
    Answers words (front ++ back) res := by
  intro g
  have hfront (t : Trouble) : ¬ front.Tells Change.trouble t := h.not_tells
  simpa only [tells_append, hfront, false_or] using k g

/-- What is done after a failure changes nothing if no trouble with it is told. -/
theorem Answers.append_error (h : Answers words front (.error g))
    (k : ∀ t, ¬ back.Tells Change.trouble t) : Answers words (front ++ back) (.error g) := by
  intro g'
  simpa only [tells_append, k, or_false] using h g'

theorem Answers.eq_error (h : Answers words course res) (ht : course.Tells Change.trouble t) :
    res = .error (words t) :=
  (h _).2 ⟨t, ht, rfl⟩

end Course

namespace Workspace

open Script Text

variable {mayFail : Disk → Change → Prop} {w : Workspace} {d e : Disk} {course : Course}
  {path : Path} {res : Except Failure Unit} {s : Slot} {t : Trouble}

/-- The words for a trouble where all that is known of an open file is the fault. -/
def bareWords (t : Trouble) : Failure := if t.opened then .stream t.fault else fileFailure t.path t.fault

def namedWords (t : Trouble) : Failure := fileFailure t.path t.fault

section Writing

theorem answers_writeLines {lines : List Bytes} {r : Except OsFault Unit} {words : Trouble → Failure}
    {said : OsFault → Failure} (hsaid : ∀ f, said f = words ⟨path, f, true⟩)
    (h : Ends mayFail (writeLines path lines) d course r e) :
    course.Answers words (r.mapError said) := by
  induction lines generalizing d course with
  | nil =>
    obtain ⟨rfl, rfl, -⟩ := h.of_done
    exact Course.answers_nil
  | cons line lines ih =>
    obtain ⟨r', d', rest, -, rfl, hrest⟩ := h.of_change
    cases r' with
    | error f =>
      obtain ⟨rfl, rfl, -⟩ := hrest.of_done
      exact Course.answers_failed rfl (hsaid f).symm
    | ok u => exact (ih hrest).cons_ok

theorem answers_writeFile {lines : List Bytes} (h : Ends mayFail (writeFile path lines) d course res e) :
    course.Answers bareWords res := by
  obtain ⟨r, d', rest, -, rfl, hrest⟩ := h.of_change
  cases r with
  | error f =>
    obtain ⟨rfl, rfl, -⟩ := hrest.of_done
    exact Course.answers_failed rfl rfl
  | ok u =>
    obtain ⟨r', d'', front, back, hlines, hback, rfl⟩ := Ends.of_bind hrest
    obtain ⟨rfl, rfl, -⟩ := Ends.of_done hback
    rw [List.append_nil]
    exact (answers_writeLines (fun _ => rfl) hlines).cons_ok

theorem answers_appendLines {ls : List String}
    (h : Ends mayFail (w.appendLines s ls) d course res e) : course.Answers namedWords res := by
  obtain ⟨r, d', rest, -, rfl, hrest⟩ := h.of_change
  cases r with
  | error f =>
    obtain ⟨rfl, rfl, -⟩ := hrest.of_done
    exact Course.answers_failed rfl rfl
  | ok u =>
    obtain ⟨r', d'', front, back, hlines, hback, rfl⟩ := Ends.of_bind hrest
    obtain ⟨rfl, rfl, -⟩ := Ends.of_done hback
    rw [List.append_nil]
    exact (answers_writeLines (fun _ => rfl) hlines).cons_ok

theorem answers_stage {staged : List Path} {entries : List (Slot × Matrix Float)}
    (h : Ends mayFail (w.stage staged entries) d course res e) : course.Answers bareWords res := by
  induction entries generalizing staged d course with
  | nil =>
    obtain ⟨rfl, rfl, -⟩ := h.of_done
    exact Course.answers_nil
  | cons x entries ih =>
    obtain ⟨r, d', front, back, hfile, hback, rfl⟩ := Ends.of_bind h
    have hanswers : front.Answers bareWords r := answers_writeFile hfile
    cases r with
    | error g =>
      obtain ⟨_, d'', undo, last, hundo, hlast, rfl⟩ := Ends.of_bind hback
      obtain ⟨rfl, rfl, -⟩ := Ends.of_done hlast
      rw [List.append_nil]
      -- What is undone after the failure are removals, of which no trouble is told.
      exact hanswers.append_error (hundo.not_tells (only_unstage fun _ _ _ => rfl))
    | ok u => exact hanswers.append_ok (ih hback)

theorem answers_takeOver {ss : List Slot} (h : Ends mayFail (w.takeOver ss) d course res e) :
    course.Answers bareWords res := by
  induction ss generalizing d course with
  | nil =>
    obtain ⟨rfl, rfl, -⟩ := h.of_done
    exact Course.answers_nil
  | cons s ss ih =>
    obtain ⟨r, d', rest, -, rfl, hrest⟩ := h.of_change
    cases r with
    | error f =>
      obtain ⟨rfl, rfl, -⟩ := hrest.of_done
      exact Course.answers_failed rfl rfl
    | ok u => exact (ih hrest).cons_ok

theorem answers_writeMatrices {entries : List (Slot × Matrix Float)}
    (h : Ends mayFail (w.writeMatrices entries) d course res e) : course.Answers bareWords res := by
  obtain ⟨r, d', front, back, hstage, hback, rfl⟩ := Ends.of_bind h
  have hanswers : front.Answers bareWords r := answers_stage hstage
  cases r with
  | error g =>
    obtain ⟨rfl, rfl, -⟩ := Ends.of_done hback
    rw [List.append_nil]
    exact hanswers
  | ok u => exact hanswers.append_ok (answers_takeOver hback)

end Writing

section Reading

theorem run_readMatrix_unread {r : Disk.ReadFault} (h : d.read (w.path s) = .error r) :
    (w.readMatrix s).run d = (.error (bareWords (r.trouble (w.path s))), d) := by
  rw [readMatrix, run, h]
  cases r <;> rfl

/-- What is wrong with a text that holds no number is no fault of the file. -/
theorem ofText_ne_stream (cs : List Char) (f : OsFault) :
    (Scalar.ofText cs).map (fun _ => ()) ≠ .error (.stream f) := by
  intro h
  cases hr : Scalar.ofText cs with
  | ok x =>
    rw [hr] at h
    cases h
  | error e =>
    rw [hr] at h
    cases h
    rcases Scalar.error_of_ofText hr with he | ⟨token, he⟩ <;> cases he

end Reading

/-- An operation on files of a workspace. -/
inductive FileCall
  | readMatrix (s : Slot)
  | writeMatrix (s : Slot) (m : Matrix Float)
  | writeMatrices (entries : List (Slot × Matrix Float))
  | readScalar (s : Slot)
  | writeScalar (s : Slot) (x : Float)
  | appendLines (s : Slot) (ls : List String)

namespace FileCall

def script (w : Workspace) : FileCall → Script (Except Failure Unit)
  | .readMatrix s => return (← w.readMatrix s).map fun _ => ()
  | .writeMatrix s m => w.writeMatrix s m
  | .writeMatrices entries => w.writeMatrices entries
  | .readScalar s => return (← w.readScalar s).map fun _ => ()
  | .writeScalar s x => w.writeScalar s x
  | .appendLines s ls => w.appendLines s ls

/-- The calls that still name a file which is open. -/
def namesOpen : FileCall → Bool
  | .readScalar _ => true
  | .appendLines _ _ => true
  | _ => false

def words (c : FileCall) : Trouble → Failure := if c.namesOpen then namedWords else bareWords

/-- The trouble that a call has met in its course: a change that was refused, a file that could not be
read, or bytes that are no text. Of a matrix the bytes are read line by line, up to the first offence. -/
inductive Meets (w : Workspace) (d : Disk) (course : Course) : FileCall → Trouble → Prop
  | refused {c : FileCall} {t : Trouble} : course.Tells Change.trouble t → Meets w d course c t
  | unreadMatrix {s : Slot} {r : Disk.ReadFault} : d.read (w.path s) = .error r →
      Meets w d course (.readMatrix s) (r.trouble (w.path s))
  | unreadScalar {s : Slot} {r : Disk.ReadFault} : d.read (w.path s) = .error r →
      Meets w d course (.readScalar s) (r.trouble (w.path s))
  | matrixNotText {s : Slot} {bytes line : Bytes} {before after : List Bytes} :
      d.read (w.path s) = .ok bytes →
      lines carriageReturn lineFeed bytes = before ++ line :: after → Matrix.Clean before →
      decode line = none → Meets w d course (.readMatrix s) ⟨w.path s, .notText, true⟩
  | scalarNotText {s : Slot} {bytes : Bytes} : d.read (w.path s) = .ok bytes → decode bytes = none →
      Meets w d course (.readScalar s) ⟨w.path s, .notText, true⟩

/-- The result is the trouble that was met, in the words of the call, and no fault is told without a path
but by one. -/
structure Reports (w : Workspace) (d : Disk) (course : Course) (c : FileCall)
    (res : Except Failure Unit) : Prop where
  met : ∀ t, Meets w d course c t → res = .error (c.words t)
  bare : ∀ f, res = .error (.stream f) → ∃ t, Meets w d course c t ∧ c.words t = .stream f

variable {c : FileCall}

theorem reports_of_answers (h : course.Answers c.words res)
    (hc : ∀ t, Meets w d course c t → course.Tells Change.trouble t) : Reports w d course c res where
  met t ht := h.eq_error (hc t ht)
  bare f hf := by
    obtain ⟨t, ht, hwords⟩ := (h _).1 hf
    exact ⟨t, .refused ht, hwords⟩

theorem reports_readMatrix (h : Ends mayFail (script w (.readMatrix s)) d course res e) :
    Reports w d course (.readMatrix s) res := by
  have h := Ends.of_bind_idle h (only_readMatrix w s)
  obtain ⟨rfl, rfl, rfl⟩ := h.of_done
  cases hr : e.read (w.path s) with
  | error r =>
    rw [run_readMatrix_unread hr]
    refine ⟨fun t ht => ?_, fun f hf => ⟨_, .unreadMatrix hr, Except.error.inj hf⟩⟩
    cases ht with
    | refused ht => exact absurd ht Course.not_tells_nil
    | unreadMatrix hr' =>
      obtain rfl := Except.error.inj (hr.symm.trans hr')
      rfl
    | matrixNotText hr' => cases hr.symm.trans hr'
  | ok bytes =>
    rw [run_readMatrix_bytes hr]
    refine ⟨fun t ht => ?_, fun f hf => ?_⟩
    · cases ht with
      | refused ht => exact absurd ht Course.not_tells_nil
      | unreadMatrix hr' => cases hr.symm.trans hr'
      | matrixNotText hr' hsplit hclean hline =>
        obtain rfl := Except.ok.inj (hr.symm.trans hr')
        rw [(Matrix.ofBytes_error_iff bytes _).2 ⟨_, _, _, hsplit, hclean, .notText hline⟩]
        rfl
    -- Of the offences of a line only bytes that are no text are told as a fault without a path.
    · have hbytes : Matrix.ofBytes bytes = .error (.stream f) := by
        cases hm : Matrix.ofBytes bytes with
        | ok m => rw [hm] at hf; cases hf
        | error g => rw [hm] at hf; cases hf; rfl
      obtain ⟨before, line, after, hsplit, hclean, hline⟩ := (Matrix.ofBytes_error_iff _ _).1 hbytes
      cases hline with
      | notText hline => exact ⟨_, .matrixNotText hr hsplit hclean hline, rfl⟩

theorem reports_readScalar (h : Ends mayFail (script w (.readScalar s)) d course res e) :
    Reports w d course (.readScalar s) res := by
  have h := Ends.of_bind_idle h (only_readScalar w s)
  obtain ⟨rfl, rfl, rfl⟩ := h.of_done
  rw [run_readScalar]
  cases hr : e.read (w.path s) with
  | error r =>
    rw [run_readText_unread hr]
    refine ⟨fun t ht => ?_, nofun⟩
    cases ht with
    | refused ht => exact absurd ht Course.not_tells_nil
    | unreadScalar hr' =>
      obtain rfl := Except.error.inj (hr.symm.trans hr')
      cases r <;> rfl
    | scalarNotText hr' => cases hr.symm.trans hr'
  | ok bytes =>
    cases hd : decode bytes with
    | none =>
      rw [run_readText_notText hr hd]
      refine ⟨fun t ht => ?_, nofun⟩
      cases ht with
      | refused ht => exact absurd ht Course.not_tells_nil
      | unreadScalar hr' => cases hr.symm.trans hr'
      | scalarNotText hr' hd' => rfl
    | some cs =>
      rw [run_readText_text hr hd]
      refine ⟨fun t ht => ?_, fun f hf => ?_⟩
      · cases ht with
        | refused ht => exact absurd ht Course.not_tells_nil
        | unreadScalar hr' => cases hr.symm.trans hr'
        | scalarNotText hr' hd' =>
          obtain rfl := Except.ok.inj (hr.symm.trans hr')
          cases hd.symm.trans hd'
      · exact absurd hf (ofText_ne_stream cs f)

theorem reports_of_ends (h : Ends mayFail (c.script w) d course res e) : Reports w d course c res := by
  cases c with
  | readMatrix s => exact reports_readMatrix h
  | readScalar s => exact reports_readScalar h
  | writeMatrix s m =>
    exact reports_of_answers (answers_writeFile h) fun t ht => by cases ht; assumption
  | writeMatrices entries =>
    exact reports_of_answers (answers_writeMatrices h) fun t ht => by cases ht; assumption
  | writeScalar s x =>
    exact reports_of_answers (answers_writeFile h) fun t ht => by cases ht; assumption
  | appendLines s ls =>
    exact reports_of_answers (answers_appendLines h) fun t ht => by cases ht; assumption

/-- Every trouble that was met is told with the path of its file, and no fault without one. -/
structure Named (w : Workspace) (d : Disk) (course : Course) (c : FileCall)
    (res : Except Failure Unit) : Prop where
  named : ∀ t, Meets w d course c t → res = .error (.file t.path.text t.fault)
  withPath : ∀ f, res ≠ .error (.stream f)

theorem words_of_names {t : Trouble} (h : t.opened = true → c.namesOpen = true) :
    c.words t = .file t.path.text t.fault := by
  unfold words
  split
  · rfl
  · rename_i hnot
    rw [bareWords, if_neg fun ho => hnot (h ho)]
    rfl

/-- A call fails with the trouble that it met, whatever is refused. It names the file unless that had
been opened, and then only where a scalar is read or lines are appended. -/
theorem failures_named_iff (h : Ends mayFail (c.script w) d course res e) :
    (∀ t, Meets w d course c t → res = .error (c.words t)) ∧
      (Named w d course c res ↔
        ∀ t, Meets w d course c t → t.opened = true → c.namesOpen = true) := by
  obtain ⟨hmet, hbare⟩ := reports_of_ends h
  refine ⟨hmet, fun hnamed t ht hopened => ?_, fun hnames => ⟨fun t ht => ?_, fun f hf => ?_⟩⟩
  · by_contra hnot
    have hwords : c.words t = .stream t.fault := by
      rw [words, if_neg hnot, bareWords, if_pos hopened]
    exact hnamed.withPath t.fault (hwords ▸ hmet t ht)
  · rw [hmet t ht, words_of_names (hnames t ht)]
  · obtain ⟨t, ht, hwords⟩ := hbare f hf
    rw [words_of_names (hnames t ht)] at hwords
    cases hwords

/-- A matrix without a file is named, and a staging file that is full is not. -/
theorem failures_named_iff_full :
    (∃ course, Ends (fun _ _ => False) (script top (.readMatrix .matrixIn)) leftDisk course
        (.error (.file (top.path .matrixIn).text .notFound)) leftDisk ∧
      Named top leftDisk course (.readMatrix .matrixIn)
        (.error (.file (top.path .matrixIn).text .notFound))) ∧
      Ends Change.Fallible (script top (.writeMatrices narrowPair)) leftDisk fullCourse
        (.error (.stream .noSpace)) (topDisk [("m1", .file [50, 10])]) ∧
      Meets top leftDisk fullCourse (.writeMatrices narrowPair)
        ⟨top.stagingPath .factorS, .noSpace, true⟩ ∧
      ¬ Named top leftDisk fullCourse (.writeMatrices narrowPair) (.error (.stream .noSpace)) := by
  have hread : (script top (.readMatrix .matrixIn)).run leftDisk =
      (.error (.file (top.path .matrixIn).text .notFound), leftDisk) := by decide
  obtain ⟨course, h⟩ : ∃ course, Ends (fun _ _ => False) (script top (.readMatrix .matrixIn)) leftDisk
      course _ _ := Script.ends_run _ _
  rw [hread] at h
  have hmeets : Meets top leftDisk fullCourse (.writeMatrices narrowPair)
      ⟨top.stagingPath .factorS, .noSpace, true⟩ :=
    .refused ⟨.write (top.stagingPath .factorS) [10], .noSpace, by simp [fullCourse], rfl⟩
  refine ⟨⟨course, h, (failures_named_iff h).2.2 fun t ht hopened => ?_⟩, ends_fullCourse, hmeets,
    fun hnamed => ?_⟩
  · have hresult := (failures_named_iff h).1 t ht
    have hbare : FileCall.words (.readMatrix .matrixIn) t = .stream t.fault := if_pos hopened
    rw [hbare] at hresult
    cases hresult
  · exact Bool.noConfusion ((failures_named_iff ends_fullCourse).2.1 hnamed _ hmeets rfl)

/-- A directory in the place of a matrix is opened, and then not named. -/
theorem not_failures_named :
    ¬ ∀ (w : Workspace) (d e : Disk) (course : Course) (c : FileCall) (res : Except Failure Unit),
      w.names.validate = .ok () → Ends (fun _ _ => False) (c.script w) d course res e →
      Named w d course c res := by
  intro h
  let d : Disk := topDisk [("matrix_in", .directory)]
  have hread : (script top (.readMatrix .matrixIn)).run d = (.error (.stream .isADirectory), d) := by
    decide
  obtain ⟨course, hends⟩ : ∃ course, Ends (fun _ _ => False) (script top (.readMatrix .matrixIn)) d
      course _ _ := Script.ends_run _ _
  rw [hread] at hends
  exact (h top d d course (.readMatrix .matrixIn) _ rfl hends).withPath _ rfl

end FileCall

end Workspace

end NumericSteps
