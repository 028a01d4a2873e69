import NumericSteps.Proofs.Workspace.Files
import NumericSteps.Step.Descent

namespace NumericSteps

/-- The file at the path was made anew in the course. -/
def Course.Opens (course : Course) (path : Path) : Prop := (Change.create path, .ok ()) ∈ course

theorem Script.Leads.opens {α : Type} {mayFail : Disk → Change → Prop} {s t : Script α}
    {d e : Disk} {course : Course} {path target : Path} (h : Leads mayFail s d course t e)
    (hs : s.Only fun c => c.Adds ∨ c = .create target) (ho : course.Opens path) : path = target := by
  rcases h.of_only hs ho with hadds | he
  · exact hadds.elim
  · cases he
    rfl

namespace Descent

open Script Text Workspace

variable {mayFail : Disk → Change → Prop} {w : Workspace} {d e : Disk} {course : Course}
  {threshold rate old grad : Float} {step : Descent} {path : Path} {paths : List Path}
  {res : Except Failure Unit} {out : Outcome Descent} {u : Unit} {b : Bytes}

/-- The text that the log of approximations gains. -/
def logText (step : Descent) : List Char := linesText step.logLines

theorem slot_ne_approxLog (step : Descent) : step.slot ≠ .approxLog := by
  cases step <;> simp [slot]

section Recording

theorem uses_record {P : Path → Prop} (hslot : P (w.path step.slot)) (hlog : P (w.path .approxLog)) :
    (record w step).Uses P := by
  refine (uses_writeFile hslot _).bind fun r => ?_
  cases r with
  | error g => trivial
  | ok u => exact uses_appendLines hlog _

theorem only_record (hslot : w.path step.slot ∈ paths) (hlog : w.path .approxLog ∈ paths) :
    (record w step).Only (Change.Within paths) :=
  Uses.only (uses_record hslot hlog)

theorem only_record_adds (w : Workspace) (step : Descent) :
    (record w step).Only fun c => c.Adds ∨ c = .create (w.path step.slot) := by
  have hwrites (p : Path) (bytes : Bytes) :
      (Change.write p bytes).Adds ∨ Change.write p bytes = .create (w.path step.slot) :=
    Or.inl trivial
  have hfile : (w.writeScalar step.slot step.value).Only
      fun c => c.Adds ∨ c = .create (w.path step.slot) := by
    refine ⟨Or.inr rfl, fun r => ?_⟩
    cases r with
    | error f => trivial
    | ok u => exact (only_writeLines (hwrites _) _).bind fun _ => trivial
  refine hfile.bind fun r => ?_
  cases r with
  | error g => trivial
  | ok u => exact only_appendLines (Or.inl trivial) (hwrites _)

theorem look_of_logged {ls : List String} {s : Slot} (hs : w.names.Sound)
    (h : Ends mayFail (w.appendLines .approxLog ls) d course res e) (hne : s ≠ .approxLog) :
    e.look (w.path s) = d.look (w.path s) :=
  look_eq_of_only hs [.approxLog] h
    (only_appendLines (by simp [Change.Within]) (by simp [Change.Within])) (by simpa using hne)

/-- The outcome of a call stands on the disk, in its file, if not yet in the log. -/
structure Marked (w : Workspace) (step : Descent) (d : Disk) (course : Course) (e : Disk) : Prop where
  opens : ∀ path, course.Opens path ↔ path = w.path step.slot
  file : (∃ full, d.look (w.path step.slot) = some (.device full)) ∨
    ∃ b, e.look (w.path step.slot) = some (.file b)
  same : d.SameBut [w.path step.slot, w.path .approxLog] e

theorem eq_path_of_opens (h : Ends mayFail (record w step) d course res e) (ho : course.Opens path) :
    path = w.path step.slot :=
  h.opens (only_record_adds w step) ho

theorem opens_of_record (h : Ends mayFail (record w step) d course (.ok u) e) :
    course.Opens (w.path step.slot) := by
  obtain ⟨written, d', front, back, hfile, hlog, rfl⟩ := Ends.of_bind h
  rcases ends_writeFile_cases hfile with ⟨f, -, rfl, -⟩ | ⟨hopen, -⟩
  · cases (Ends.of_done hlog).1
  · exact List.mem_append_left _ hopen

theorem ends_record (hs : w.names.Sound) (h : Ends mayFail (record w step) d course res e) :
    ((∃ g, res = .error g) ∧ e = d ∧ ∀ path, ¬ course.Opens path) ∨
      Marked w step d course e := by
  obtain ⟨written, d', front, back, hfile, hlog, rfl⟩ := Ends.of_bind h
  rcases ends_writeFile_cases hfile with ⟨f, rfl, rfl, rfl⟩ | ⟨hopen, hthere⟩
  · left
    obtain ⟨rfl, rfl, rfl⟩ := hlog.of_done
    refine ⟨⟨_, rfl⟩, rfl, fun path ho => ?_⟩
    simp [Course.Opens] at ho
  · right
    have hwithin : (record w step).Only
        (Change.Within [w.path step.slot, w.path .approxLog]) := only_record (by simp) (by simp)
    refine ⟨fun path => ⟨eq_path_of_opens h, ?_⟩, ?_, h.sameBut hwithin⟩
    · rintro rfl
      exact List.mem_append_left _ hopen
    · rcases hthere with hdev | ⟨b, hb⟩
      · exact Or.inl hdev
      · right
        cases written with
        | error g =>
          obtain ⟨-, -, rfl⟩ := hlog.of_done
          exact ⟨b, hb⟩
        | ok u =>
          exact ⟨b, (look_of_logged hs hlog step.slot_ne_approxLog).trans hb⟩

/-- After a call that works, a file that stands for the outcome holds its number, and the log has
gained its lines. -/
theorem ends_record_ok (hs : w.names.Sound) (h : Ends mayFail (record w step) d course (.ok u) e) :
    (∀ b, e.look (w.path step.slot) = some (.file b) → b = encode (Scalar.line step.value)) ∧
    ∀ b, d.Content (w.path .approxLog) b →
      e.look (w.path .approxLog) = some (.file (b ++ encode step.logText)) := by
  obtain ⟨u', d', front, back, hfile, hlog⟩ := Ends.of_bind_ok h fun _ => ⟨_, rfl⟩
  constructor
  · intro b hb
    have hkept : e.look (w.path step.slot) = d'.look (w.path step.slot) :=
      look_of_logged hs hlog step.slot_ne_approxLog
    rw [hkept] at hb
    rcases ends_writeFile_ok hfile with ⟨⟨full, hdev⟩, rfl⟩ | hnew
    · rw [path_eq] at hb
      simp [path_eq, hb] at hdev
    · rw [path_eq] at hb
      simpa [path_eq, hb] using hnew
  · intro b hb
    have hkept : d'.look (w.path .approxLog) = d.look (w.path .approxLog) :=
      look_eq_of_only hs [step.slot] hfile (only_writeFile (by simp) _)
        (by simpa using step.slot_ne_approxLog.symm)
    exact ends_appendLines_ok hlog (hb.of_look_eq hkept)

end Recording

section Running

theorem only_run {P : Change → Prop} (h : ∀ step, (record w step).Only P) :
    (run w threshold rate).Only P := by
  have hread (s : Slot) : (w.readScalar s).Only P :=
    (only_readScalar w s).mono fun _ hc => hc.elim
  refine (hread .approxOld).bind fun first => ?_
  cases first with
  | error f => trivial
  | ok old =>
    refine (hread .grad).bind fun second => ?_
    cases second with
    | error f => trivial
    | ok grad =>
      refine (h _).bind fun res => ?_
      cases res with
      | error f => trivial
      | ok u => trivial

/-- What a call on two numbers comes to, by how the recording of its step has gone. -/
def outcome (old grad : Float) (step : Descent) : Except Failure Unit → Outcome Descent
  | .error g => .failed g []
  | .ok () => .passed step [event old grad step]

theorem outcome_ok {step' : Descent} (h : (outcome old grad step res).result = .ok step') :
    res = .ok () ∧ step' = step := by
  cases res with
  | error g => cases h
  | ok u => exact ⟨rfl, (Except.ok.inj h).symm⟩

/-- How a call goes: it stops at the first input that gives no number, or it records what is decided on
both. -/
inductive Goes (mayFail : Disk → Change → Prop) (w : Workspace) (threshold rate : Float) (d : Disk) :
    Course → Outcome Descent → Disk → Prop
  | noOld {g : Failure} : ((w.readScalar .approxOld).run d).1 = .error g →
      Goes mayFail w threshold rate d [] (.failed g []) d
  | noGrad {old : Float} {g : Failure} : ((w.readScalar .approxOld).run d).1 = .ok old →
      ((w.readScalar .grad).run d).1 = .error g → Goes mayFail w threshold rate d [] (.failed g []) d
  | recorded {old grad : Float} {course : Course} {res : Except Failure Unit} {e : Disk} :
      ((w.readScalar .approxOld).run d).1 = .ok old → ((w.readScalar .grad).run d).1 = .ok grad →
      Ends mayFail (record w (decide old grad threshold rate)) d course res e →
      Goes mayFail w threshold rate d course (outcome old grad (decide old grad threshold rate) res) e

theorem goes_of_ends (h : Ends mayFail (run w threshold rate) d course out e) :
    Goes mayFail w threshold rate d course out e := by
  have h := Ends.of_bind_idle h (only_readScalar w .approxOld)
  cases hold : ((w.readScalar .approxOld).run d).1 with
  | error g =>
    rw [hold] at h
    obtain ⟨rfl, rfl, rfl⟩ := h.of_done
    exact .noOld hold
  | ok old =>
    rw [hold] at h
    have h := Ends.of_bind_idle h (only_readScalar w .grad)
    cases hgrad : ((w.readScalar .grad).run d).1 with
    | error g =>
      rw [hgrad] at h
      obtain ⟨rfl, rfl, rfl⟩ := h.of_done
      exact .noGrad hold hgrad
    | ok grad =>
      rw [hgrad] at h
      obtain ⟨res, f, front, back, hrecord, hlast, rfl⟩ := Ends.of_bind h
      cases res with
      | error g =>
        obtain ⟨rfl, rfl, rfl⟩ := hlast.of_done
        rw [List.append_nil]
        exact .recorded hold hgrad hrecord
      | ok u =>
        obtain ⟨rfl, rfl, rfl⟩ := hlast.of_done
        rw [List.append_nil]
        exact .recorded hold hgrad hrecord

/-- A call stops at an input that stores no number, or it records what is decided on both. -/
theorem ends_run (h : Ends mayFail (run w threshold rate) d course out e) :
    (∃ g, out.result = .error g) ∧ course = [] ∧ e = d ∨
      ∃ old grad res, w.Stores d .approxOld old ∧ w.Stores d .grad grad ∧
        Ends mayFail (record w (decide old grad threshold rate)) d course res e ∧
        out.result = res.map fun _ => decide old grad threshold rate := by
  cases goes_of_ends h with
  | noOld => exact Or.inl ⟨⟨_, rfl⟩, rfl, rfl⟩
  | noGrad => exact Or.inl ⟨⟨_, rfl⟩, rfl, rfl⟩
  | @recorded old grad _ res _ hold hgrad hrecord =>
    refine Or.inr ⟨old, grad, res, run_readScalar_ok hold, run_readScalar_ok hgrad, hrecord, ?_⟩
    cases res <;> rfl

theorem ends_run_ok (h : Ends mayFail (run w threshold rate) d course out e)
    (hok : out.result = .ok step) :
    ∃ old grad, w.Stores d .approxOld old ∧ w.Stores d .grad grad ∧
      step = decide old grad threshold rate ∧ Ends mayFail (record w step) d course (.ok ()) e := by
  rcases ends_run h with ⟨⟨g, hg⟩, -, -⟩ | ⟨old, grad, res, hold, hgrad, hrecord, hres⟩
  · rw [hok] at hg
    cases hg
  · rw [hok] at hres
    cases res with
    | error g => cases hres
    | ok u =>
      cases hres
      exact ⟨old, grad, hold, hgrad, rfl, hrecord⟩

/-- A call that touches any file has come to an outcome, and returns no other. -/
theorem ends_run_marked (hs : w.names.Sound) (h : Ends mayFail (run w threshold rate) d course out e) :
    (∃ g, out.result = .error g) ∧ e = d ∧ (∀ path, ¬ course.Opens path) ∨
      ∃ step, Marked w step d course e ∧ ∀ step', out.result = .ok step' → step' = step := by
  rcases ends_run h with ⟨hg, rfl, rfl⟩ | ⟨old, grad, res, -, -, hrecord, hres⟩
  · have hnot : ∀ path, ¬ Course.Opens [] path := by
      intro path ho
      cases ho
    exact Or.inl ⟨hg, rfl, hnot⟩
  · rcases ends_record hs hrecord with ⟨⟨g, rfl⟩, he, hnot⟩ | hmarked
    · exact Or.inl ⟨⟨g, hres⟩, he, hnot⟩
    · refine Or.inr ⟨_, hmarked, fun step' hok => ?_⟩
      rw [hok] at hres
      cases res with
      | error g => cases hres
      | ok u =>
        cases hres
        rfl

end Running

end Descent

end NumericSteps
