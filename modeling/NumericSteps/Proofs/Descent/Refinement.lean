import NumericSteps.Proofs.Descent.Call
import NumericSteps.Proofs.Workspace.Staging

namespace NumericSteps.Descent

open Script Text Workspace

variable {mayFail : Disk → Change → Prop} {w : Workspace} {d e : Disk} {course : Course}
  {threshold rate : Float} {step : Descent} {out : Outcome Descent} {u : Unit}

/-- From `d` to `e` the file of a slot has come to hold a number and the log has gained lines, but for
devices, where nothing stays; all else is alike. -/
structure Written (w : Workspace) (d : Disk) (s : Slot) (x : Float) (ls : List String) (e : Disk) :
    Prop where
  file : (∃ full, d.look (w.path s) = some (.device full)) ∨
    e.look (w.path s) = some (.file (encode (Scalar.chars x ++ ['\n'])))
  log : (∃ full, d.look (w.path .approxLog) = some (.device full)) ∨
    ∃ b, d.Content (w.path .approxLog) b ∧
      e.look (w.path .approxLog) = some (.file (b ++ encode (ls.flatMap fun l => l.toList ++ ['\n'])))
  others : d.SameBut [w.path s, w.path .approxLog] e

theorem written_of_record (hs : w.names.Sound)
    (h : Ends mayFail (record w step) d course (.ok u) e) :
    Written w d step.slot step.value step.logLines e := by
  have hothers : d.SameBut [w.path step.slot, w.path .approxLog] e :=
    h.sameBut (only_record (by simp) (by simp))
  obtain ⟨u', d', front, back, hfile, hlog⟩ := Ends.of_bind_ok h fun _ => ⟨_, rfl⟩
  -- The log has a file of its own, so neither of the two writes touches what the other leaves.
  refine ⟨?_, ?_, hothers⟩
  · have hkept : e.look (w.path step.slot) = d'.look (w.path step.slot) :=
      look_of_logged hs hlog step.slot_ne_approxLog
    rw [hkept]
    rcases ends_writeFile_ok hfile with ⟨hdev, -⟩ | hnew
    · exact Or.inl hdev
    · rw [List.flatten_singleton] at hnew
      exact Or.inr hnew
  · have hkept : d'.look (w.path .approxLog) = d.look (w.path .approxLog) :=
      look_eq_of_only hs [step.slot] hfile (only_writeFile (by simp) _)
        (by simpa using step.slot_ne_approxLog.symm)
    rcases ends_appendLines_cases hlog with hdev | ⟨b, hb, hadded⟩
    · exact Or.inl (hkept ▸ hdev)
    · exact Or.inr ⟨b, hb.of_look_eq hkept.symm, hadded⟩

/-- What a call that works leaves for each of the two decisions: a file, the log, and one event. -/
structure Refines (w : Workspace) (d : Disk) (old grad : Float) (step : Descent) (out : Outcome Descent)
    (e : Disk) : Prop where
  moved : ∀ x new, step = .moved x new → Written w d .approxNew new step.logLines e ∧
    out.events = [⟨.update, .descent old grad (some new) false⟩]
  converged : ∀ value, step = .converged value → Written w d .solution value step.logLines e ∧
    out.events = [⟨.update, .descent old grad none true⟩]

theorem refines_of_record (hs : w.names.Sound) (old grad : Float)
    (h : Ends mayFail (record w step) d course (.ok u) e) :
    Refines w d old grad step (outcome old grad step (.ok u)) e := by
  have hwritten := written_of_record hs h
  constructor
  · rintro x new rfl
    exact ⟨hwritten, rfl⟩
  · rintro value rfl
    exact ⟨hwritten, rfl⟩

/-- A call fails with the first input that it cannot read and leaves the disk as it was. A call that works
has read both, comes to what is decided on them, and leaves just that. -/
theorem run_refines_decide (hw : w.names.validate = .ok ())
    (h : Ends mayFail (run w threshold rate) d course out e) :
    (∀ g, ((w.readScalar .approxOld).run d).1 = .error g →
      out = .failed g [] ∧ course = [] ∧ e = d) ∧
    (∀ old g, ((w.readScalar .approxOld).run d).1 = .ok old →
      ((w.readScalar .grad).run d).1 = .error g → out = .failed g [] ∧ course = [] ∧ e = d) ∧
    ∀ step, out.result = .ok step → ∃ old grad, ((w.readScalar .approxOld).run d).1 = .ok old ∧
      ((w.readScalar .grad).run d).1 = .ok grad ∧ step = decide old grad threshold rate ∧
      Refines w d old grad step out e := by
  have hs : w.names.Sound := FileNames.sound_of_validate hw
  cases goes_of_ends h with
  | noOld hold =>
    refine ⟨fun g hg => ?_, fun old g hg _ => ?_, nofun⟩
    · rw [hold] at hg
      cases hg
      exact ⟨rfl, rfl, rfl⟩
    · rw [hold] at hg
      cases hg
  | noGrad hold hgrad =>
    refine ⟨fun g hg => ?_, fun old g _ hg => ?_, nofun⟩
    · rw [hold] at hg
      cases hg
    · rw [hgrad] at hg
      cases hg
      exact ⟨rfl, rfl, rfl⟩
  | @recorded old grad _ res _ hold hgrad hrecord =>
    refine ⟨fun g hg => ?_, fun old' g _ hg => ?_, fun step hok => ?_⟩
    · rw [hold] at hg
      cases hg
    · rw [hgrad] at hg
      cases hg
    · obtain ⟨rfl, rfl⟩ := outcome_ok hok
      exact ⟨old, grad, hold, hgrad, rfl, refines_of_record hs old grad hrecord⟩

/-- A disk on which the approximation and the gradient are one, and the log has a line. -/
def loggedDisk : Disk :=
  topDisk [("approx_old", .file [49, 10]), ("grad", .file [49, 10]), ("approx_log", .file [45, 10])]

theorem run_refines_decide_logged :
    top.names.validate = .ok () ∧ ∃ course out e,
      Ends (fun _ _ => False) (run top 0.5 0.25) loggedDisk course out e ∧
        out.result = .ok (.moved 1 0.75) ∧ Refines top loggedDisk 1 1 (.moved 1 0.75) out e := by
  obtain ⟨course, h⟩ : ∃ course, Ends (fun _ _ => False) (run top 0.5 0.25) loggedDisk course _ _ :=
    Script.ends_run _ _
  have hok : ((run top 0.5 0.25).run loggedDisk).1.result = .ok (.moved 1 0.75) := by decide +kernel
  have hfirst : ((top.readScalar .approxOld).run loggedDisk).1 = .ok 1 := by decide +kernel
  have hsecond : ((top.readScalar .grad).run loggedDisk).1 = .ok 1 := by decide +kernel
  obtain ⟨-, -, hworks⟩ := run_refines_decide rfl h
  obtain ⟨old, grad, hold, hgrad, -, hrefines⟩ := hworks _ hok
  obtain rfl : 1 = old := Except.ok.inj (hfirst.symm.trans hold)
  obtain rfl : 1 = grad := Except.ok.inj (hsecond.symm.trans hgrad)
  exact ⟨rfl, course, _, _, h, hok, hrefines⟩

end NumericSteps.Descent
