import NumericSteps.Proofs.Descent.Call

namespace NumericSteps.Descent

open Script Text Workspace

variable {mayFail : Disk → Change → Prop} {w : Workspace} {d e : Disk} {course : Course}
  {threshold rate old grad : Float} {step : Descent} {out : Outcome Descent} {g : Failure}

/-- The log is as it was, or has broken off. So is the file of the outcome, but it holds its whole line
where it was the log that failed. -/
structure Halted (mayFail : Disk → Change → Prop) (w : Workspace) (step : Descent) (d : Disk)
    (g : Failure) (e : Disk) : Prop where
  others : ∀ s, s ≠ step.slot → s ≠ .approxLog → e.look (w.path s) = d.look (w.path s)
  log : e.look (w.path .approxLog) = d.look (w.path .approxLog) ∨
    ∃ b, d.Content (w.path .approxLog) b ∧
      BrokenOff mayFail (w.path .approxLog) b (encode step.logText) e
  outcome : e.look (w.path step.slot) = d.look (w.path step.slot) ∨
    (∃ f, g = fileFailure (w.path .approxLog) f) ∧
      e.look (w.path step.slot) = some (.file (encode (Scalar.line step.value))) ∨
    BrokenOff mayFail (w.path step.slot) [] (encode (Scalar.line step.value)) e

theorem Halted.refl (w : Workspace) (step : Descent) (d : Disk) (g : Failure) :
    Halted mayFail w step d g d :=
  ⟨fun _ _ _ => rfl, Or.inl rfl, Or.inl rfl⟩

theorem ends_record_error (hs : w.names.Sound)
    (h : Ends mayFail (record w step) d course (.error g) e) : Halted mayFail w step d g e := by
  have hwithin : (record w step).Only (Change.Within ([step.slot, .approxLog].map w.path)) :=
    only_record (by simp) (by simp)
  have hothers : ∀ s, s ≠ step.slot → s ≠ .approxLog → e.look (w.path s) = d.look (w.path s) := by
    intro s hslot hlog
    exact look_eq_of_only hs [step.slot, .approxLog] h hwithin (by simp [hslot, hlog])
  obtain ⟨written, d', front, back, hfile, hlast, -⟩ := Ends.of_bind h
  have hlogged : d'.look (w.path .approxLog) = d.look (w.path .approxLog) :=
    look_eq_of_only hs [step.slot] hfile (only_writeFile (by simp) _)
      (by simpa using step.slot_ne_approxLog.symm)
  have hline : [encode (Scalar.line step.value)].flatten = encode (Scalar.line step.value) := by simp
  cases written with
  | error f =>
    obtain ⟨-, -, rfl⟩ := hlast.of_done
    refine ⟨hothers, Or.inl hlogged, ?_⟩
    rcases ends_writeFile_error hfile with hsame | hbroken
    · exact Or.inl hsame
    · exact Or.inr (Or.inr (hline ▸ hbroken))
  | ok u =>
    obtain ⟨hfailed, hlog⟩ := ends_appendLines_error hlast
    have hkept : e.look (w.path step.slot) = d'.look (w.path step.slot) :=
      look_of_logged hs hlast step.slot_ne_approxLog
    refine ⟨hothers, ?_, ?_⟩
    · rcases hlog with hsame | ⟨b, hb, hbroken⟩
      · exact Or.inl (hsame.trans hlogged)
      · exact Or.inr ⟨b, hb.of_look_eq hlogged.symm, hbroken⟩
    · rw [hkept]
      rcases ends_writeFile_ok hfile with ⟨-, rfl⟩ | hnew
      · exact Or.inl rfl
      · exact Or.inr (Or.inl ⟨hfailed, hline ▸ hnew⟩)

/-- A call that fails on two numbers leaves the log and the file of the other outcome as they were, and
the file of its own outcome too, unless it was the log that failed. -/
theorem halted_of_failure (hw : w.names.validate = .ok ()) (hold : w.Stores d .approxOld old)
    (hgrad : w.Stores d .grad grad) (h : Ends mayFail (run w threshold rate) d course out e)
    (hfail : out.result = .error g) :
    Halted mayFail w (decide old grad threshold rate) d g e := by
  have hs : w.names.Sound := FileNames.sound_of_validate hw
  rcases ends_run h with ⟨-, -, rfl⟩ | ⟨old', grad', res, hold', hgrad', hrecord, hres⟩
  · exact Halted.refl w _ e g
  · obtain rfl : old' = old := hold'.unique hold
    obtain rfl : grad' = grad := hgrad'.unique hgrad
    have hres' : res = .error g := by
      rw [hfail] at hres
      cases res with
      | error f =>
        cases hres
        rfl
      | ok u => cases hres
    subst hres'
    exact ends_record_error hs hrecord

/-- A disk on which the approximation and the gradient are one and a directory has the name of the
log. -/
def blockedDisk : Disk :=
  topDisk [("approx_old", .file [49, 10]), ("grad", .file [49, 10]), ("approx_log", .directory)]

theorem stores_blockedDisk : top.Stores blockedDisk .approxOld 1 ∧ top.Stores blockedDisk .grad 1 :=
  ⟨⟨[49, 10], by decide, by decide +kernel⟩, ⟨[49, 10], by decide, by decide +kernel⟩⟩

/-- What the call comes to there. -/
def blockedEnd : Outcome Descent × Disk := (run top 0.5 0.25).run blockedDisk

theorem result_blockedEnd :
    blockedEnd.1.result = .error (fileFailure (top.path .approxLog) .isADirectory) := by
  decide +kernel

theorem halted_of_failure_blocked :
    top.names.validate = .ok () ∧ top.Stores blockedDisk .approxOld 1 ∧
      top.Stores blockedDisk .grad 1 ∧
      ∃ course, Ends (fun _ _ => False) (run top 0.5 0.25) blockedDisk course blockedEnd.1 blockedEnd.2 ∧
        blockedEnd.1.result = .error (fileFailure (top.path .approxLog) .isADirectory) ∧
        Halted (fun _ _ => False) top (decide 1 1 0.5 0.25) blockedDisk
          (fileFailure (top.path .approxLog) .isADirectory) blockedEnd.2 := by
  obtain ⟨hold, hgrad⟩ := stores_blockedDisk
  obtain ⟨course, h⟩ := Script.ends_run (run top 0.5 0.25) blockedDisk
  exact ⟨rfl, hold, hgrad, course, h, result_blockedEnd,
    halted_of_failure rfl hold hgrad h result_blockedEnd⟩

/-- The new approximation is in its file after a call that could not write the log. -/
theorem not_kept_on_failure :
    ¬ ∀ (w : Workspace) (d : Disk) (old grad threshold rate : Float) (g : Failure),
      w.names.validate = .ok () → w.Stores d .approxOld old → w.Stores d .grad grad →
      ((run w threshold rate).run d).1.result = .error g →
      ∀ s ∈ [Slot.approxNew, .solution, .approxLog],
        ((run w threshold rate).run d).2.look (w.path s) = d.look (w.path s) := by
  intro h
  obtain ⟨hold, hgrad⟩ := stores_blockedDisk
  have hkept := h top blockedDisk 1 1 0.5 0.25 _ rfl hold hgrad result_blockedEnd .approxNew (by simp)
  have hwritten : blockedEnd.2.look (top.path .approxNew) ≠ blockedDisk.look (top.path .approxNew) := by
    decide +kernel
  exact hwritten hkept

end NumericSteps.Descent
