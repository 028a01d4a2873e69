import NumericSteps.Proofs.Descent.Call
import NumericSteps.Proofs.Double.Arithmetic
import NumericSteps.Proofs.Workspace.Staging

namespace NumericSteps.Descent

open Script Workspace

variable {mayFail : Disk → Change → Prop} {w : Workspace} {d e : Disk} {course : Course}
  {threshold rate old grad value new : Float} {out : Outcome Descent}

theorem decide_eq_moved (h : threshold < grad.abs) :
    decide old grad threshold rate = .moved old (old - rate * grad) := if_pos h

theorem decide_eq_converged (h : ¬ threshold < grad.abs) :
    decide old grad threshold rate = .converged old := if_neg h

/-- An outcome is returned, and its file made, only where the gradient is on the side that it stands
for. -/
structure Sided (w : Workspace) (threshold grad : Float) (course : Course) (out : Outcome Descent) :
    Prop where
  converged : ∀ value, out.result = .ok (.converged value) → grad.abs ≤ threshold
  moved : ∀ old new, out.result = .ok (.moved old new) → threshold < grad.abs
  opened : ∀ path, course.Opens path → path = w.path .solution ∧ grad.abs ≤ threshold ∨
    path = w.path .approxNew ∧ threshold < grad.abs

theorem sided_of_steep (hsteep : threshold < grad.abs)
    (h : Goes mayFail w threshold rate d course out e) (hgrad : w.Stores d .grad grad) :
    Sided w threshold grad course out := by
  cases h with
  | noOld => exact ⟨nofun, nofun, nofun⟩
  | noGrad => exact ⟨nofun, nofun, nofun⟩
  | @recorded old grad' _ res _ hold hread hrecord =>
    obtain rfl : grad' = grad := (run_readScalar_ok hread).unique hgrad
    rw [decide_eq_moved hsteep] at hrecord ⊢
    refine ⟨fun value hok => ?_, fun _ _ _ => hsteep, fun path ho => Or.inr ⟨?_, hsteep⟩⟩
    · cases (outcome_ok hok).2
    · have hpath := eq_path_of_opens hrecord ho
      exact hpath

/-- A gradient that is not above the threshold is at most as large exactly if it is a number. -/
theorem sided_iff_of_not_steep (hnum : threshold.isNaN = false) (hsteep : ¬ threshold < grad.abs)
    (h : Goes mayFail w threshold rate d course out e) (hgrad : w.Stores d .grad grad) :
    Sided w threshold grad course out ↔ (grad.isNaN = true → ∀ path, ¬ course.Opens path) := by
  have hsmall : grad.abs ≤ threshold ↔ grad.isNaN = false := by
    rw [Double.le_iff_of_not_lt hnum hsteep, Double.isNaN_abs]
  constructor
  · intro hsided hnan path ho
    rcases hsided.opened path ho with ⟨-, hle⟩ | ⟨-, hlt⟩
    · rw [hsmall.1 hle] at hnan
      cases hnan
    · exact hsteep hlt
  · intro hnone
    cases h with
    | noOld => exact ⟨nofun, nofun, nofun⟩
    | noGrad => exact ⟨nofun, nofun, nofun⟩
    | @recorded old grad' _ res _ hold hread hrecord =>
      obtain rfl : grad' = grad := (run_readScalar_ok hread).unique hgrad
      rw [decide_eq_converged hsteep] at hrecord ⊢
      have hopened : ∀ path, course.Opens path → grad'.abs ≤ threshold := by
        intro path ho
        exact hsmall.2 (Bool.eq_false_iff.2 fun hnan => hnone hnan path ho)
      refine ⟨fun value hok => ?_, fun old new hok => ?_, fun path ho => Or.inl ⟨?_, hopened path ho⟩⟩
      · obtain ⟨rfl, -⟩ := outcome_ok hok
        exact hopened _ (opens_of_record hrecord)
      · cases (outcome_ok hok).2
      · have hpath := eq_path_of_opens hrecord ho
        exact hpath

/-- A call on a gradient keeps to the two sides of the threshold, unless the gradient is NaN and the call
still makes an outcome file, which then is that of a solution. -/
theorem sided_iff (hnum : threshold.isNaN = false) (hgrad : w.Stores d .grad grad)
    (h : Ends mayFail (run w threshold rate) d course out e) :
    Sided w threshold grad course out ↔ (grad.isNaN = true → ∀ path, ¬ course.Opens path) := by
  by_cases hsteep : threshold < grad.abs
  · refine iff_of_true (sided_of_steep hsteep (goes_of_ends h) hgrad) fun hnan => ?_
    have habs := Double.isNaN_eq_false_of_lt hsteep
    rw [Double.isNaN_abs, hnan] at habs
    cases habs
  · exact sided_iff_of_not_steep hnum hsteep (goes_of_ends h) hgrad

/-- A disk on which the approximation is one and the gradient is negative infinity. -/
def cliffDisk : Disk :=
  topDisk [("approx_old", .file [49, 10]), ("grad", .file [45, 105, 110, 102, 10])]

theorem sided_cliff :
    (0.5 : Float).isNaN = false ∧ top.Stores cliffDisk .grad (-1.0 / 0.0) ∧
      ∃ course out e, Ends (fun _ _ => False) (run top 0.5 0.25) cliffDisk course out e ∧
        out.result = .ok (.moved 1 (1.0 / 0.0)) ∧
        Sided top 0.5 (-1.0 / 0.0) course out := by
  have hgrad : top.Stores cliffDisk .grad (-1.0 / 0.0) :=
    ⟨[45, 105, 110, 102, 10], by decide, by decide +kernel⟩
  obtain ⟨course, h⟩ : ∃ course, Ends (fun _ _ => False) (run top 0.5 0.25) cliffDisk course _ _ :=
    Script.ends_run _ _
  have hnum : (0.5 : Float).isNaN = false := by decide +kernel
  refine ⟨hnum, hgrad, course, _, _, h, by decide +kernel, (sided_iff hnum hgrad h).2 fun hnan => ?_⟩
  exact absurd hnan (by decide +kernel)

/-- A disk on which the approximation is one and the gradient is NaN. -/
def lostDisk : Disk :=
  topDisk [("approx_old", .file [49, 10]), ("grad", .file [78, 97, 78, 10])]

/-- Where the gradient is NaN, the approximation becomes the solution. -/
theorem not_sided :
    ¬ ∀ (w : Workspace) (d : Disk) (old grad threshold rate : Float), w.names.validate = .ok () →
      w.Stores d .approxOld old → w.Stores d .grad grad →
      0 < threshold → threshold.isFinite = true → 0 < rate → rate.isFinite = true →
      ∀ value, ((run w threshold rate).run d).1.result = .ok (.converged value) →
        grad.abs ≤ threshold := by
  intro h
  have hle := h top lostDisk 1 (0.0 / 0.0) 0.5 0.25 rfl ⟨[49, 10], by decide, by decide +kernel⟩
    ⟨[78, 97, 78, 10], by decide, by decide +kernel⟩ (by decide +kernel) (by decide +kernel)
    (by decide +kernel) (by decide +kernel) 1 (by decide +kernel)
  exact absurd hle (by decide +kernel)

end NumericSteps.Descent
