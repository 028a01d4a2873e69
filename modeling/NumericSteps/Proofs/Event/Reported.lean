import NumericSteps.Proofs.Descent.Call
import NumericSteps.Proofs.Event.ReadBack
import NumericSteps.Proofs.Workspace.Ownership

namespace NumericSteps

open Script Workspace

variable {mayFail : Disk → Change → Prop} {w : Workspace} {d e : Disk} {course : Course} {ev : Event}

namespace Compare

variable {tolerance : Float} {out : Outcome Float}

/-- A distance is reported whether or not it is below the tolerance, and nothing is without one. -/
theorem mem_verdict {a b : Matrix Float} (h : ev ∈ verdict (compare a b tolerance) tolerance) :
    ∃ norm, a.distance b = .ok norm ∧ ev = compared norm tolerance (norm < tolerance) := by
  by_cases hshape : a.shape = b.shape
  · have hdistance := Matrix.distance_of_shape hshape
    rw [verdict_of_distance hdistance] at h
    exact ⟨_, hdistance, List.mem_singleton.1 h⟩
  · rw [verdict_mismatch hshape] at h
    cases h

/-- What is reported is the distance of the two matrices that were read. -/
theorem of_mem_events (h : Ends mayFail (run w tolerance) d course out e) (hev : ev ∈ out.events) :
    ∃ computed expected norm, ((w.readMatrix .matrixIn).run d).1 = .ok computed ∧
      ((w.readMatrix .matrixOut).run d).1 = .ok expected ∧
      computed.distance expected = .ok norm ∧
      ev = compared norm tolerance (norm < tolerance) := by
  rcases Ends.of_bind_read h (only_readMatrix w .matrixIn) fun _ => rfl with
    ⟨⟨g, rfl⟩, -, -⟩ | ⟨computed, hcomputed, h⟩
  · cases hev
  rcases Ends.of_bind_read h (only_readMatrix w .matrixOut) fun _ => rfl with
    ⟨⟨g, rfl⟩, -, -⟩ | ⟨expected, hexpected, h⟩
  · cases hev
  obtain ⟨rfl, rfl, rfl⟩ := h.of_done
  obtain ⟨norm, hnorm, he⟩ := mem_verdict hev
  exact ⟨computed, expected, norm, hcomputed, hexpected, hnorm, he⟩

end Compare

namespace Descent

variable {threshold rate : Float} {out : Outcome Descent}

/-- What is reported is what is decided on the two numbers that were read. -/
theorem of_mem_events (h : Ends mayFail (run w threshold rate) d course out e) (hev : ev ∈ out.events) :
    ∃ old grad, w.Stores d .approxOld old ∧ w.Stores d .grad grad ∧
      ev = event old grad (decide old grad threshold rate) := by
  cases goes_of_ends h with
  | noOld => cases hev
  | noGrad => cases hev
  | @recorded old grad _ res _ hold hgrad _ =>
    refine ⟨old, grad, run_readScalar_ok hold, run_readScalar_ok hgrad, ?_⟩
    cases res with
    | error g => cases hev
    | ok u => exact List.mem_singleton.1 hev

end Descent

/-- What a run reports reads back exactly if its doubles do. A distance that is not finite cannot be read
at all, and a next approximation that is not finite is read as none. -/
theorem reported_reads_back_iff :
    (∀ (tolerance : Float) (course : Course) (out : Outcome Float) (e : Disk),
      Ends mayFail (Compare.run w tolerance) d course out e → ∀ ev ∈ out.events,
        ∃ computed expected norm, ((w.readMatrix .matrixIn).run d).1 = .ok computed ∧
          ((w.readMatrix .matrixOut).run d).1 = .ok expected ∧
          computed.distance expected = .ok norm ∧
          ev = Compare.compared norm tolerance (norm < tolerance) ∧
          (Event.read ev.json = some ev ↔ Json.Exact norm ∧ Json.Exact tolerance) ∧
          (norm.isFinite = false → Event.read ev.json = none)) ∧
    ∀ (threshold rate : Float) (course : Course) (out : Outcome Descent) (e : Disk),
      Ends mayFail (Descent.run w threshold rate) d course out e → ∀ ev ∈ out.events,
        ∃ old grad, w.Stores d .approxOld old ∧ w.Stores d .grad grad ∧
          ev = Descent.event old grad (Descent.decide old grad threshold rate) ∧
          (Event.read ev.json = some ev ↔ Json.Exact old ∧ Json.Exact grad ∧
            (threshold < grad.abs → Json.Exact (old - rate * grad))) ∧
          (Json.Exact old → Json.Exact grad → threshold < grad.abs →
            (old - rate * grad).isFinite = false →
            Event.read ev.json = some ⟨.update, .descent old grad none false⟩) := by
  constructor
  · intro tolerance course out e h ev hev
    obtain ⟨computed, expected, norm, hx, hy, hnorm, rfl⟩ := Compare.of_mem_events h hev
    have hrange : (Compare.compared norm tolerance (norm < tolerance)).what.InRange := by
      simp [Occurrence.InRange, Compare.compared, Occurrence.sizes]
    refine ⟨computed, expected, norm, hx, hy, hnorm, rfl, ?_, fun hinf => ?_⟩
    · rw [Event.read_json_iff hrange]
      simp [Occurrence.Exact, Compare.compared, Occurrence.floats]
    · rw [Event.read_json hrange]
      simp [Compare.compared, Occurrence.reread, Json.reread_of_not_finite hinf]
  · intro threshold rate course out e h ev hev
    obtain ⟨old, grad, hold, hgrad, rfl⟩ := Descent.of_mem_events h hev
    have hrange : (Descent.event old grad (Descent.decide old grad threshold rate)).what.InRange := by
      simp [Occurrence.InRange, Descent.event, Occurrence.sizes]
    refine ⟨old, grad, hold, hgrad, rfl, ?_, fun heold hegrad hmoved hinf => ?_⟩
    · rw [Event.read_json_iff hrange]
      by_cases hmoved : threshold < grad.abs <;>
        simp [Occurrence.Exact, Descent.event, Occurrence.floats, Descent.decide, Descent.new?, hmoved]
    · rw [Event.read_json hrange]
      rw [Json.Exact] at heold hegrad
      simp [Descent.event, Descent.decide, hmoved, Descent.new?, Descent.isConverged,
        Occurrence.reread, Occurrence.rereadNext, heold, hegrad, hinf]

/-- A disk on which the matrices are three and one, and the approximation and the gradient are one. -/
def plainDisk : Disk :=
  topDisk [("matrix_in", .file [51, 10]), ("matrix_out", .file [49, 10]),
    ("approx_old", .file [49, 10]), ("grad", .file [49, 10])]

theorem reported_reads_back_plain :
    ∃ (course course' : Course) (out : Outcome Float) (out' : Outcome Descent) (e e' : Disk),
      Ends (fun _ _ => False) (Compare.run top 0.5) plainDisk course out e ∧
      Ends (fun _ _ => False) (Descent.run top 0.5 0.25) plainDisk course' out' e' ∧
      Compare.compared 2 0.5 false ∈ out.events ∧
      Descent.event 1 1 (.moved 1 0.75) ∈ out'.events ∧
      Event.read (Compare.compared 2 0.5 false).json = some (Compare.compared 2 0.5 false) ∧
      Event.read (Descent.event 1 1 (.moved 1 0.75)).json =
        some (Descent.event 1 1 (.moved 1 0.75)) := by
  have hcompared : Compare.compared 2 0.5 false ∈
      ((Compare.run top 0.5).run plainDisk).1.events := by decide +kernel
  have hmoved : Descent.event 1 1 (.moved 1 0.75) ∈
      ((Descent.run top 0.5 0.25).run plainDisk).1.events := by decide +kernel
  obtain ⟨course, h⟩ : ∃ course, Ends (fun _ _ => False) (Compare.run top 0.5) plainDisk course _ _ :=
    Script.ends_run _ _
  obtain ⟨course', h'⟩ : ∃ course, Ends (fun _ _ => False) (Descent.run top 0.5 0.25) plainDisk
      course _ _ := Script.ends_run _ _
  refine ⟨course, course', _, _, _, _, h, h', hcompared, hmoved, ?_, ?_⟩
  · obtain ⟨-, -, norm, -, -, -, he, hread, -⟩ := reported_reads_back_iff.1 _ _ _ _ h _ hcompared
    obtain ⟨rfl, -⟩ : 2 = norm ∧ _ := by simpa [Compare.compared] using he
    exact hread.2 (by decide +kernel)
  · obtain ⟨old, grad, -, -, he, hread, -⟩ := reported_reads_back_iff.2 _ _ _ _ _ h' _ hmoved
    obtain ⟨rfl, rfl, -⟩ : 1 = old ∧ 1 = grad ∧ _ := by simpa [Descent.event] using he
    exact hread.2 (by decide +kernel)

/-- A disk on which the approximation is one and the gradient is `1e300`. -/
def steepDisk : Disk :=
  topDisk [("approx_old", .file [49, 10]), ("grad", .file [49, 101, 51, 48, 48, 10])]

/-- A step along a steep gradient goes to negative infinity, which is read as no step. -/
theorem not_reported_reads_back :
    ¬ ∀ (w : Workspace) (d : Disk) (threshold rate : Float) (ev : Event),
      0 < threshold → threshold.isFinite = true → 0 < rate → rate.isFinite = true →
      ev ∈ ((Descent.run w threshold rate).run d).1.events → Event.read ev.json = some ev := by
  intro h
  have hmoved : Descent.event 1.0 1e300 (.moved 1.0 (-1.0 / 0.0)) ∈
      ((Descent.run top 0.5 1e10).run steepDisk).1.events := by decide +kernel
  have hread := h top steepDisk 0.5 1e10 _ (by decide +kernel) (by decide +kernel)
    (by decide +kernel) (by decide +kernel) hmoved
  have hlost : Event.read (Descent.event 1.0 1e300 (.moved 1.0 (-1.0 / 0.0))).json ≠
      some (Descent.event 1.0 1e300 (.moved 1.0 (-1.0 / 0.0))) := by decide +kernel
  exact hlost hread

end NumericSteps
