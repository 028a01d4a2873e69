import NumericSteps.Proofs.Descent.Call

namespace NumericSteps.Descent

open Script Text Workspace

/-- The steps on gradients in a row, each from where the one before has come to. -/
def trace (threshold rate : Float) : Float → List Float → List Descent
  | _, [] => []
  | x, y :: ys =>
    let step := decide x y threshold rate
    step :: trace threshold rate step.value ys

/-- What the caller does after a step: a new approximation is copied byte by byte. -/
def advance (w : Workspace) : Descent → Script (Except Failure Unit)
  | .converged _ => .done (.ok ())
  | .moved _ _ =>
    .read (w.path .approxNew) fun
      | .error f => .done (.error (fileFailure (w.path .approxNew) f.fault))
      | .ok bytes => writeFile (w.path .approxOld) [bytes]

/-- Calls on gradient files in a row, up to the first that fails. -/
def iterate (w : Workspace) (threshold rate : Float) :
    List Bytes → Script (Except Failure (List Descent))
  | [] => .done (.ok [])
  | g :: gs => do
    match ← writeFile (w.path .grad) [g] with
    | .error e => return .error e
    | .ok () =>
      match (← run w threshold rate).result with
      | .error e => return .error e
      | .ok step =>
        match ← advance w step with
        | .error e => return .error e
        | .ok () => return (← iterate w threshold rate gs).map (step :: ·)

variable {mayFail : Disk → Change → Prop} {w : Workspace} {d d₁ d₂ d₃ e : Disk}
  {course course₁ course₂ course₃ : Course} {threshold rate x y : Float} {step : Descent}
  {steps : List Descent} {out : Outcome Descent} {g b : Bytes} {gs : List Bytes} {ys : List Float}

theorem only_advance (w : Workspace) (step : Descent) :
    (advance w step).Only (Change.Within [w.path .approxOld]) := by
  cases step with
  | converged value => trivial
  | moved old new =>
    intro r
    cases r with
    | error f => trivial
    | ok bytes => exact only_writeFile List.mem_cons_self _

theorem eq_of_decide_eq_converged {v : Float} (h : decide x y threshold rate = .converged v) : v = x := by
  unfold decide at h
  split at h
  · cases h
  · cases h
    rfl

/-- What the caller hands on after a move is the new approximation, if it is a number at all. -/
theorem ends_advance_ok {z : Float} (h : Ends mayFail (advance w (.moved x y)) d course (.ok ()) e)
    (hnew : ∀ b, d.look (w.path .approxNew) = some (.file b) → b = encode (Scalar.line y))
    (hz : w.Stores e .approxOld z) : z = y := by
  obtain ⟨b, hb, hread⟩ := hz
  cases h with
  | read h =>
    cases hr : d.read (w.path .approxNew) with
    | error f =>
      rw [hr] at h
      obtain ⟨he, -⟩ := Ends.of_done h
      cases he
    | ok bytes =>
      rw [hr] at h
      rcases ends_writeFile_ok h with ⟨⟨full, hdev⟩, rfl⟩ | hwritten
      · simp [hdev] at hb
      · have hcopied : b = bytes := by simpa [hb] using hwritten
        subst hcopied
        rcases look_of_read hr with hfile | ⟨full, -, rfl⟩
        · rw [hnew b hfile, Scalar.ofBytes?_line] at hread
          exact (Option.some.inj hread).symm
        · rw [Scalar.ofBytes?_nil] at hread
          cases hread

section Round

variable (hs : w.names.Sound)
  (hstore : Ends mayFail (writeFile (w.path .grad) [g]) d course₁ (.ok ()) d₁)
  (hrun : Ends mayFail (run w threshold rate) d₁ course₂ out d₂) (hok : out.result = .ok step)
  (hadvance : Ends mayFail (advance w step) d₂ course₃ (.ok ()) d₃)

include hs hstore in
theorem look_of_stored {s : Slot} (hne : s ≠ .grad) : d₁.look (w.path s) = d.look (w.path s) :=
  look_eq_of_only hs [.grad] hstore (only_writeFile (by simp) _) (by simpa using hne)

include hs hstore hrun hok in
/-- A round decides on the approximation and the gradient that are stored for it. -/
theorem step_of_round (hx : ∀ z, w.Stores d .approxOld z → z = x) (hy : Scalar.ofBytes? g = some y) :
    step = decide x y threshold rate ∧ Ends mayFail (record w step) d₁ course₂ (.ok ()) d₂ := by
  obtain ⟨old, grad, hold, hgrad, hstep, hrecord⟩ := ends_run_ok hrun hok
  have holdx : old = x := hx old (hold.of_look_eq (look_of_stored hs hstore (by decide)).symm)
  have hgrady : grad = y := by
    obtain ⟨b, hb, hread⟩ := hgrad
    rcases ends_writeFile_ok hstore with ⟨⟨full, hdev⟩, rfl⟩ | hwritten
    · simp [hdev] at hb
    · have he : b = g := by simpa [hb] using hwritten
      subst he
      simpa [hread] using hy
  subst holdx hgrady
  exact ⟨hstep, hrecord⟩

include hs hstore hrun hok hadvance in
/-- After a round the approximation that is stored, if it is one, is the value of the step. -/
theorem approx_of_round (hx : ∀ z, w.Stores d .approxOld z → z = x)
    (hy : Scalar.ofBytes? g = some y) : ∀ z, w.Stores d₃ .approxOld z → z = step.value := by
  obtain ⟨hstep, hrecord⟩ := step_of_round hs hstore hrun hok hx hy
  intro z hz
  cases step with
  | moved old new => exact ends_advance_ok hadvance (ends_record_ok hs hrecord).1 hz
  | converged value =>
    -- nothing has been copied, and no call writes the file that it reads
    obtain ⟨-, -, rfl⟩ := hadvance.of_done
    have hkept : d₃.look (w.path .approxOld) = d₁.look (w.path .approxOld) :=
      look_eq_of_only hs [.solution, .approxLog] hrecord (only_record (by simp [slot]) (by simp))
        (by decide)
    have hsame : d₃.look (w.path .approxOld) = d.look (w.path .approxOld) :=
      hkept.trans (look_of_stored hs hstore (by decide))
    have hzx : z = x := hx z (hz.of_look_eq hsame.symm)
    rw [hzx]
    exact (eq_of_decide_eq_converged hstep.symm).symm

include hs hstore hrun hok hadvance in
theorem log_of_round (hx : ∀ z, w.Stores d .approxOld z → z = x) (hy : Scalar.ofBytes? g = some y)
    (hb : d.Content (w.path .approxLog) b) :
    d₃.Content (w.path .approxLog) (b ++ encode step.logText) := by
  obtain ⟨-, hrecord⟩ := step_of_round hs hstore hrun hok hx hy
  have hbefore : d₁.Content (w.path .approxLog) b :=
    hb.of_look_eq (look_of_stored hs hstore (by decide))
  have hlogged := (ends_record_ok hs hrecord).2 b hbefore
  have hkept : d₃.look (w.path .approxLog) = d₂.look (w.path .approxLog) :=
    look_eq_of_only hs [.approxOld] hadvance (only_advance w step) (by decide)
  exact Or.inl (hkept.trans hlogged)

end Round

theorem ends_iterate_cons (h : Ends mayFail (iterate w threshold rate (g :: gs)) d course (.ok steps) e) :
    ∃ d₁ d₂ d₃ course₁ course₂ course₃ course₄ out step rest,
      Ends mayFail (writeFile (w.path .grad) [g]) d course₁ (.ok ()) d₁ ∧
      Ends mayFail (run w threshold rate) d₁ course₂ out d₂ ∧ out.result = .ok step ∧
      Ends mayFail (advance w step) d₂ course₃ (.ok ()) d₃ ∧
      Ends mayFail (iterate w threshold rate gs) d₃ course₄ (.ok rest) e ∧ steps = step :: rest := by
  obtain ⟨u, d₁, course₁, back, hstore, h⟩ := Ends.of_bind_ok h fun _ => ⟨_, rfl⟩
  obtain ⟨out, d₂, course₂, back, hrun, h, -⟩ := Ends.of_bind h
  cases hout : out.result with
  | error f =>
    rw [hout] at h
    cases (Ends.of_done h).1
  | ok step =>
    rw [hout] at h
    obtain ⟨u', d₃, course₃, back, hadvance, h⟩ := Ends.of_bind_ok h fun _ => ⟨_, rfl⟩
    obtain ⟨rest, d₄, course₄, back, hrest, h⟩ := Ends.of_bind_ok h fun _ => ⟨_, rfl⟩
    obtain ⟨hsteps, -, rfl⟩ := Ends.of_done h
    cases hsteps
    exact ⟨d₁, d₂, d₃, course₁, course₂, course₃, course₄, out, step, rest, hstore, hrun, hout,
      hadvance, hrest, rfl⟩

theorem ends_iterate (hs : w.names.Sound) (hx : ∀ z, w.Stores d .approxOld z → z = x)
    (hb : d.Content (w.path .approxLog) b) (hg : gs.map Scalar.ofBytes? = ys.map some)
    (h : Ends mayFail (iterate w threshold rate gs) d course (.ok steps) e) :
    steps = trace threshold rate x ys ∧
      e.Content (w.path .approxLog) (b ++ encode (steps.flatMap logText)) := by
  -- carried along is only that no other number than `x` is stored: what a device takes is lost, and
  -- the next call then fails to read the copy
  induction gs generalizing d course x b ys steps with
  | nil =>
    obtain ⟨hsteps, -, rfl⟩ := Ends.of_done h
    cases hsteps
    cases ys with
    | nil => exact ⟨rfl, by simpa [encode] using hb⟩
    | cons y ys => cases hg
  | cons g gs ih =>
    cases ys with
    | nil => cases hg
    | cons y ys =>
      rw [List.map_cons, List.map_cons, List.cons.injEq] at hg
      obtain ⟨d₁, d₂, d₃, _, _, _, _, out, step, rest, hstore, hrun, hok, hadvance, hrest, rfl⟩ :=
        ends_iterate_cons h
      obtain ⟨hstep, -⟩ := step_of_round hs hstore hrun hok hx hg.1
      obtain ⟨htrace, hlog⟩ := ih (approx_of_round hs hstore hrun hok hadvance hx hg.1)
        (log_of_round hs hstore hrun hok hadvance hx hg.1 hb) hg.2 hrest
      constructor
      · rw [htrace, hstep]
        rfl
      · rw [List.append_assoc] at hlog
        simpa [encode] using hlog

/-- The step starts where a move before it has led, to the letter of the log. -/
def Continues (s s' : Descent) : Prop :=
  ∀ new, s.new? = some new → ∃ text : String,
    s.logLines.getLast? = some ("new: " ++ text) ∧ s'.logLines.head? = some ("old: " ++ text)

theorem continues_decide (s : Descent) (y threshold rate : Float) :
    s.Continues (decide s.value y threshold rate) := by
  intro new hnew
  cases s with
  | converged value => cases hnew
  | moved old n =>
    refine ⟨Scalar.text n, rfl, ?_⟩
    unfold decide
    split <;> rfl

theorem isChain_trace (threshold rate x : Float) (ys : List Float) :
    (trace threshold rate x ys).IsChain Continues := by
  induction ys generalizing x with
  | nil => exact List.IsChain.nil
  | cons y ys ih =>
    cases ys with
    | nil => exact List.IsChain.singleton _
    | cons z zs => exact List.IsChain.cons_cons (continues_decide _ z threshold rate) (ih _)

/-- Calls that all work return the recursion on the numbers, leave the lines of every step in the log
behind what was there, and start, after a move, from the number that the log shows as new. -/
theorem iterate_eq_trace (hw : w.names.validate = .ok ()) (hx : w.Stores d .approxOld x)
    (hb : d.Content (w.path .approxLog) b) (hg : gs.map Scalar.ofBytes? = ys.map some)
    (h : Ends mayFail (iterate w threshold rate gs) d course (.ok steps) e) :
    steps = trace threshold rate x ys ∧
      e.Content (w.path .approxLog) (b ++ encode (steps.flatMap logText)) ∧
      steps.IsChain Continues := by
  have hs : w.names.Sound := FileNames.sound_of_validate hw
  have hstored : ∀ z, w.Stores d .approxOld z → z = x := fun z hz => hz.unique hx
  obtain ⟨rfl, hlog⟩ := ends_iterate hs hstored hb hg h
  exact ⟨rfl, hlog, isChain_trace threshold rate x ys⟩

/-- A disk on which the descent stands at one, with a log of earlier runs. -/
def startDisk : Disk :=
  topDisk [("approx_old", .file [49, 10]), ("approx_log", .file (encode "earlier\n".toList))]

theorem iterate_eq_trace_two :
    top.names.validate = .ok () ∧ top.Stores startDisk .approxOld 1 ∧
      startDisk.Content (top.path .approxLog) (encode "earlier\n".toList) ∧
      [[49, 10], [48, 10]].map Scalar.ofBytes? = [1, 0].map some ∧
      ∃ course steps e, Ends (fun _ _ => False) (iterate top 0.5 0.25 [[49, 10], [48, 10]]) startDisk
          course (.ok steps) e ∧
        steps = trace 0.5 0.25 1 [1, 0] ∧
        e.Content (top.path .approxLog)
          (encode "earlier\n".toList ++ encode (steps.flatMap logText)) ∧
        steps.IsChain Continues := by
  have hx : top.Stores startDisk .approxOld 1 := ⟨[49, 10], by decide, by decide +kernel⟩
  have hb : startDisk.Content (top.path .approxLog) (encode "earlier\n".toList) :=
    Or.inl (by decide +kernel)
  have hg : [[49, 10], [48, 10]].map Scalar.ofBytes? = [1, 0].map some := by decide +kernel
  have hrun : ((iterate top 0.5 0.25 [[49, 10], [48, 10]]).run startDisk).1 =
      .ok [.moved 1 0.75, .converged 0.75] := by decide +kernel
  obtain ⟨course, h⟩ :=
    Script.ends_run (iterate top 0.5 0.25 [[49, 10], [48, 10]]) startDisk
  rw [hrun] at h
  exact ⟨rfl, hx, hb, hg, course, _, _, h, iterate_eq_trace rfl hx hb hg h⟩

end NumericSteps.Descent
