import NumericSteps.Proofs.Descent.Call
import NumericSteps.Proofs.Workspace.Instants
import NumericSteps.Proofs.Workspace.NameClash
import NumericSteps.Step.Compare
import NumericSteps.Step.Decompose
import NumericSteps.Step.Recompose

namespace NumericSteps

open Script Workspace

/-- A call of one of the steps that work on the files of a workspace. -/
inductive StepCall
  | decompose (input : Bytes) (mode : SvdMode)
  | recompose
  | compare (tolerance : Float)
  | descend (threshold rate : Float)

namespace StepCall

/-- What a call does, for any way to decompose a matrix. -/
def script (svd : Matrix Float → SvdMode → Except Failure Svd) (w : Workspace) :
    StepCall → Script Unit
  | decompose input mode => do
    let _ ← Decompose.runWith svd input w mode
    return ()
  | recompose => do
    let _ ← Recompose.run w
    return ()
  | compare tolerance => do
    let _ ← Compare.run w tolerance
    return ()
  | descend threshold rate => do
    let _ ← Descent.run w threshold rate
    return ()

/-- The files that the step produces. -/
def owned : StepCall → List Slot
  | decompose _ _ => factorSlots
  | recompose => []
  | compare _ => []
  | descend _ _ => [.approxNew, .solution, .approxLog]

/-- The call leads from one disk to another: to its end, or to where it is cut off. -/
def Does (mayFail : Disk → Change → Prop) (svd : Matrix Float → SvdMode → Except Failure Svd)
    (w : Workspace) (c : StepCall) (d e : Disk) : Prop :=
  ∃ course t, Leads mayFail (c.script svd w) d course t e

variable {mayFail : Disk → Change → Prop} {svd : Matrix Float → SvdMode → Except Failure Svd}
  {w : Workspace} {d e : Disk} {s : Slot} {c : StepCall} {calls : List StepCall} {P : Change → Prop}

/-- The paths that a call may touch. -/
def paths (w : Workspace) (c : StepCall) : List Path :=
  c.owned.map w.path ++ c.owned.map w.stagingPath

theorem path_mem_paths (hs : s ∈ c.owned) : w.path s ∈ c.paths w :=
  List.mem_append_left _ (List.mem_map_of_mem hs)

theorem stagingPath_mem_paths (hs : s ∈ c.owned) : w.stagingPath s ∈ c.paths w :=
  List.mem_append_right _ (List.mem_map_of_mem hs)

section Requests

theorem only_decompose {input : Bytes} {mode : SvdMode}
    (h : ∀ f, (w.writeMatrices (Decompose.entries f)).Only P) :
    (Decompose.runWith svd input w mode).Only P := by
  unfold Decompose.runWith
  cases Matrix.ofBytes input with
  | error g => trivial
  | ok a =>
    dsimp only
    cases svd a mode with
    | error g => trivial
    | ok f =>
      refine (h _).bind fun res => ?_
      cases res with
      | error g => trivial
      | ok u => trivial

theorem only_readFactors (w : Workspace) (ss : List Slot) :
    (Recompose.readFactors w ss).Only fun _ => False := by
  induction ss with
  | nil => trivial
  | cons s ss ih =>
    refine (only_readMatrix w s).bind fun res => ?_
    cases res with
    | error g => trivial
    | ok m => exact ih.bind fun _ => trivial

theorem only_recompose (w : Workspace) : (Recompose.run w).Only fun _ => False := by
  refine (only_readFactors w _).bind fun read => ?_
  obtain ⟨events, factors⟩ := read
  dsimp only
  cases factors.bind (Matrix.chainWith Grid.times) with
  | error g => trivial
  | ok a => trivial

theorem only_compare (w : Workspace) (tolerance : Float) :
    (Compare.run w tolerance).Only fun _ => False := by
  refine (only_readMatrix w .matrixIn).bind fun first => ?_
  cases first with
  | error g => trivial
  | ok computed =>
    refine (only_readMatrix w .matrixOut).bind fun second => ?_
    cases second with
    | error g => trivial
    | ok expected => trivial

/-- A call asks for changes of the files it owns and of their staging files alone. -/
theorem only_script (svd : Matrix Float → SvdMode → Except Failure Svd) (w : Workspace)
    (c : StepCall) : (c.script svd w).Only (Change.Within (c.paths w)) := by
  cases c with
  | decompose input mode =>
    refine (only_decompose fun f => only_writeMatrices fun x hx => ?_).bind fun _ => trivial
    have hm : x.1 ∈ owned (decompose input mode) := List.mem_map_of_mem (f := Prod.fst) hx
    exact ⟨path_mem_paths hm, stagingPath_mem_paths hm⟩
  | recompose => exact ((only_recompose w).mono fun _ hc => hc.elim).bind fun _ => trivial
  | compare tolerance => exact ((only_compare w tolerance).mono fun _ hc => hc.elim).bind fun _ => trivial
  | descend threshold rate =>
    refine (Descent.only_run fun step => ?_).bind fun _ => trivial
    have hm : step.slot ∈ owned (descend threshold rate) := by
      cases step <;> simp [owned, Descent.slot]
    have hlog : Slot.approxLog ∈ owned (descend threshold rate) := by simp [owned]
    exact Descent.only_record (path_mem_paths hm) (path_mem_paths hlog)

end Requests

/-- A call leaves every file alone that it does not own. -/
theorem Does.look_eq (hw : w.names = {}) (h : Does mayFail svd w c d e) (hs : s ∉ c.owned) :
    e.look (w.path s) = d.look (w.path s) := by
  obtain ⟨course, t, h⟩ := h
  have hsound : w.names.Sound := sound_default hw
  apply look_eq_of_other (hsound.plain s) (h.sameBut (only_script svd w c)) h.sameFolders
  intro path hp
  rcases List.mem_append.1 hp with hp | hp
  · exact others_of_not_mem hsound hs path hp
  · obtain ⟨r, -, rfl⟩ := List.mem_map.1 hp
    exact other_staging hsound (apart_default hw) s r

theorem grows_of_goes {r : Except OsFault Unit} {step : Descent} {change : Change}
    (hs : w.names.Sound) (hc : change.Adds ∨ change = .create (w.path step.slot))
    (h : Change.Goes mayFail d change r e) : d.Grows (w.path .approxLog) e := by
  rcases hc with hadds | rfl
  · exact h.grows hadds _
  · have hsame : d.SameBut [w.path step.slot] e := h.sameBut List.mem_cons_self
    apply Disk.Grows.of_look_eq
    exact look_eq_of_other (hs.plain .approxLog) hsame h.sameFolders
      (List.forall_mem_singleton.2 (other_path hs step.slot_ne_approxLog))

/-- A descent opens the log to add to it, and empties only the file of its outcome. -/
theorem Does.grows (hw : w.names = {}) (h : Does mayFail svd w c d e) :
    d.Grows (w.path .approxLog) e := by
  by_cases hlog : Slot.approxLog ∈ c.owned
  · cases c with
    | decompose input mode => simp [owned, factorSlots] at hlog
    | recompose => cases hlog
    | compare tolerance => cases hlog
    | descend threshold rate =>
      obtain ⟨course, t, h⟩ := h
      have hadds : (script svd w (descend threshold rate)).Only
          fun change => ∃ step : Descent, change.Adds ∨ change = .create (w.path step.slot) := by
        refine (Descent.only_run fun step => ?_).bind fun _ => trivial
        exact (Descent.only_record_adds w step).mono fun _ hc => ⟨step, hc⟩
      refine h.closed (fun _ => Disk.Grows.of_look_eq rfl) Disk.Grows.trans ?_ hadds
      rintro d change r e ⟨step, hc⟩ hgoes
      exact grows_of_goes (sound_default hw) hc hgoes
  · exact Disk.Grows.of_look_eq (h.look_eq hw hlog)

/-- The files that the steps only read. -/
def inputSlots : List Slot := [.matrixIn, .matrixOut, .approxOld, .grad]

theorem not_owned_of_input (c : StepCall) (hs : s ∈ inputSlots) : s ∉ c.owned := by
  have hall : ∀ s ∈ inputSlots, s ∉ factorSlots ∧ s ∉ [Slot.approxNew, .solution, .approxLog] := by
    decide
  cases c with
  | decompose input mode => exact (hall s hs).1
  | recompose => simp [owned]
  | compare tolerance => simp [owned]
  | descend threshold rate => exact (hall s hs).2

theorem look_eq_of_calls (hw : w.names = {}) (h : Calls (Does mayFail svd w) d calls e)
    (hs : ∀ c ∈ calls, s ∉ c.owned) : e.look (w.path s) = d.look (w.path s) := by
  refine h.closed (R := fun d e => e.look (w.path s) = d.look (w.path s)) (fun _ => rfl)
    (fun hd he => he.trans hd) ?_
  intro c hc d e hdoes
  exact hdoes.look_eq hw (hs c hc)

/-- Over any stretch of calls the inputs stay as they are, a file that has changed is owned by one of
the calls, and the log of approximations has at most grown. -/
theorem changed_only_by_owner (hw : w.names = {}) (h : Calls (Does mayFail svd w) d calls e) :
    (∀ s ∈ inputSlots, e.look (w.path s) = d.look (w.path s)) ∧
      (∀ s, e.look (w.path s) ≠ d.look (w.path s) → ∃ c ∈ calls, s ∈ c.owned) ∧
      d.Grows (w.path .approxLog) e := by
  refine ⟨?_, ?_, ?_⟩
  · intro s hs
    exact look_eq_of_calls hw h fun c _ => not_owned_of_input c hs
  · intro s hne
    by_contra hnone
    push Not at hnone
    exact hne (look_eq_of_calls hw h hnone)
  · exact h.closed (fun _ => Disk.Grows.of_look_eq rfl) Disk.Grows.trans
      fun c _ _ _ hdoes => hdoes.grows hw

theorem does_run (c : StepCall) (d : Disk) : Does mayFail svd w c d ((c.script svd w).run d).2 := by
  obtain ⟨course, h⟩ := Script.ends_run (c.script svd w) d
  exact ⟨course, _, h⟩

/-- Where a number of calls lead that all run as asked. -/
def runAll (svd : Matrix Float → SvdMode → Except Failure Svd) (w : Workspace) :
    List StepCall → Disk → Disk
  | [], d => d
  | c :: cs, d => runAll svd w cs ((c.script svd w).run d).2

theorem calls_runAll (calls : List StepCall) (d : Disk) :
    Calls (Does mayFail svd w) d calls (runAll svd w calls d) := by
  induction calls generalizing d with
  | nil => exact .nil d
  | cons c cs ih => exact .cons (does_run c d) (ih _)

/-- A disk on which every step has its inputs, with a log of earlier runs. -/
def inputDisk : Disk :=
  topDisk [("matrix_in", .file [49, 10]), ("matrix_out", .file [49, 10]),
    ("approx_old", .file [49, 10]), ("grad", .file [49, 10]), ("approx_log", .file [45, 10])]

/-- Calls of all the steps. -/
def session : List StepCall :=
  [.recompose, .decompose [50, 10] .thin, .compare 0.5, .descend 0.5 0.25, .recompose]

theorem changed_only_by_owner_session :
    top.names = {} ∧
      ∃ e, Calls (Does (fun _ _ => True) Svd.decompose top) inputDisk session e ∧
        e.look (top.path .approxLog) =
          some (.file ([45, 10] ++ Text.encode "old: 1.0\nnew: 0.75\n".toList)) ∧
        (∀ s ∈ inputSlots, e.look (top.path s) = inputDisk.look (top.path s)) ∧
        (∀ s, e.look (top.path s) ≠ inputDisk.look (top.path s) → ∃ c ∈ session, s ∈ c.owned) ∧
        inputDisk.Grows (top.path .approxLog) e := by
  have hcalls : Calls (Does (fun _ _ => True) Svd.decompose top) inputDisk session
      (runAll Svd.decompose top session inputDisk) := calls_runAll session inputDisk
  have hlog : (runAll Svd.decompose top session inputDisk).look (top.path .approxLog) =
      some (.file ([45, 10] ++ Text.encode "old: 1.0\nnew: 0.75\n".toList)) := by decide +kernel
  exact ⟨rfl, _, hcalls, hlog, changed_only_by_owner rfl hcalls⟩

end StepCall

end NumericSteps
