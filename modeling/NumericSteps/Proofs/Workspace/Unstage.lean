import NumericSteps.Proofs.Disk.Course
import NumericSteps.Proofs.Workspace.AllOrNone
import NumericSteps.Step.Decompose

namespace NumericSteps

/-- The path and the failure when a file could not be created or written. -/
def Change.unwritten : Change → OsFault → Option (Path × Failure)
  | .create path, f => some (path, Workspace.fileFailure path f)
  | .write path _, f => some (path, .stream f)
  | _, _ => none

/-- A file could not be created or written in the course. -/
def Course.Unwritten (course : Course) (path : Path) (g : Failure) : Prop :=
  ∃ c f, (c, Except.error f) ∈ course ∧ c.unwritten f = some (path, g)

theorem Course.unwritten_iff {course : Course} {path : Path} {g : Failure} :
    course.Unwritten path g ↔ course.Tells Change.unwritten (path, g) := Iff.rfl

namespace Workspace

open Script

variable {mayFail : Disk → Change → Prop} {w : Workspace} {d e : Disk} {course : Course}
  {path : Path} {paths : List Path} {res : Except Failure Unit} {g : Failure}

theorem only_writeLines {P : Change → Prop} (h : ∀ bytes, P (.write path bytes))
    (lines : List Bytes) : (writeLines path lines).Only P := by
  induction lines with
  | nil => trivial
  | cons line lines ih =>
    refine ⟨h line, fun r => ?_⟩
    cases r with
    | error f => trivial
    | ok u => exact ih

theorem uses_writeLines {P : Path → Prop} (hp : P path) (lines : List Bytes) :
    (writeLines path lines).Uses P := by
  induction lines with
  | nil => trivial
  | cons line lines ih =>
    refine ⟨hp, fun r => ?_⟩
    cases r with
    | error f => trivial
    | ok u => exact ih

theorem uses_writeFile {P : Path → Prop} (hp : P path) (lines : List Bytes) :
    (writeFile path lines).Uses P := by
  refine ⟨hp, fun r => ?_⟩
  cases r with
  | error f => trivial
  | ok u => exact (uses_writeLines hp lines).bind fun _ => trivial

theorem only_writeFile (hp : path ∈ paths) (lines : List Bytes) :
    (writeFile path lines).Only (Change.Within paths) :=
  Uses.only (uses_writeFile hp lines)

theorem only_removeAll {P : Change → Prop} {ps : List Path} (h : ∀ p ∈ ps, P (.remove p)) :
    (removeAll ps).Only P := by
  induction ps with
  | nil => trivial
  | cons p ps ih =>
    exact ⟨h p List.mem_cons_self, fun _ => ih fun q hq => h q (List.mem_cons_of_mem _ hq)⟩

theorem only_unstage {P : Change → Prop} {staged : List Path} {failed : Path}
    (h : ∀ p ∈ staged ++ [failed], P (.remove p)) : (unstage staged failed).Only P := by
  refine (only_removeAll fun p hp => h p (List.mem_append_left _ hp)).bind fun _ there => ?_
  cases there with
  | false => trivial
  | true => exact ⟨h failed (by simp), fun _ => trivial⟩

theorem uses_removeAll {P : Path → Prop} {ps : List Path} (h : ∀ p ∈ ps, P p) :
    (removeAll ps).Uses P := by
  induction ps with
  | nil => trivial
  | cons p ps ih =>
    rw [List.forall_mem_cons] at h
    exact ⟨h.1, fun _ => ih h.2⟩

theorem uses_unstage {P : Path → Prop} {staged : List Path} (h : ∀ p ∈ staged, P p) (hp : P path) :
    (unstage staged path).Uses P := by
  refine (uses_removeAll h).bind fun _ => ⟨hp, fun there => ?_⟩
  cases there with
  | false => trivial
  | true => exact ⟨hp, fun _ => trivial⟩

theorem only_takeOver {P : Change → Prop} {ss : List Slot}
    (h : ∀ s ∈ ss, P (.rename (w.stagingPath s) (w.path s))) : (w.takeOver ss).Only P := by
  induction ss with
  | nil => trivial
  | cons s ss ih =>
    refine ⟨h s List.mem_cons_self, fun r => ?_⟩
    cases r with
    | error f => trivial
    | ok u => exact ih fun t ht => h t (List.mem_cons_of_mem _ ht)

theorem ends_writeLines {lines : List Bytes} {r : Except OsFault Unit} {p : Path}
    (h : Ends mayFail (writeLines p lines) d course r e) (hu : course.Unwritten path g) :
    path = p ∧ ∃ f, g = .stream f ∧ r = .error f := by
  induction lines generalizing d course with
  | nil =>
    obtain ⟨-, rfl, -⟩ := h.of_done
    exact absurd hu Course.not_tells_nil
  | cons line lines ih =>
    obtain ⟨r', d', rest, -, rfl, hrest⟩ := h.of_change
    cases r' with
    | error f =>
      obtain ⟨rfl, rfl, -⟩ := hrest.of_done
      cases Course.tells_failed.1 hu
      exact ⟨rfl, f, rfl, rfl⟩
    | ok u => exact ih hrest (Course.tells_cons_ok.1 hu)

/-- What fails for a file is what its writing fails with. -/
theorem ends_writeFile {lines : List Bytes} {p : Path}
    (h : Ends mayFail (writeFile p lines) d course res e) (hu : course.Unwritten path g) :
    path = p ∧ res = .error g := by
  obtain ⟨r, d', rest, -, rfl, hrest⟩ := h.of_change
  cases r with
  | error f =>
    obtain ⟨rfl, rfl, -⟩ := hrest.of_done
    cases Course.tells_failed.1 hu
    exact ⟨rfl, rfl⟩
  | ok u =>
    obtain ⟨r', d'', front, back, hlines, hback, rfl⟩ := Ends.of_bind hrest
    obtain ⟨rfl, rfl, -⟩ := Ends.of_done hback
    rw [List.append_nil] at hu
    obtain ⟨hp, f, rfl, rfl⟩ := ends_writeLines hlines (Course.tells_cons_ok.1 hu)
    exact ⟨hp, rfl⟩

theorem ends_removeAll {ps : List Path} {u : Unit}
    (h : Ends Change.Fallible (removeAll ps) d course u e) :
    (∀ p ∈ ps, e.isFile p = false) ∧ ∀ p, d.isFile p = false → e.isFile p = false := by
  induction ps generalizing d course with
  | nil =>
    obtain ⟨-, -, rfl⟩ := h.of_done
    exact ⟨by simp, fun _ hp => hp⟩
  | cons p ps ih =>
    obtain ⟨r, d', rest, hg, -, hrest⟩ := h.of_change
    obtain ⟨hp, hkeep⟩ := hg.isFile_removed
    obtain ⟨hps, hkeep'⟩ := ih hrest
    refine ⟨?_, fun q hq => hkeep' q (hkeep q hq)⟩
    intro q hq
    cases hq with
    | head => exact hkeep' p hp
    | tail _ hq => exact hps q hq

theorem ends_unstage {staged : List Path} {failed : Path} {u : Unit}
    (h : Ends Change.Fallible (unstage staged failed) d course u e) :
    ∀ p ∈ staged ++ [failed], e.isFile p = false := by
  obtain ⟨_, d', front, back, hall, hlast, -⟩ := Ends.of_bind h
  obtain ⟨hgone, -⟩ := ends_removeAll hall
  have hlast := hlast.of_isFile
  have hend : e.isFile failed = false ∧ ∀ p, d'.isFile p = false → e.isFile p = false := by
    cases hf : d'.isFile failed with
    | false =>
      rw [hf] at hlast
      obtain ⟨-, -, rfl⟩ := hlast.of_done
      exact ⟨hf, fun _ hp => hp⟩
    | true =>
      rw [hf] at hlast
      obtain ⟨hone, hkeep⟩ := ends_removeAll hlast
      exact ⟨hone failed (by simp), hkeep⟩
  intro p hp
  rcases List.mem_append.1 hp with hp | hp
  · exact hend.2 p (hgone p hp)
  · rw [List.mem_singleton.1 hp]
    exact hend.1

/-- Where the matrices of entries are staged. -/
def stagingPaths (w : Workspace) (entries : List (Slot × Matrix Float)) : List Path :=
  entries.map fun x => w.stagingPath x.1

theorem ends_stage {staged : List Path} {entries : List (Slot × Matrix Float)}
    (h : Ends Change.Fallible (w.stage staged entries) d course res e)
    (hu : course.Unwritten path g) :
    ∃ before x after, entries = before ++ x :: after ∧ path = w.stagingPath x.1 ∧
      res = .error g ∧ d.SameBut (staged ++ w.stagingPaths (before ++ [x])) e ∧
      ∀ p ∈ staged ++ w.stagingPaths (before ++ [x]), e.isFile p = false := by
  induction entries generalizing staged d course with
  | nil =>
    obtain ⟨-, rfl, -⟩ := h.of_done
    exact absurd hu Course.not_tells_nil
  | cons x entries ih =>
    obtain ⟨s, m⟩ := x
    obtain ⟨r, d', front, back, hfile, hback, rfl⟩ := Ends.of_bind h
    have hsame : d.SameBut [w.stagingPath s] d' :=
      hfile.sameBut (only_writeFile List.mem_cons_self _)
    rw [Course.unwritten_iff, Course.tells_append] at hu
    cases r with
    | error g' =>
      obtain ⟨_, d'', undo, last, hundo, hlast, rfl⟩ := Ends.of_bind hback
      obtain ⟨rfl, rfl, rfl⟩ := Ends.of_done hlast
      have hundone : d'.SameBut (staged ++ [w.stagingPath s]) e :=
        hundo.sameBut (only_unstage fun p hp => hp)
      rw [List.append_nil] at hu
      rcases hu with hu | hu
      · obtain ⟨rfl, he⟩ := ends_writeFile hfile hu
        refine ⟨[], (s, m), entries, rfl, rfl, he, ?_, ends_unstage hundo⟩
        exact (hsame.mono (by simp [stagingPaths])).trans hfile.sameFolders hundone
      · exact absurd hu (hundo.not_tells (only_unstage fun _ _ _ => rfl) _)
    | ok u =>
      rcases hu with hu | hu
      · cases (ends_writeFile hfile hu).2
      · obtain ⟨before, x, after, rfl, hp, he, hk, hf⟩ := ih hback hu
        have hpaths : staged ++ [w.stagingPath s] ++ w.stagingPaths (before ++ [x]) =
            staged ++ w.stagingPaths ((s, m) :: before ++ [x]) := by
          simp [stagingPaths]
        rw [hpaths] at hk hf
        refine ⟨(s, m) :: before, x, after, rfl, hp, he, ?_, hf⟩
        exact (hsame.mono (by simp [stagingPaths])).trans hfile.sameFolders hk

theorem ends_writeMatrices {entries : List (Slot × Matrix Float)}
    (h : Ends Change.Fallible (w.writeMatrices entries) d course res e)
    (hu : course.Unwritten path g) :
    ∃ before x after, entries = before ++ x :: after ∧ path = w.stagingPath x.1 ∧
      res = .error g ∧ d.SameBut (w.stagingPaths (before ++ [x])) e ∧
      ∀ p ∈ w.stagingPaths (before ++ [x]), e.isFile p = false := by
  obtain ⟨r, d', front, back, hstage, hback, rfl⟩ := Ends.of_bind h
  rw [Course.unwritten_iff, Course.tells_append] at hu
  cases r with
  | error g' =>
    obtain ⟨rfl, rfl, rfl⟩ := Ends.of_done hback
    rcases hu with hu | hu
    · exact ends_stage hstage hu
    · exact absurd hu Course.not_tells_nil
  | ok u =>
    rcases hu with hu | hu
    · obtain ⟨_, _, _, _, _, he, _⟩ := ends_stage hstage hu
      cases he
    · exact absurd hu (hback.not_tells (only_takeOver fun _ _ _ => rfl) _)

/-- No file of the table stands where a staging file does. -/
theorem place?_ne_staging (hs : w.names.Sound) (ha : w.Apart) {s t : Slot} {p : Place}
    (hp : d.place? (w.path s) = some p) : d.place? (w.stagingPath t) ≠ some p := by
  intro hq
  have hn := plain_stagingName (hs.plain t)
  exact ha s t (names_inj (hs.plain s) hn ((place?_file (hs.plain s)).1 hp) ((place?_file hn).1 hq))

theorem look_of_sameBut_staging (hs : w.names.Sound) (ha : w.Apart)
    {entries : List (Slot × Matrix Float)} (h : d.SameBut (w.stagingPaths entries) e)
    (hd : Disk.SameFolders d e) (s : Slot) : e.look (w.path s) = d.look (w.path s) := by
  apply h.look hd
  intro p hp other hm
  obtain ⟨x, -, rfl⟩ := List.mem_map.1 hm
  exact place?_ne_staging hs ha hp

end Workspace

namespace Decompose

variable {svd : Matrix Float → SvdMode → Except Failure Svd} {w : Workspace} {input : Bytes}
  {mode : SvdMode} {a : Matrix Float} {s : Svd} {g : Failure} {d e : Disk} {course : Course}

/-- What a decomposition comes to, by how the writing of its factors has gone. -/
def outcome (w : Workspace) (a : Matrix Float) (s : Svd) : Except Failure Unit → Outcome Factors
  | .error g => .failed g [read a, decomposed s]
  | .ok () => .passed (Factors.ofSvd s)
      (read a :: decomposed s :: (entries (Factors.ofSvd s)).map (written w))

theorem runWith_unread (ha : Matrix.ofBytes input = .error g) :
    runWith svd input w mode = .done (.failed g []) := by
  unfold runWith
  rw [ha]
  rfl

theorem runWith_undecomposed (ha : Matrix.ofBytes input = .ok a) (hs : svd a mode = .error g) :
    runWith svd input w mode = .done (.failed g [read a]) := by
  unfold runWith
  rw [ha]
  dsimp only
  rw [hs]
  rfl

theorem runWith_decomposed (ha : Matrix.ofBytes input = .ok a) (hs : svd a mode = .ok s) :
    runWith svd input w mode =
      w.writeMatrices (entries (Factors.ofSvd s)) >>= fun res => .done (outcome w a s res) := by
  unfold runWith
  rw [ha]
  dsimp only
  rw [hs]
  refine congrArg (Script.bind _) (funext fun res => ?_)
  cases res <;> rfl

/-- What stops a decomposition before it replaces a factor file. -/
inductive Stopped (svd : Matrix Float → SvdMode → Except Failure Svd) (input : Bytes)
    (mode : SvdMode) (course : Course) : Failure → Prop
  | unread {g : Failure} : Matrix.ofBytes input = .error g → Stopped svd input mode course g
  | undecomposed {a : Matrix Float} {g : Failure} :
      Matrix.ofBytes input = .ok a → svd a mode = .error g → Stopped svd input mode course g
  | unstaged {path : Path} {g : Failure} : course.Unwritten path g → Stopped svd input mode course g

theorem ends_unstaged {path : Path} {out : Outcome Factors}
    (h : Script.Ends Change.Fallible (runWith svd input w mode) d course out e)
    (hu : course.Unwritten path g) :
    out.result = .error g ∧ ∃ entries, d.SameBut (w.stagingPaths entries) e := by
  cases ha : Matrix.ofBytes input with
  | error g' =>
    rw [runWith_unread ha] at h
    obtain ⟨-, rfl, -⟩ := h.of_done
    exact absurd hu Course.not_tells_nil
  | ok a =>
    cases hs : svd a mode with
    | error g' =>
      rw [runWith_undecomposed ha hs] at h
      obtain ⟨-, rfl, -⟩ := h.of_done
      exact absurd hu Course.not_tells_nil
    | ok s =>
      rw [runWith_decomposed ha hs] at h
      obtain ⟨res, d', front, back, hwrite, hback, rfl⟩ := Script.Ends.of_bind h
      obtain ⟨rfl, rfl, rfl⟩ := Script.Ends.of_done hback
      rw [List.append_nil] at hu
      obtain ⟨before, x, -, -, -, rfl, hk, -⟩ := Workspace.ends_writeMatrices hwrite hu
      exact ⟨rfl, before ++ [x], hk⟩

/-- A decomposition that is stopped fails so, and touches nothing but staging files. -/
theorem ends_runWith {out : Outcome Factors}
    (h : Script.Ends Change.Fallible (runWith svd input w mode) d course out e)
    (hstop : Stopped svd input mode course g) :
    out.result = .error g ∧ ∃ entries, d.SameBut (w.stagingPaths entries) e := by
  cases hstop with
  | unread ha =>
    rw [runWith_unread ha] at h
    obtain ⟨rfl, -, rfl⟩ := h.of_done
    exact ⟨rfl, [], Disk.SameBut.refl _ _⟩
  | undecomposed ha hs =>
    rw [runWith_undecomposed ha hs] at h
    obtain ⟨rfl, -, rfl⟩ := h.of_done
    exact ⟨rfl, [], Disk.SameBut.refl _ _⟩
  | unstaged hu => exact ends_unstaged h hu

end Decompose

namespace Workspace

open Script

variable {w : Workspace}

/-- A failure in front of the renames is the result, and takes everything back: the staging files
up to that of the failed entry are gone, and all else is as it was. -/
theorem unstaged_on_failure (hw : w.names = {}) :
    (∀ (entries : List (Slot × Matrix Float)) (d e : Disk) (course : Course)
        (res : Except Failure Unit) (path : Path) (g : Failure),
      Ends Change.Fallible (w.writeMatrices entries) d course res e → course.Unwritten path g →
        ∃ before x after, entries = before ++ x :: after ∧ path = w.stagingPath x.1 ∧
          res = .error g ∧ d.SameBut (w.stagingPaths (before ++ [x])) e ∧
          (∀ s, e.look (w.path s) = d.look (w.path s)) ∧
          ∀ p ∈ w.stagingPaths (before ++ [x]), e.isFile p = false) ∧
      ∀ (svd : Matrix Float → SvdMode → Except Failure Svd) (input : Bytes) (mode : SvdMode)
          (d e : Disk) (course : Course) (out : Outcome Factors) (g : Failure),
        Ends Change.Fallible (Decompose.runWith svd input w mode) d course out e →
        Decompose.Stopped svd input mode course g →
          out.result = .error g ∧ ∀ s, e.look (w.path s) = d.look (w.path s) := by
  have hs := sound_default hw
  have ha := apart_default hw
  constructor
  · intro entries d e course res path g h hu
    obtain ⟨before, x, after, hx, hp, he, hk, hf⟩ := ends_writeMatrices h hu
    exact ⟨before, x, after, hx, hp, he, hk, look_of_sameBut_staging hs ha hk h.sameFolders, hf⟩
  · intro svd input mode d e course out g h hstop
    obtain ⟨hres, entries, hk⟩ := Decompose.ends_runWith h hstop
    exact ⟨hres, look_of_sameBut_staging hs ha hk h.sameFolders⟩

/-- A factor without elements, and one of a single empty row. -/
def narrowPair : List (Slot × Matrix Float) := [(.factorU, ⟨0, 0, []⟩), (.factorS, ⟨1, 0, []⟩)]

/-- The first name is in use, and a staging file was left by an earlier run. -/
def leftDisk : Disk := topDisk [(".m1.partial", .file [49, 10]), ("m1", .file [50, 10])]

/-- The second staging file can be created, but there is no space for its line. -/
def fullCourse : Course :=
  [(.create (top.stagingPath .factorU), .ok ()), (.create (top.stagingPath .factorS), .ok ()),
    (.write (top.stagingPath .factorS) [10], .error .noSpace),
    (.remove (top.stagingPath .factorU), .ok ()), (.remove (top.stagingPath .factorS), .ok ())]

theorem ends_fullCourse :
    Ends Change.Fallible (top.writeMatrices narrowPair) leftDisk fullCourse
      (.error (.stream .noSpace)) (topDisk [("m1", .file [50, 10])]) := by
  refine .change (.asAsked _) ?_
  refine .change (.asAsked _) ?_
  refine .change (.brokenOff .noSpace (fun _ h => nomatch h) (.write _ [] [10]) rfl) ?_
  refine .change (.asAsked _) ?_
  refine .isFile ?_
  refine .change (.asAsked _) ?_
  exact .here _ _

theorem unstaged_on_failure_full :
    top.names = {} ∧
      (Ends Change.Fallible (top.writeMatrices narrowPair) leftDisk fullCourse
          (.error (.stream .noSpace)) (topDisk [("m1", .file [50, 10])]) ∧
        fullCourse.Unwritten (top.stagingPath .factorS) (.stream .noSpace) ∧
        ∃ before x after, narrowPair = before ++ x :: after ∧
          top.stagingPath .factorS = top.stagingPath x.1 ∧
          Except.error (Failure.stream .noSpace) = (.error (.stream .noSpace) : Except Failure Unit) ∧
          leftDisk.SameBut (top.stagingPaths (before ++ [x])) (topDisk [("m1", .file [50, 10])]) ∧
          (∀ s, (topDisk [("m1", .file [50, 10])]).look (top.path s) = leftDisk.look (top.path s)) ∧
          ∀ p ∈ top.stagingPaths (before ++ [x]),
            (topDisk [("m1", .file [50, 10])]).isFile p = false) ∧
      (Ends Change.Fallible (Decompose.run [120] top .full) leftDisk []
          (.failed (.notANumber 1 "x") []) leftDisk ∧
        Decompose.Stopped Svd.decompose [120] .full [] (.notANumber 1 "x") ∧
        (.failed (.notANumber 1 "x") [] : Outcome Factors).result = .error (.notANumber 1 "x") ∧
        ∀ s, leftDisk.look (top.path s) = leftDisk.look (top.path s)) := by
  have hu : fullCourse.Unwritten (top.stagingPath .factorS) (.stream .noSpace) :=
    ⟨.write (top.stagingPath .factorS) [10], .noSpace, by simp [fullCourse], rfl⟩
  have hrun : Ends Change.Fallible (Decompose.run [120] top .full) leftDisk []
      (.failed (.notANumber 1 "x") []) leftDisk := .here _ _
  have hstop : Decompose.Stopped Svd.decompose [120] .full [] (.notANumber 1 "x") := .unread rfl
  obtain ⟨hw, hd⟩ := unstaged_on_failure (w := top) rfl
  exact ⟨rfl, ⟨ends_fullCourse, hu, hw _ _ _ _ _ _ _ ends_fullCourse hu⟩,
    hrun, hstop, hd _ _ _ _ _ _ _ _ hrun hstop⟩

end Workspace

end NumericSteps
