import NumericSteps.Command.Run
import NumericSteps.Proofs.Disk.Alike
import NumericSteps.Proofs.Event.Requests
import NumericSteps.Proofs.Workspace.Files
import NumericSteps.Proofs.Workspace.Reach

namespace NumericSteps

open Script
open Workspace (top topDisk)

theorem Path.text_ofText (s : String) : (Path.ofText s).text = s := by
  rw [← String.toList_inj, text, ofText, String.toList_intercalate]
  simpa [List.map_map, Function.comp_def] using Text.intercalate_cut '/' s.toList

namespace Options

variable {α : Type} {mayFail : Disk → Change → Prop} {faulty : Change → Prop} {o : Options} {d d₁ d₂ e : Disk}
  {course opening closing : Course} {j j' : Journal} {events : List Event}

/-- The same options without sinks. -/
def bare (o : Options) : Options := { o with events := none, verbose := false }

/-- The sinks that are asked for. -/
def sinks (o : Options) : List Sink :=
  o.logSinks ++ o.events.toList.map fun _ => .jsonLines ⟨eventsHandle, []⟩

def eventsPaths (o : Options) : List Path := o.events.toList.map Path.ofText

/-- The file of events, if there is to be one, has been opened. -/
def Opens (o : Options) (d : Disk) (course : Course) (e : Disk) : Prop :=
  match o.events with
  | none => course = [] ∧ e = d
  | some file => course = [(.hold eventsHandle (.ofText file), .ok ())] ∧
      d.hold eventsHandle (.ofText file) = .ok e

/-- The place of the file of events is none that a path of a file leads to or past. -/
def Aside (o : Options) (d : Disk) (files : Path → Prop) : Prop :=
  ∀ path ∈ o.eventsPaths, ∀ p, d.place? path = some p → ∀ other, files other → ¬ d.Near other p

/-- Every sink has been asked to handle all events, each once and in their order, and then to finalize,
and has been let go. -/
def Served (faulty : Change → Prop) (sinks : List Sink) (events : List Event) (d : Disk) (j : Journal)
    (course : Course) (j' : Journal) (e : Disk) : Prop :=
  ∃ (b : Bus (Bus.Asked Sink)) (d' : Disk) (front back : Course),
    Ends (fun _ c => faulty c) ((((busOf sinks).emitAll events).unasked.finish
      (Bus.askHandle Sink.handle) (Bus.askFinalize Sink.finalize)).run j) d front (b, j') d' ∧
    b.sinks.map Prod.snd = sinks.map (fun _ => Bus.requests events) ∧
    Ends (fun _ c => faulty c) ((b.sinks.map Prod.fst).forM Sink.drop) d' back () e ∧
    course = front ++ back

section Opening

theorem ends_openBus {r : Except Failure (Bus Sink)} (h : Ends mayFail o.openBus d course r e) :
    (∃ file f, o.events = some file ∧ r = .error (.file file f) ∧
      course = [(.hold eventsHandle (.ofText file), .error f)] ∧ e = d) ∨
    r = .ok (busOf o.sinks) ∧ o.Opens d course e := by
  unfold openBus at h
  cases ho : o.events with
  | none =>
    rw [ho] at h
    obtain ⟨rfl, rfl, rfl⟩ := Ends.of_done h
    exact Or.inr ⟨by simp [sinks, ho], by simp [Opens, ho]⟩
  | some file =>
    rw [ho] at h
    obtain ⟨res, d', rest, hg, rfl, hrest⟩ := Ends.of_change h
    cases res with
    | error f =>
      obtain ⟨rfl, rfl, rfl⟩ := Ends.of_done hrest
      have hd : e = d := hg.error_eq fun b hb => by cases hb
      rw [Path.text_ofText]
      exact Or.inl ⟨file, f, rfl, rfl, rfl, hd⟩
    | ok u =>
      obtain ⟨rfl, rfl, rfl⟩ := Ends.of_done hrest
      refine Or.inr ⟨by simp [sinks, ho], ?_⟩
      rw [Opens, ho]
      exact ⟨rfl, hg.ok_apply⟩

theorem Opens.sameFolders (h : o.Opens d course e) : Disk.SameFolders d e := by
  unfold Opens at h
  cases ho : o.events with
  | none =>
    rw [ho] at h
    exact h.2 ▸ Disk.SameFolders.refl d
  | some file =>
    rw [ho] at h
    exact Change.sameFolders_apply (c := .hold eventsHandle (.ofText file)) h.2

end Opening

section Closing

/-- What is done on a bus once a step has come to its outcome. -/
def close (bus : Bus Sink) (out : Outcome α) : Journaling (Except Failure α × List Char) := do
  let bus ← (bus.emitAll out.events).finishSinks
  bus.drop
  return (out.result, out.output)

theorem run_withBus (o : Options) (step : Script (Outcome α)) (j : Journal) :
    (o.withBus step).run j = o.openBus >>= fun
      | .error f => pure ((.error f, []), j)
      | .ok bus => step >>= fun out => (close bus out).run j := by
  unfold withBus
  rw [Journaling.run_lift_bind]
  refine congrArg (o.openBus >>= ·) (funext fun r => ?_)
  cases r with
  | error f => rfl
  | ok bus => exact Journaling.run_lift_bind _ _ _

theorem run_close (bus : Bus Sink) (out : Outcome α) (j : Journal) :
    (close bus out).run j = (bus.emitAll out.events).finishSinks.run j >>= fun x =>
      x.1.drop >>= fun _ => pure ((out.result, out.output), x.2) := by
  refine (StateT.run_bind _ _ _).trans ?_
  refine congrArg (_ >>= ·) (funext fun x => ?_)
  exact Journaling.run_lift_bind _ _ _

theorem keeps_close {H : Nat → Prop} {ss : List Sink} (hss : ∀ s ∈ ss, s.Under H) (out : Outcome α) :
    (close (busOf ss) out).Keeps (Change.WritesTo H) fun _ => True := by
  have hbus : ∀ s ∈ ((busOf ss).emitAll out.events).sinks, s.Under H := by
    rw [Bus.emitAll_sinks]
    exact hss
  refine (Bus.keeps_finishSinks hbus).bind fun b hb => ?_
  exact (Journaling.Keeps.lift (Bus.keeps_drop hb)).bind fun _ _ => Journaling.Keeps.pure trivial

/-- What waits on a bus that has sinks is all that was emitted. -/
theorem map_requests_busOf (ss : List Sink) (events : List Event) :
    (ss.map fun _ => Bus.requests ((busOf ss).emitAll events).pending) =
      ss.map fun _ => Bus.requests events := by
  cases ss with
  | nil => rfl
  | cons s ss =>
    rw [Bus.emitAll_of_enabled _ _ rfl]
    rfl

theorem served_of_close {ss : List Sink} {out : Outcome α} {r : Except Failure α × List Char}
    (h : Ends (fun _ c => faulty c) ((close (busOf ss) out).run j) d course (r, j') e) :
    r = (out.result, out.output) ∧ Served faulty ss out.events d j course j' e := by
  rw [run_close] at h
  obtain ⟨⟨b, j₁⟩, d', front, rest, hfinish, hrest, rfl⟩ := Ends.of_bind h
  obtain ⟨u, d'', back, last, hdrop, hlast, rfl⟩ := Ends.of_bind hrest
  obtain ⟨hr, rfl, rfl⟩ := Ends.of_done hlast
  obtain ⟨rfl, rfl⟩ := Prod.mk.inj hr
  refine ⟨rfl, ?_⟩
  have hsinks := hfinish.map fun x : Bus Sink × Journal => (x.1.sinks, x.2)
  obtain ⟨asked, happart, hasked⟩ := Journaling.ends_of_splits
    (Bus.splits_finish_unasked ((busOf ss).emitAll out.events)) hsinks
  obtain ⟨hfst, hsnd⟩ := Prod.mk.inj happart
  rw [Bus.emitAll_sinks] at hsnd
  refine ⟨asked, d', front, back, hasked, hsnd.trans (map_requests_busOf ss out.events), ?_, by simp⟩
  rw [hfst]
  exact hdrop

theorem run_bare (o : Options) (step : Script (Outcome α)) (j : Journal) :
    (o.bare.withBus step).run j = (fun out => ((out.result, out.output), j)) <$> step := by
  rw [run_withBus, map_eq_pure_bind]
  change (step >>= fun out => (close (busOf []) out).run j) = _
  refine congrArg (step >>= ·) (funext fun out => ?_)
  rw [run_close, Bus.emitAll_of_disabled _ _ rfl]
  rfl

end Closing

section Apart

variable {step : Script (Outcome α)} {out : Outcome α} {mid : Course} {files : Path → Prop}

/-- The handles under which files are kept open. -/
def Handles (o : Options) (n : Nat) : Prop := o.events ≠ none ∧ n = eventsHandle

theorem under_sinks (o : Options) : ∀ s ∈ o.sinks, s.Under o.Handles := by
  intro s hs
  rcases List.mem_append.1 hs with hlog | hfile
  · unfold logSinks at hlog
    split at hlog
    · cases List.mem_singleton.1 hlog
      trivial
    · cases hlog
  · cases ho : o.events with
    | none => simp [ho] at hfile
    | some file =>
      have hs : s = .jsonLines ⟨eventsHandle, []⟩ := by simpa [ho] using hfile
      subst hs
      exact ⟨by simp [ho], rfl⟩

/-- Without the file of events the step takes the same course, to a disk that differs from the last one
by that file at most. -/
theorem ends_apart {r : Except Failure α × List Char} (ho : o.Opens d opening d₁)
    (hstep : Ends (fun _ c => faulty c) step d₁ mid out d₂)
    (hclose : Ends (fun _ c => faulty c) ((close (busOf o.sinks) out).run j) d₂ closing (r, j') e)
    (hs : step.Uses files) (ha : o.Aside d files) :
    ∃ e', Ends (fun _ c => faulty c) step d mid out e' ∧ e'.SameBut o.eventsPaths e := by
  obtain ⟨-, hframe⟩ := hclose.frame_held (keeps_close o.under_sinks out j).only
  have hfolders := ho.sameFolders
  unfold Opens at ho
  cases hevents : o.events with
  | none =>
    rw [hevents] at ho
    obtain ⟨rfl, rfl⟩ := ho
    exact ⟨d₂, hstep, fun q _ => hframe q fun n hn => absurd hevents hn.1⟩
  | some file =>
    rw [hevents] at ho
    -- Opening the file makes the two disks differ at its place `p`, the step comes near that place on
    -- neither, and what is written at the end goes to the file that is still held open there.
    obtain ⟨p, hp, halike, hlookup⟩ := Disk.alike_of_hold ho.2
    have hpath : Path.ofText file ∈ o.eventsPaths := by simp [eventsPaths, hevents]
    have hnear : ∀ path, files path → ¬ d₁.Near path p := fun path hfile hn =>
      ha _ hpath p hp path hfile (hfolders.near_iff.1 hn)
    obtain ⟨e', hbare, hafter⟩ := hstep.alike hs hnear halike
    have hstill : d₂.held.lookup eventsHandle = some p := hstep.lookup_held hs hnear hlookup
    refine ⟨e', hbare, fun q hq => ?_⟩
    have hne : p ≠ q := by
      rintro rfl
      exact hq _ hpath (by rw [hbare.sameFolders.place?_eq, hp])
    have hq₂ : e.get? q = d₂.get? q := by
      refine hframe q fun n hn => ?_
      rw [hn.2, hstill]
      exact fun he => hne (Option.some.inj he)
    exact hq₂.trans (hafter.same q (Ne.symm hne)).symm

theorem Aside.mono {files' : Path → Prop} (ha : o.Aside d files) (hf : ∀ path, files' path → files path) :
    o.Aside d files' :=
  fun path hpath p hp other hother => ha path hpath p hp other (hf other hother)

/-- What is not near the place of the file of events does not share it. -/
theorem Aside.place?_ne (ha : o.Aside d files) {path other : Path} (hpath : path ∈ o.eventsPaths)
    (hother : files other) {p : Place} (hp : d.place? other = some p) : d.place? path ≠ some p := by
  intro hshared
  exact Disk.ne_of_place? (ha path hpath p hshared other hother) hp rfl

/-- Where every file has a place, it is enough that the file of events has another. -/
theorem aside_of_places (hplain : ∀ path ∈ o.eventsPaths, ∀ p, d.place? path = some p →
      d.get? p ≠ some .directory)
    (hother : ∀ path ∈ o.eventsPaths, ∀ other, files other →
      ∃ q, d.place? other = some q ∧ d.place? path ≠ some q) : o.Aside d files := by
  intro path hpath p hp other hfile
  obtain ⟨q, hq, hne⟩ := hother path hpath other hfile
  refine Disk.not_near_of_place? hq ?_ (hplain path hpath p hp)
  rintro rfl
  exact hne hp

end Apart

section Step

variable {step : Script (Outcome α)} {r : Except Failure α × List Char}

/-- A run on a bus ends where the file of events is refused, or goes through the step to the end of the
bus. -/
theorem ends_withBus (h : Ends mayFail ((o.withBus step).run j) d course (r, j') e) :
    (∃ file f, o.events = some file ∧ r = (.error (.file file f), []) ∧ j' = j ∧ e = d ∧
      course = [(.hold eventsHandle (.ofText file), .error f)]) ∨
    ∃ (opening mid closing : Course) (d₁ d₂ : Disk) (out : Outcome α),
      course = opening ++ mid ++ closing ∧ o.Opens d opening d₁ ∧ Ends mayFail step d₁ mid out d₂ ∧
      Ends mayFail ((close (busOf o.sinks) out).run j) d₂ closing (r, j') e := by
  rw [run_withBus] at h
  obtain ⟨opened, d₁, opening, rest, hopen, hrest, rfl⟩ := Ends.of_bind h
  rcases ends_openBus hopen with ⟨file, f, hfile, rfl, rfl, rfl⟩ | ⟨rfl, ho⟩
  · obtain ⟨hr, rfl, rfl⟩ := Ends.of_done hrest
    obtain ⟨rfl, rfl⟩ := Prod.mk.inj hr
    exact Or.inl ⟨file, f, hfile, rfl, rfl, rfl, rfl⟩
  · obtain ⟨out, d₂, mid, closing, hstep, hclose, rfl⟩ := Ends.of_bind hrest
    exact Or.inr ⟨opening, mid, closing, d₁, d₂, out, by simp, ho, hstep, hclose⟩

theorem ends_bare {mid : Course} {out : Outcome α} (o : Options) (h : Ends mayFail step d mid out e)
    (j : Journal) :
    Ends mayFail ((o.bare.withBus step).run j) d mid ((out.result, out.output), j) e := by
  rw [run_bare]
  exact h.map fun out => ((out.result, out.output), j)

/-- A step on a bus: either the file of events is refused, which is the result, and nothing has been
touched; or the step runs to its outcome and its result is handed on, the sinks are served, and without any
sinks the step does the same and leaves the same but for the file of events, as long as this is not on the
way to a file of the workspace or to one that the step uses. -/
theorem withBus_transparent
    (h : Ends (fun _ c => faulty c) ((o.withBus step).run j) d course (r, j') e) :
    (∃ file f, o.events = some file ∧ r = (.error (.file file f), []) ∧ j' = j ∧ e = d ∧
      course = [(.hold eventsHandle (.ofText file), .error f)]) ∨
    ∃ (opening mid closing : Course) (d₁ d₂ : Disk) (out : Outcome α),
      course = opening ++ mid ++ closing ∧ o.Opens d opening d₁ ∧
      Ends (fun _ c => faulty c) step d₁ mid out d₂ ∧ r = (out.result, out.output) ∧
      Served faulty o.sinks out.events d₂ j closing j' e ∧
      ∀ (w : Workspace) (used : Path → Prop), step.Uses used →
        o.Aside d (fun path => w.Contains path ∨ used path) →
        ∃ e', Ends (fun _ c => faulty c) ((o.bare.withBus step).run j) d mid (r, j) e' ∧
          (∀ path, w.Contains path → e'.look path = e.look path) ∧ e'.SameBut o.eventsPaths e := by
  refine (ends_withBus h).imp_right ?_
  rintro ⟨opening, mid, closing, d₁, d₂, out, hcourse, ho, hstep, hclose⟩
  obtain ⟨rfl, hserved⟩ := served_of_close hclose
  refine ⟨opening, mid, closing, d₁, d₂, out, hcourse, ho, hstep, rfl, hserved, ?_⟩
  intro w used hs ha
  obtain ⟨e', hbare, hsame⟩ := ends_apart ho hstep hclose hs (ha.mono fun _ => Or.inr)
  have hfolders : Disk.SameFolders e' e := hbare.sameFolders.symm.trans h.sameFolders
  refine ⟨e', ends_bare o hbare j, fun path hpath => ?_, hsame⟩
  refine (hsame.look hfolders fun p hp other hother => ?_).symm
  rw [hbare.sameFolders.place?_eq] at hp ⊢
  exact ha.place?_ne hother (Or.inl hpath) hp

/-- A log and a file of events beside the files of a workspace. -/
def loudOptions : Options := { workdir := "/r", events := some "/r/events", verbose := true }

/-- A disk on which the comparison fails. -/
def unequalDisk : Disk := topDisk [("matrix_in", .file [50, 10]), ("matrix_out", .file [49, 10])]

theorem aside_loudOptions :
    loudOptions.Aside unequalDisk fun path => top.Contains path ∨ top.Contains path := by
  refine aside_of_places ?_ ?_
  · decide +kernel
  · rintro path hpath other hother
    obtain rfl := List.mem_singleton.1 hpath
    obtain ⟨s, hs⟩ : top.Contains other := by simpa using hother
    rcases hs with rfl | rfl
    · cases s <;> exact ⟨_, rfl, by decide +kernel⟩
    · cases s <;> exact ⟨_, rfl, by decide +kernel⟩

theorem withBus_transparent_unequal :
    ∃ (course mid : Course) (j : Journal) (e e' : Disk),
      Ends (fun _ _ => False) ((loudOptions.withBus (Compare.run top 0.5)).run {}) unequalDisk
        course ((.error (.toleranceExceeded 1 0.5), []), j) e ∧
      j.log = [.ofEvent .info (Compare.compared 1 0.5 false)] ∧
      e.look (.ofText "/r/events") =
        some (.file (Text.encode ((Compare.compared 1 0.5 false).json ++ ['\n']))) ∧
      (Compare.run top 0.5).Uses top.Contains ∧
      Ends (fun _ _ => False) ((loudOptions.bare.withBus (Compare.run top 0.5)).run {})
        unequalDisk mid ((.error (.toleranceExceeded 1 0.5), []), {}) e' ∧
      (∀ path, top.Contains path → e'.look path = e.look path) ∧
      e'.SameBut loudOptions.eventsPaths e := by
  let run := ((loudOptions.withBus (Compare.run top 0.5)).run {}).run unequalDisk
  have hresult : run.1 = ((.error (.toleranceExceeded 1 0.5), []),
      { log := [.ofEvent .info (Compare.compared 1 0.5 false)] }) := by decide +kernel
  have hfile : run.2.look (.ofText "/r/events") =
      some (.file (Text.encode ((Compare.compared 1 0.5 false).json ++ ['\n']))) := by decide +kernel
  obtain ⟨course, h⟩ : ∃ course, Ends (fun _ _ => False)
      ((loudOptions.withBus (Compare.run top 0.5)).run {}) unequalDisk course run.1 run.2 :=
    ends_run _ _
  rw [hresult] at h
  have hs := Compare.uses_run top 0.5
  rcases withBus_transparent h with ⟨file, f, -, hr, -⟩ | hdone
  · cases hr
  · obtain ⟨opening, mid, closing, d₁, d₂, out, -, -, -, -, -, hbare⟩ := hdone
    obtain ⟨e', hruns, hlook, hsame⟩ := hbare top _ hs aside_loudOptions
    exact ⟨course, mid, _, run.2, e', h, rfl, hfile, hs, hruns, hlook, hsame⟩

/-- A file of events where the directory of the workspace is missing. -/
def lostOptions : Options := { workdir := "/x", events := some "/x" }

/-- It is not enough that the file of events is none of the files of the workspace: it can be made where
their directory should be, and then another fault is found. -/
theorem not_transparent_of_distinct :
    ¬ ∀ (o : Options) (w : Workspace) (d : Disk) (j : Journal) (step : Script (Outcome Float)),
      step.Uses w.Contains →
      (∀ path ∈ o.eventsPaths, (∃ e, d.hold eventsHandle path = .ok e) ∧
        ∀ other, w.Contains other → other ≠ path ∧ ∀ p, d.place? path = some p → d.place? other ≠ some p) →
      (((o.withBus step).run j).run d).1.1 = (((o.bare.withBus step).run j).run d).1.1 := by
  intro h
  let w : Workspace := ({} : Settings).workspace (.ofText "/x")
  have hdistinct : ∀ path ∈ lostOptions.eventsPaths,
      (∃ e, (⟨[], [], []⟩ : Disk).hold eventsHandle path = .ok e) ∧ ∀ other, w.Contains other →
        other ≠ path ∧ ∀ p, (⟨[], [], []⟩ : Disk).place? path = some p →
          (⟨[], [], []⟩ : Disk).place? other ≠ some p := by
    intro path hpath
    obtain rfl := List.mem_singleton.1 hpath
    refine ⟨⟨_, rfl⟩, ?_⟩
    rintro other ⟨s, rfl | rfl⟩
    · cases s <;> decide +kernel
    · cases s <;> decide +kernel
  have hsame := h lostOptions w ⟨[], [], []⟩ {} _ (Compare.uses_run w 0.5) hdistinct
  have hwith : (((lostOptions.withBus (Compare.run w 0.5)).run {}).run ⟨[], [], []⟩).1.1 =
      (.error (.file "/x/matrix_in" .notADirectory), []) := by decide +kernel
  have hbare : (((lostOptions.bare.withBus (Compare.run w 0.5)).run {}).run ⟨[], [], []⟩).1.1 =
      (.error (.file "/x/matrix_in" .notFound), []) := by decide +kernel
  rw [hwith, hbare] at hsame
  cases hsame

end Step

end Options

namespace Command

open Options

variable {α : Type} {faulty : Change → Prop} {o : Options} {d e : Disk} {course : Course} {j j' : Journal}
  {answer : Answer}

/-- The answer of a command from the result of its step. -/
def answerOf (r : Except Failure α × List Char) : Answer := ⟨r.2, r.1.map fun _ => ()⟩

theorem run_conclude (remark : α → List String) (r : Except Failure α × List Char) (j : Journal) :
    ∃ j', (conclude remark r).run j = pure (answerOf r, j') := by
  unfold conclude
  obtain ⟨result, output⟩ := r
  cases result with
  | error f => exact ⟨j, rfl⟩
  | ok a =>
    dsimp only
    generalize remark a = texts
    induction texts generalizing j with
    | nil => exact ⟨j, rfl⟩
    | cons text texts ih => exact ih (j.say (.remark text))

/-- The answer is that the file of events is refused, or it can be given without sinks too, and with the
same disk but for that file. -/
def AnswersBare (faulty : Change → Prop) (o : Options) (d : Disk) (answer : Answer) (e : Disk)
    (bare : Journaling Answer) : Prop :=
  (∃ file f, o.events = some file ∧ answer = ⟨[], .error (.file file f)⟩ ∧ e = d) ∨
  ∀ j, ∃ course j' e', Ends (fun _ c => faulty c) (bare.run j) d course (answer, j') e' ∧
    e'.SameBut o.eventsPaths e

theorem answersBare_conclude {step : Script (Outcome α)} {remark : α → List String} {files : Path → Prop}
    (h : Ends (fun _ c => faulty c) ((o.withBus step >>= conclude remark).run j) d course (answer, j') e)
    (hs : step.Uses files) (ha : o.Aside d files) :
    AnswersBare faulty o d answer e (o.bare.withBus step >>= conclude remark) := by
  rw [StateT.run_bind] at h
  obtain ⟨⟨r, j₁⟩, d', front, back, hbus, hlast, -⟩ := Ends.of_bind h
  obtain ⟨j₂, hconclude⟩ := run_conclude remark r j₁
  rw [hconclude] at hlast
  obtain ⟨hanswer, -, rfl⟩ := Ends.of_done hlast
  obtain ⟨rfl, -⟩ := Prod.mk.inj hanswer
  rcases ends_withBus hbus with ⟨file, f, hfile, rfl, -, rfl, -⟩ | hran
  · exact Or.inl ⟨file, f, hfile, rfl, rfl⟩
  · obtain ⟨opening, mid, closing, d₁, d₂, out, -, ho, hstep, hclose⟩ := hran
    obtain ⟨rfl, -⟩ := served_of_close hclose
    obtain ⟨e', hbare, hsame⟩ := ends_apart ho hstep hclose hs ha
    refine Or.inr fun j => ?_
    obtain ⟨j₃, hconclude'⟩ := run_conclude remark (out.result, out.output) j
    refine ⟨mid ++ [], j₃, e', ?_, hsame⟩
    rw [StateT.run_bind]
    refine (ends_bare o hbare j).bind ?_
    rw [hconclude']
    exact .here _ e'

theorem only_loadSettings (o : Options) : o.loadSettings.Only fun _ => False := by
  unfold loadSettings
  cases o.config with
  | none => trivial
  | some file => exact (Workspace.only_readText (.ofText file)).bind fun _ => trivial

theorem answersBare_withSettings {f g : Settings → Journaling Answer}
    (h : Ends (fun _ c => faulty c) ((withSettings o f).run j) d course (answer, j') e)
    (hf : ∀ s course, (o.loadSettings.run d).1 = .ok s →
      Ends (fun _ c => faulty c) ((f s).run j) d course (answer, j') e →
      AnswersBare faulty o d answer e (g s)) :
    AnswersBare faulty o d answer e (withSettings o.bare g) := by
  unfold withSettings at h ⊢
  rw [Journaling.run_lift_bind] at h
  obtain ⟨loaded, d', front, back, hload, hrest, -⟩ := Ends.of_bind h
  obtain ⟨rfl, rfl, hsees⟩ := hload.of_idle (only_loadSettings o)
  cases loaded with
  | error g =>
    obtain ⟨hanswer, -, rfl⟩ := Ends.of_done hrest
    obtain ⟨rfl, -⟩ := Prod.mk.inj hanswer
    refine Or.inr fun j => ⟨[] ++ [], j, e, ?_, Disk.SameBut.refl e _⟩
    rw [Journaling.run_lift_bind]
    exact hload.bind (.here _ e)
  | ok s =>
    refine (hf s back hsees.symm hrest).imp_right fun hbare j => ?_
    obtain ⟨course, j₁, e', hends, hsame⟩ := hbare j
    refine ⟨[] ++ course, j₁, e', ?_, hsame⟩
    rw [Journaling.run_lift_bind]
    exact hload.bind hends

/-- A command answers as it would without sinks, unless the file of events is refused. -/
theorem answers_bare {input : Bytes} {entropy : UInt64} {c : Command}
    (h : Ends (fun _ c => faulty c) ((run o input entropy c).run j) d course (answer, j') e)
    (ha : ∀ s, (o.loadSettings.run d).1 = .ok s → o.Aside d (o.workspace s).Contains) :
    AnswersBare faulty o d answer e (run o.bare input entropy c) := by
  cases c with
  | svd thin =>
    refine answersBare_withSettings h fun s course hs h => ?_
    exact answersBare_conclude h (Decompose.uses_runWith Svd.decompose input _ _) (ha s hs)
  | mult =>
    refine answersBare_withSettings h fun s course hs h => ?_
    exact answersBare_conclude h (Recompose.uses_run _) (ha s hs)
  | cmp =>
    refine answersBare_withSettings h fun s course hs h => ?_
    exact answersBare_conclude h (Compare.uses_run _ _) (ha s hs)
  | subtract =>
    refine answersBare_withSettings h fun s course hs h => ?_
    exact answersBare_conclude h (Descent.uses_run _ _ _) (ha s hs)
  | gen size seed =>
    have hnone : o.Aside d fun _ => False := fun _ _ _ _ _ hfile => hfile.elim
    have huses : Script.Uses (fun _ => False) (pure (Generate.seeded size (seed.getD entropy))) := trivial
    exact answersBare_conclude h huses hnone
  | validate path =>
    change Ends _ (check (.ofText path) >>= fun a => pure (a, j)) d course (answer, j') e at h
    obtain ⟨a, d', front, back, hcheck, hlast, -⟩ := Ends.of_bind h
    obtain ⟨hanswer, -, rfl⟩ := Ends.of_done hlast
    obtain ⟨rfl, -⟩ := Prod.mk.inj hanswer
    exact Or.inr fun j => ⟨front ++ [], j, e, hcheck.bind (.here _ e), Disk.SameBut.refl e _⟩

end Command

end NumericSteps
