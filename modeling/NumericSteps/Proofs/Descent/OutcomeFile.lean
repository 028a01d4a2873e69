import NumericSteps.Proofs.Descent.Call

namespace NumericSteps.Descent

open Script Text Workspace

/-- The files by which the outcomes are told apart. -/
def outcomeSlots : List Slot := [.approxNew, .solution]

/-- The caller has put other inputs in place. -/
structure Feeds (w : Workspace) (d e : Disk) : Prop where
  folders : Disk.SameFolders d e
  same : d.SameBut [w.path .approxOld, w.path .grad] e

/-- A call on inputs that the caller has put in place, which ends with the outcome after the course. -/
def Fed (mayFail : Disk → Change → Prop) (w : Workspace) (call : Course × Outcome Descent)
    (d e : Disk) : Prop :=
  ∃ d' threshold rate, Feeds w d d' ∧ Ends mayFail (run w threshold rate) d' call.1 call.2 e

/-- Only a file may stand at the path. -/
def Clear (d : Disk) (path : Path) : Prop := ∀ x, d.look path = some x → ∃ b, x = .file b

variable {mayFail : Disk → Change → Prop} {w : Workspace} {d d₁ e : Disk} {s : Slot}
  {call : Course × Outcome Descent} {calls before : List (Course × Outcome Descent)}
  {step : Descent} {course : Course}

theorem Clear.of_look_eq {path : Path} (h : Clear d path) (he : e.look path = d.look path) :
    Clear e path := by
  unfold Clear
  rw [he]
  exact h

theorem Feeds.look (hs : w.names.Sound) (h : Feeds w d e) (hm : s ∈ outcomeSlots) :
    e.look (w.path s) = d.look (w.path s) := by
  have hinput : ∀ s ∈ outcomeSlots, s ∉ [Slot.approxOld, .grad] := by decide
  exact look_eq_of_other (hs.plain s) h.same h.folders (others_of_not_mem hs (hinput s hm))

theorem Marked.isFile (hs : w.names.Sound) (h : Marked w step d course e)
    (hd : Disk.SameFolders d e) (hm : s ∈ outcomeSlots) (hc : Clear d (w.path s)) :
    Clear e (w.path s) ∧
      (e.isFile (w.path s) = true ↔ d.isFile (w.path s) = true ∨ course.Opens (w.path s)) := by
  by_cases he : s = step.slot
  · subst he
    have hopens : course.Opens (w.path step.slot) := (h.opens _).2 rfl
    rcases h.file with ⟨full, hdev⟩ | ⟨b, hb⟩
    · obtain ⟨b, hb⟩ := hc _ hdev
      cases hb
    · refine ⟨?_, iff_of_true ((isFile_path hs).2 ⟨b, hb⟩) (Or.inr hopens)⟩
      intro x hx
      rw [hb] at hx
      exact ⟨b, (Option.some.inj hx).symm⟩
  · have hlog : ∀ s ∈ outcomeSlots, s ≠ .approxLog := by decide
    have hnot : s ∉ [step.slot, .approxLog] := by simp [he, hlog s hm]
    have hkept : e.look (w.path s) = d.look (w.path s) :=
      look_eq_of_other (hs.plain s) h.same hd (others_of_not_mem hs hnot)
    have hopens : ¬ course.Opens (w.path s) := fun ho => he (path_inj hs ((h.opens _).1 ho))
    refine ⟨hc.of_look_eq hkept, ?_⟩
    rw [isFile_path hs, isFile_path hs, hkept, or_iff_left hopens]

/-- A call leaves an outcome file where one was, and makes the one that it opens. -/
theorem Fed.isFile (hs : w.names.Sound) (h : Fed mayFail w call d e) (hm : s ∈ outcomeSlots)
    (hc : Clear d (w.path s)) : Clear e (w.path s) ∧
      (e.isFile (w.path s) = true ↔ d.isFile (w.path s) = true ∨ call.1.Opens (w.path s)) := by
  obtain ⟨d', threshold, rate, hfeeds, hrun⟩ := h
  have hlook := hfeeds.look hs hm
  have hc' : Clear d' (w.path s) := hc.of_look_eq hlook
  have hfile : d'.isFile (w.path s) = true ↔ d.isFile (w.path s) = true := by
    rw [isFile_path hs, isFile_path hs, hlook]
  rw [← hfile]
  rcases ends_run_marked hs hrun with ⟨-, rfl, hnot⟩ | ⟨step, hmarked, -⟩
  · exact ⟨hc', (or_iff_left (hnot _)).symm⟩
  · exact hmarked.isFile hs hrun.sameFolders hm hc'

theorem isFile_of_calls (hs : w.names.Sound) (h : Calls (Fed mayFail w) d calls e)
    (hm : s ∈ outcomeSlots) (hc : Clear d (w.path s)) :
    Clear e (w.path s) ∧ (e.isFile (w.path s) = true ↔
      d.isFile (w.path s) = true ∨ ∃ call ∈ calls, call.1.Opens (w.path s)) := by
  induction h with
  | nil d => exact ⟨hc, by simp⟩
  | cons hcall _ ih =>
    obtain ⟨hclear, hfile⟩ := hcall.isFile hs hm hc
    obtain ⟨hend, hrest⟩ := ih hclear
    refine ⟨hend, ?_⟩
    rw [hrest, hfile, List.exists_mem_cons_iff, or_assoc]

theorem Fed.opens_iff (hs : w.names.Sound) (h : Fed mayFail w call d e)
    (hok : call.2.result = .ok step) : call.1.Opens (w.path s) ↔ s = step.slot := by
  obtain ⟨d', threshold, rate, -, hrun⟩ := h
  rcases ends_run_marked hs hrun with ⟨⟨g, hg⟩, -, -⟩ | ⟨step', hmarked, hstep⟩
  · rw [hok] at hg
    cases hg
  · obtain rfl := hstep step hok
    rw [hmarked.opens]
    exact ⟨path_inj hs, fun he => he ▸ rfl⟩

/-- From a start without outcome files, they tell the outcome of a call that works exactly if none of
the calls before it has made the file of the other outcome. -/
theorem tells_outcome_iff (hw : w.names = {}) (hd : ∀ s ∈ outcomeSlots, d.look (w.path s) = none)
    (hbefore : Calls (Fed mayFail w) d before d₁) (hlast : Fed mayFail w call d₁ e)
    (hok : call.2.result = .ok step) :
    (∀ s ∈ outcomeSlots, (e.isFile (w.path s) = true ↔ s = step.slot)) ↔
      ∀ c ∈ before, ∀ s ∈ outcomeSlots, c.1.Opens (w.path s) → s = step.slot := by
  have hs : w.names.Sound := sound_default hw
  have hfile : ∀ s ∈ outcomeSlots, (e.isFile (w.path s) = true ↔
      (∃ c ∈ before, c.1.Opens (w.path s)) ∨ s = step.slot) := by
    intro s hm
    have hclear : Clear d (w.path s) := by
      intro x hx
      rw [hd s hm] at hx
      cases hx
    have hnone : ¬ d.isFile (w.path s) = true := by
      rw [isFile_path hs, hd s hm]
      simp
    obtain ⟨hclear₁, hbefore₁⟩ := isFile_of_calls hs hbefore hm hclear
    rw [(hlast.isFile hs hm hclear₁).2, hbefore₁, or_iff_right hnone, hlast.opens_iff hs hok]
  constructor
  · intro htells c hc s hm ho
    exact (htells s hm).1 ((hfile s hm).2 (Or.inl ⟨c, hc, ho⟩))
  · intro hnone s hm
    rw [hfile s hm]
    constructor
    · rintro (⟨c, hc, ho⟩ | he)
      · exact hnone c hc s hm ho
      · exact he
    · exact Or.inr

theorem Feeds.refl (w : Workspace) (d : Disk) : Feeds w d d :=
  ⟨Disk.SameFolders.refl d, Disk.SameBut.refl d _⟩

theorem feeds_grad (w : Workspace) (d : Disk) (g : Bytes) :
    Feeds w d ((writeFile (w.path .grad) [g]).run d).2 := by
  obtain ⟨course, h⟩ : ∃ course, Ends (fun _ _ => False) (writeFile (w.path .grad) [g]) d course
      ((writeFile (w.path .grad) [g]).run d).1 ((writeFile (w.path .grad) [g]).run d).2 :=
    Script.ends_run _ d
  exact ⟨h.sameFolders, h.sameBut (only_writeFile (by simp) _)⟩

theorem fed_run (h : Feeds w d d₁) (threshold rate : Float) :
    ∃ course, Fed mayFail w (course, ((run w threshold rate).run d₁).1) d
      ((run w threshold rate).run d₁).2 := by
  obtain ⟨course, hrun⟩ := Script.ends_run (run w threshold rate) d₁
  exact ⟨course, d₁, threshold, rate, h, hrun⟩

/-- A disk on which the approximation and the gradient are one. -/
def oneDisk : Disk := topDisk [("approx_old", .file [49, 10]), ("grad", .file [49, 10])]

/-- The disk after a call has moved on. -/
def movedDisk : Disk := ((run top 0.5 0.25).run oneDisk).2

theorem tells_outcome_twice :
    top.names = {} ∧ (∀ s ∈ outcomeSlots, oneDisk.look (top.path s) = none) ∧
      ∃ before call e, Calls (Fed (fun _ _ => False) top) oneDisk [before] movedDisk ∧
        Fed (fun _ _ => False) top call movedDisk e ∧ call.2.result = .ok (.moved 1 0.75) ∧
        ∀ s ∈ outcomeSlots, (e.isFile (top.path s) = true ↔ s = .approxNew) := by
  have hd : ∀ s ∈ outcomeSlots, oneDisk.look (top.path s) = none := by decide
  obtain ⟨course, hfirst⟩ := fed_run (Feeds.refl top oneDisk) 0.5 0.25
  obtain ⟨course', hlast⟩ := fed_run (Feeds.refl top movedDisk) 0.5 0.25
  have hmoved : ((run top 0.5 0.25).run oneDisk).1.result = .ok (.moved 1 0.75) := by decide +kernel
  have hok : ((run top 0.5 0.25).run movedDisk).1.result = .ok (.moved 1 0.75) := by decide +kernel
  have hbefore : Calls (Fed (fun _ _ => False) top) oneDisk
      [(course, ((run top 0.5 0.25).run oneDisk).1)] movedDisk := .cons hfirst (.nil _)
  refine ⟨rfl, hd, _, _, _, hbefore, hlast, hok, ?_⟩
  apply (tells_outcome_iff rfl hd hbefore hlast hok).2
  intro c hc s _ ho
  rw [List.mem_singleton] at hc
  subst hc
  exact (hfirst.opens_iff (sound_default rfl) hmoved).1 ho

/-- After a move and then a call that has converged, both files are there. -/
theorem not_tells_outcome :
    ¬ ∀ (w : Workspace) (d d₁ e : Disk) (before : List (Course × Outcome Descent))
      (call : Course × Outcome Descent) (step : Descent), w.names = {} →
      (∀ s ∈ outcomeSlots, d.look (w.path s) = none) → Calls (Fed (fun _ _ => False) w) d before d₁ →
      Fed (fun _ _ => False) w call d₁ e → call.2.result = .ok step →
      ∀ s ∈ outcomeSlots, (e.isFile (w.path s) = true ↔ s = step.slot) := by
  intro h
  have hd : ∀ s ∈ outcomeSlots, oneDisk.look (top.path s) = none := by decide
  obtain ⟨course, hfirst⟩ := fed_run (Feeds.refl top oneDisk) 0.5 0.25
  obtain ⟨course', hlast⟩ := fed_run (feeds_grad top movedDisk [48, 10]) 0.5 0.25
  have hok : ((run top 0.5 0.25).run
      ((writeFile (top.path .grad) [[48, 10]]).run movedDisk).2).1.result = .ok (.converged 1) := by
    decide +kernel
  have htells := h top oneDisk movedDisk _ _ _ _ rfl hd (.cons hfirst (.nil _)) hlast hok
  have hleft : ((run top 0.5 0.25).run
      ((writeFile (top.path .grad) [[48, 10]]).run movedDisk).2).2.isFile (top.path .approxNew) = true := by
    decide +kernel
  exact absurd ((htells .approxNew (by decide)).1 hleft) (by decide)

end NumericSteps.Descent
