import NumericSteps.Proofs.Workspace.AllOrNone
import NumericSteps.Step.Decompose

namespace NumericSteps

namespace Workspace

open Text

variable {w : Workspace} {d e e' : Disk} {r : Place}

/-- The staging files of the slots move onto their names, one after the other. -/
def movedAll (w : Workspace) (ss : List Slot) (F : String → Option Node) : String → Option Node :=
  ss.foldl (fun G s => w.moved s G) F

theorem run_takeOver_ok (hs : w.names.Sound) {ss : List Slot}
    (hk : ∀ s ∈ ss, e.Names (w.stagingPath s) (r ++ [stagingName (w.names.name s)]))
    (h : (w.takeOver ss).run e = (.ok (), e')) :
    Disk.Inside r e e' ∧ e'.folder r = w.movedAll ss (e.folder r) := by
  induction ss generalizing e with
  | nil =>
    cases h
    exact ⟨Disk.Inside.refl r _, rfl⟩
  | cons s ss ih =>
    have hp := hk s List.mem_cons_self
    have hq : e.Names (w.path s) (r ++ [w.names.name s]) := names_of_staging (hs.plain s) hp
    rw [takeOver, Script.run] at h
    cases ha : e.rename (w.stagingPath s) (w.path s) with
    | error f =>
      rw [Change.perform_error (c := .rename _ _) ha] at h
      cases h
    | ok f =>
      rw [Change.perform_ok (c := .rename _ _) ha] at h
      obtain ⟨x, hx, hd, hd', rfl⟩ := hp.rename_ok hq ha
      have hi : Disk.Inside r e
          (e.move (r ++ [stagingName (w.names.name s)]) (r ++ [w.names.name s]) x) :=
        Disk.inside_move hd (by rw [Disk.folder, hx]; simpa using hd) hd'
      obtain ⟨hin, hfold⟩ := ih
        (fun t ht => (hk t (List.mem_cons_of_mem _ ht)).of_sameFolders hi.folders) h
      refine ⟨hi.trans hin, ?_⟩
      rw [hfold, folder_moved hx]
      rfl

section

variable {ss : List Slot} {F : String → Option Node} {n : String}

theorem moved_other {s : Slot} (hn : n ≠ w.names.name s)
    (hs : n ≠ stagingName (w.names.name s)) : w.moved s F n = F n := by
  rw [moved, Function.update_of_ne hn, Function.update_of_ne hs]

theorem movedAll_other (hn : ∀ s ∈ ss, n ≠ w.names.name s)
    (hs : ∀ s ∈ ss, n ≠ stagingName (w.names.name s)) : w.movedAll ss F n = F n := by
  induction ss generalizing F with
  | nil => rfl
  | cons s ss ih =>
    change w.movedAll ss (w.moved s F) n = F n
    rw [ih (fun t ht => hn t (List.mem_cons_of_mem _ ht))
      (fun t ht => hs t (List.mem_cons_of_mem _ ht)),
      moved_other (hn s List.mem_cons_self) (hs s List.mem_cons_self)]

theorem moved_none {s : Slot} (hn : n ≠ w.names.name s)
    (h : F n = none ∨ n = stagingName (w.names.name s)) : w.moved s F n = none := by
  rw [moved, Function.update_of_ne hn]
  by_cases hs : n = stagingName (w.names.name s)
  · rw [hs, Function.update_self]
  · rw [Function.update_of_ne hs]
    exact h.resolve_right hs

/-- The name of a staging file is free in the end, unless one of the files has it. -/
theorem movedAll_none (hn : ∀ s ∈ ss, n ≠ w.names.name s)
    (h : F n = none ∨ ∃ s ∈ ss, n = stagingName (w.names.name s)) : w.movedAll ss F n = none := by
  induction ss generalizing F with
  | nil => exact h.resolve_right (by simp)
  | cons s ss ih =>
    have hs := hn s List.mem_cons_self
    refine ih (F := w.moved s F) (fun t ht => hn t (List.mem_cons_of_mem _ ht)) ?_
    rcases h with h | ⟨t, ht, he⟩
    · exact Or.inl (moved_none hs (Or.inl h))
    · rcases List.mem_cons.1 ht with rfl | ht
      · exact Or.inl (moved_none hs (Or.inr he))
      · exact Or.inr ⟨t, ht, he⟩

/-- No slot has the name of the staging file of a later one. -/
def Ordered (w : Workspace) (ss : List Slot) : Prop :=
  ss.Pairwise fun s t => w.names.name s ≠ stagingName (w.names.name t)

theorem movedAll_name (hs : w.names.Sound) (hd : ss.Nodup) (ho : w.Ordered ss) {s : Slot}
    (hm : s ∈ ss) : w.movedAll ss F (w.names.name s) = F (stagingName (w.names.name s)) := by
  induction ss generalizing F with
  | nil => cases hm
  | cons t ss ih =>
    rw [List.nodup_cons] at hd
    obtain ⟨hto, ho⟩ := List.pairwise_cons.1 ho
    change w.movedAll ss (w.moved t F) (w.names.name s) = _
    rcases List.mem_cons.1 hm with rfl | hm
    · rw [movedAll_other (fun u hu => hs.name_ne hd.1 hu) hto, moved, Function.update_self]
    · rw [ih hd.2 ho hm, moved_other (hto s hm).symm]
      exact fun he => hs.name_ne hd.1 hm (stagingName_inj he).symm

theorem ordered_of_movedAll (hs : w.names.Sound) (hd : ss.Nodup)
    (h : ∀ s ∈ ss, w.movedAll ss F (w.names.name s) ≠ none) : w.Ordered ss := by
  induction ss generalizing F with
  | nil => exact List.Pairwise.nil
  | cons s ss ih =>
    rw [List.nodup_cons] at hd
    refine List.pairwise_cons.2 ⟨?_, ih (F := w.moved s F) hd.2 fun t ht =>
      h t (List.mem_cons_of_mem _ ht)⟩
    intro t ht he
    refine h s List.mem_cons_self ?_
    change w.movedAll ss (w.moved s F) _ = none
    exact movedAll_none (fun u hu => hs.name_ne hd.1 hu) (Or.inr ⟨t, ht, he⟩)

end

theorem look_eq_of_folder {n : String} (hn : Plain n) (hd : w.seat d = .ok r)
    (hi : Disk.SameFolders d e) (h : e.folder r n = d.folder r n) :
    e.look (w.file n) = d.look (w.file n) := by
  rw [hi.look_eq, Disk.look]
  cases hp : d.place? (w.file n) with
  | none => rfl
  | some p =>
    obtain ⟨_, q, hq, _, rfl⟩ := (names_file hn).1 ((place?_file hn).1 hp)
    rw [hd] at hq
    cases hq
    exact h

variable {entries : List (Slot × Matrix Float)}

theorem writeMatrices_ok (h : (w.writeMatrices entries).run d = (.ok (), e')) :
    ∃ e, (w.stage [] entries).run d = (.ok (), e) ∧
      (w.takeOver (entries.map Prod.fst)).run e = (.ok (), e') := by
  rw [writeMatrices, Script.run_bind] at h
  rcases hs : (w.stage [] entries).run d with ⟨res, e⟩
  rw [hs] at h
  cases res with
  | error f => cases h
  | ok u => exact ⟨e, rfl, h⟩

/-- What writing matrices as one unit with success comes to, where `F` stands in the directory once
all are staged. -/
structure Written (w : Workspace) (r : Place) (d : Disk) (entries : List (Slot × Matrix Float))
    (F : String → Option Node) (e : Disk) : Prop where
  inside : Disk.Inside r d e
  staged : w.Staged entries (d.folder r) F
  names : ∀ s ∈ entries.map Prod.fst,
    d.Names (w.stagingPath s) (r ++ [stagingName (w.names.name s)])
  folder : e.folder r = w.movedAll (entries.map Prod.fst) F

theorem writeMatrices_written (hs : w.names.Sound) (hr : w.Regular d) (hd : w.seat d = .ok r)
    (hn : (entries.map Prod.fst).Nodup) (h : (w.writeMatrices entries).run d = (.ok (), e')) :
    ∃ F, w.Written r d entries F e' := by
  obtain ⟨e, hstage, htake⟩ := writeMatrices_ok h
  obtain ⟨hin, hst, hnames⟩ := run_stage_ok hs hr hd hn hstage
  have hk : ∀ s ∈ entries.map Prod.fst,
      d.Names (w.stagingPath s) (r ++ [stagingName (w.names.name s)]) :=
    List.forall_mem_map.2 hnames
  obtain ⟨hin', hfold⟩ :=
    run_takeOver_ok hs (fun s hm => (hk s hm).of_sameFolders hin.folders) htake
  exact ⟨e.folder r, hin.trans hin', hst, hk, hfold⟩

namespace Written

variable {F : String → Option Node} {s : Slot}

theorem look_path (h : w.Written r d entries F e') (hs : w.names.Sound)
    (hm : s ∈ entries.map Prod.fst) :
    e'.look (w.path s) = w.movedAll (entries.map Prod.fst) F (w.names.name s) := by
  have hp : d.Names (w.path s) (r ++ [w.names.name s]) :=
    names_of_staging (hs.plain s) (h.names s hm)
  rw [(hp.of_sameFolders h.inside.folders).look, ← h.folder]
  rfl

/-- What has the name of a staging file is gone in the end. -/
theorem look_gone (h : w.Written r d entries F e') (hs : w.names.Sound)
    (hm : s ∉ entries.map Prod.fst)
    (hc : ∃ t ∈ entries.map Prod.fst, w.names.name s = stagingName (w.names.name t)) :
    e'.look (w.path s) = none := by
  obtain ⟨t, ht, he⟩ := hc
  have hp : d.Names (w.path s) (r ++ [w.names.name s]) := by
    rw [path_eq, he]
    exact h.names t ht
  rw [(hp.of_sameFolders h.inside.folders).look]
  change e'.folder r (w.names.name s) = none
  rw [h.folder]
  exact movedAll_none (fun u hu => hs.name_ne hm hu) (Or.inr ⟨t, ht, he⟩)

theorem look_other (h : w.Written r d entries F e') (hs : w.names.Sound) (hd : w.seat d = .ok r)
    (hm : s ∉ entries.map Prod.fst)
    (hc : ∀ t ∈ entries.map Prod.fst, w.names.name s ≠ stagingName (w.names.name t)) :
    e'.look (w.path s) = d.look (w.path s) := by
  apply look_eq_of_folder (hs.plain s) hd h.inside.folders
  rw [h.folder, movedAll_other (fun t ht => hs.name_ne hm ht) hc]
  exact h.staged.same _ fun x hx => hc x.1 (List.mem_map_of_mem hx)

theorem ordered (h : w.Written r d entries F e') (hs : w.names.Sound)
    (hn : (entries.map Prod.fst).Nodup) (hnew : ∀ x ∈ entries, w.Holds e' x) :
    w.Ordered (entries.map Prod.fst) := by
  refine ordered_of_movedAll (F := F) hs hn fun s hm => ?_
  obtain ⟨x, hx, rfl⟩ := List.mem_map.1 hm
  rw [← h.look_path hs hm, hnew x hx]
  exact Option.some_ne_none _

theorem holds (h : w.Written r d entries F e') (hs : w.names.Sound)
    (hn : (entries.map Prod.fst).Nodup) (ho : w.Ordered (entries.map Prod.fst))
    {x : Slot × Matrix Float} (hx : x ∈ entries) : w.Holds e' x := by
  have hm : x.1 ∈ entries.map Prod.fst := List.mem_map_of_mem hx
  rw [Holds, h.look_path hs hm, movedAll_name hs hn ho hm]
  exact h.staged.new x hx

end Written

/-- Writing matrices as one unit with success does what it should just if no file has the name of
the staging file of a later one, and no file beside them has had to give way to a staging file. -/
theorem replaced_iff_ordered (hs : w.names.Sound) (hr : w.Regular d) (hd : w.seat d = .ok r)
    (hn : (entries.map Prod.fst).Nodup) (h : (w.writeMatrices entries).run d = (.ok (), e')) :
    ((∀ x ∈ entries, w.Holds e' x) ∧
      ∀ s ∉ entries.map Prod.fst, e'.look (w.path s) = d.look (w.path s)) ↔
    w.Ordered (entries.map Prod.fst) ∧ ∀ s ∉ entries.map Prod.fst,
      (∃ t ∈ entries.map Prod.fst, w.names.name s = stagingName (w.names.name t)) →
      d.look (w.path s) = none := by
  obtain ⟨F, hw⟩ := writeMatrices_written hs hr hd hn h
  constructor
  · rintro ⟨hnew, hsame⟩
    refine ⟨hw.ordered hs hn hnew, fun s hm hc => ?_⟩
    rw [← hsame s hm]
    exact hw.look_gone hs hm hc
  · rintro ⟨ho, hfree⟩
    refine ⟨fun x hx => hw.holds hs hn ho hx, fun s hm => ?_⟩
    by_cases hc : ∃ t ∈ entries.map Prod.fst, w.names.name s = stagingName (w.names.name t)
    · rw [hw.look_gone hs hm hc, hfree s hm hc]
    · exact hw.look_other hs hd hm fun t ht he => hc ⟨t, ht, he⟩

/-- The slots of the factors in the order in which they are written. -/
def factorSlots : List Slot := [.factorU, .factorS, .factorVt]

/-- With names that pass the check, writing the factors leaves each in its own file and the other
files alone just if no factor has the name of the staging file of a later one, and no other file
that was there has the name of a staging file. -/
theorem factors_kept_apart_iff (hv : w.names.validate = .ok ()) (hr : w.Regular d) (f : Factors)
    (h : ((w.writeMatrices (Decompose.entries f)).run d).1 = .ok ()) :
    ((∀ x ∈ Decompose.entries f,
        w.Holds ((w.writeMatrices (Decompose.entries f)).run d).2 x) ∧
      ∀ s ∉ factorSlots,
        ((w.writeMatrices (Decompose.entries f)).run d).2.look (w.path s) = d.look (w.path s)) ↔
    w.Ordered factorSlots ∧ ∀ s ∉ factorSlots,
      (∃ t ∈ factorSlots, w.names.name s = stagingName (w.names.name t)) →
      d.look (w.path s) = none := by
  have hs : w.names.Sound := FileNames.sound_of_validate hv
  have hrun : (w.writeMatrices (Decompose.entries f)).run d =
      (.ok (), ((w.writeMatrices (Decompose.entries f)).run d).2) := Prod.ext h rfl
  obtain ⟨e, hstage, _⟩ := writeMatrices_ok hrun
  obtain ⟨r, hd⟩ := exists_seat hs hr hstage
  exact replaced_iff_ordered hs hr hd (by decide : factorSlots.Nodup) hrun

/-- Factors without elements. -/
def emptyFactors : Factors := ⟨⟨0, 0, []⟩, ⟨0, 0, []⟩, ⟨0, 0, []⟩⟩

/-- A table in which the last factor has the name of the staging file of the first, and a file
beside the factors has the name of the staging file of the second. -/
def chained : Workspace :=
  ⟨⟨["", "r"]⟩, { factorVt := ".m1.partial", matrixOut := ".m2.partial" }⟩

/-- A disk on which the file beside the factors is missing. -/
def chainedDisk : Disk := topDisk [(".m1.partial", .file [49, 10]), ("grad", .file [50, 10])]

theorem factors_kept_apart_chained :
    chained.names.validate = .ok () ∧ chained.Regular chainedDisk ∧
      ((chained.writeMatrices (Decompose.entries emptyFactors)).run chainedDisk).1 = .ok () ∧
      (∀ x ∈ Decompose.entries emptyFactors, chained.Holds
        ((chained.writeMatrices (Decompose.entries emptyFactors)).run chainedDisk).2 x) ∧
      ∀ s ∉ factorSlots,
        ((chained.writeMatrices (Decompose.entries emptyFactors)).run chainedDisk).2.look
          (chained.path s) = chainedDisk.look (chained.path s) := by
  have hr : chained.Regular chainedDisk := regular_of_entries chained (by decide)
  have hc : chained.Ordered factorSlots ∧ ∀ s ∉ factorSlots,
      (∃ t ∈ factorSlots, chained.names.name s = stagingName (chained.names.name t)) →
      chainedDisk.look (chained.path s) = none := by
    refine ⟨by unfold Ordered; decide, fun s => ?_⟩
    cases s <;> decide
  exact ⟨rfl, hr, rfl, (factors_kept_apart_iff rfl hr emptyFactors rfl).2 hc⟩

/-- A table that passes the check, and in which the first matrix has the name of the staging file
of a factor. -/
def clashing : Workspace := ⟨⟨["", "r"]⟩, { matrixIn := ".m1.partial" }⟩

theorem not_kept_apart :
    ¬ ∀ (w : Workspace) (d : Disk) (f : Factors), w.names.validate = .ok () → w.Regular d →
      ((w.writeMatrices (Decompose.entries f)).run d).1 = .ok () →
      (∀ x ∈ Decompose.entries f, w.Holds ((w.writeMatrices (Decompose.entries f)).run d).2 x) ∧
        ∀ s ∉ factorSlots,
          ((w.writeMatrices (Decompose.entries f)).run d).2.look (w.path s) =
            d.look (w.path s) := by
  intro h
  have hr : clashing.Regular (topDisk [(".m1.partial", .file [49, 10])]) :=
    regular_of_entries clashing (by decide)
  have hlost := (h clashing (topDisk [(".m1.partial", .file [49, 10])]) emptyFactors rfl hr rfl).2
    .matrixIn (by decide)
  exact absurd hlost (by decide)

end Workspace

end NumericSteps
