import NumericSteps.Proofs.Workspace.TakeOver

namespace NumericSteps

namespace Workspace

open Text

variable {w : Workspace} {d e : Disk} {r : Place} {x : Slot × Matrix Float}
  {entries : List (Slot × Matrix Float)}

/-- The file of an entry holds the text of its matrix. -/
def Holds (w : Workspace) (e : Disk) (x : Slot × Matrix Float) : Prop :=
  e.look (w.path x.1) = some (.file (encode x.2.chars))

instance : Decidable (w.Holds e x) := inferInstanceAs (Decidable (_ = _))

theorem sound_default (hw : w.names = {}) : w.names.Sound :=
  hw ▸ FileNames.sound_of_check FileNames.check_default

theorem apart_default (hw : w.names = {}) : w.Apart := by
  intro s t
  rw [hw]
  exact FileNames.default_ne_stagingName s t

theorem run_writeMatrices_staged (h : (w.stage [] entries).run d = (.ok (), e)) :
    (w.writeMatrices entries).run d = (w.takeOver (entries.map Prod.fst)).run e := by
  rw [writeMatrices, Script.run_bind, h]

/-- What writing matrices as one unit comes to once all are staged: the entries in `done` have
taken over their names, those in `rest` wait in their staging files. -/
structure Replacement (w : Workspace) (r : Place) (d : Disk)
    (done rest : List (Slot × Matrix Float)) (end_ : Except Failure Unit × Disk) : Prop where
  inside : Disk.Inside r d end_.2
  names : ∀ x ∈ done ++ rest, d.Names (w.path x.1) (r ++ [w.names.name x.1])
  staging : ∀ x ∈ done ++ rest, d.Names (w.stagingPath x.1) (r ++ [stagingName (w.names.name x.1)])
  new : ∀ x ∈ done, end_.2.folder r (w.names.name x.1) = some (.file (encode x.2.chars))
  gone : ∀ x ∈ done, end_.2.folder r (stagingName (w.names.name x.1)) = none
  same : ∀ n, (∀ x ∈ done, n ≠ w.names.name x.1) →
    (∀ x ∈ done ++ rest, n ≠ stagingName (w.names.name x.1)) → end_.2.folder r n = d.folder r n
  free : ∀ x ∈ done, d.folder r (w.names.name x.1) ≠ some .directory
  stop : rest = [] ∧ end_.1 = .ok () ∨ ∃ x rest', rest = x :: rest' ∧
    d.folder r (w.names.name x.1) = some .directory ∧
    end_.1 = .error (fileFailure (w.path x.1) .isADirectory)

theorem run_writeMatrices (hs : w.names.Sound) (ha : w.Apart) (hr : w.Regular d)
    (hd : w.seat d = .ok r) (hn : (entries.map Prod.fst).Nodup)
    (h : (w.stage [] entries).run d = (.ok (), e)) :
    ∃ done rest, entries = done ++ rest ∧
      w.Replacement r d done rest ((w.writeMatrices entries).run d) := by
  obtain ⟨hin, hst, hnames⟩ := run_stage_ok hs hr hd hn h
  have hk : ∀ s ∈ entries.map Prod.fst,
      e.Names (w.stagingPath s) (r ++ [stagingName (w.names.name s)]) :=
    List.forall_mem_map.2 fun x hx => (hnames x hx).of_sameFolders hin.folders
  have hf : ∀ s ∈ entries.map Prod.fst,
      ∃ b, e.folder r (stagingName (w.names.name s)) = some (.file b) :=
    List.forall_mem_map.2 fun x hx => ⟨_, hst.new x hx⟩
  obtain ⟨done', rest', hsplit, hp⟩ := run_takeOver hs ha hn hk hf
  obtain ⟨done, rest, rfl, rfl, rfl⟩ := List.map_eq_append_iff.1 hsplit
  have name (x : Slot × Matrix Float) : e.folder r (w.names.name x.1) = d.folder r (w.names.name x.1) :=
    hst.same _ fun y _ => ha x.1 y.1
  refine ⟨done, rest, rfl, ?_⟩
  rw [run_writeMatrices_staged h]
  refine ⟨hin.trans hp.inside, ?_, hnames, ?_, ?_, ?_, ?_, ?_⟩
  · exact fun x hx => names_of_staging (hs.plain x.1) (hnames x hx)
  · intro x hx
    rw [hp.taken.new x.1 (List.mem_map_of_mem hx)]
    exact hst.new x (List.mem_append_left _ hx)
  · exact fun x hx => hp.taken.gone x.1 (List.mem_map_of_mem hx)
  · intro n hname hstaging
    rw [hp.taken.same n, hst.same n hstaging]
    intro s hm
    obtain ⟨x, hx, rfl⟩ := List.mem_map.1 hm
    exact ⟨hname x hx, hstaging x (List.mem_append_left _ hx)⟩
  · intro x hx
    rw [← name x]
    exact hp.free x.1 (List.mem_map_of_mem hx)
  · rcases hp.stop with ⟨hrest, hres⟩ | ⟨s, ss, hrest, hdir, hres⟩
    · exact Or.inl ⟨List.map_eq_nil_iff.1 hrest, hres⟩
    · obtain ⟨x, rest', rfl, rfl, rfl⟩ := List.map_eq_cons_iff.1 hrest
      exact Or.inr ⟨x, rest', rfl, (name x).symm.trans hdir, hres⟩

theorem exists_seat {x : Slot × Matrix Float} {staged : List Path} (hs : w.names.Sound)
    (hr : w.Regular d) (h : (w.stage staged (x :: entries)).run d = (.ok (), e)) :
    ∃ r, w.seat d = .ok r := by
  obtain ⟨s, m⟩ := x
  rw [stage, Script.run_bind] at h
  rcases run_writeFile_cases (w := w) (plain_stagingName (hs.plain s)) hr (matrixLines m) with
    ⟨r, hd, _⟩ | ⟨f, hw⟩
  · exact ⟨r, hd⟩
  · rw [stagingPath_eq, hw, Script.run_bind] at h
    cases h

/-- The entries in front of the first one under whose name a directory stands. -/
def unblocked (w : Workspace) (d : Disk) (entries : List (Slot × Matrix Float)) :
    List (Slot × Matrix Float) :=
  entries.takeWhile fun x => decide (d.look (w.path x.1) ≠ some .directory)

namespace Replacement

variable {done rest : List (Slot × Matrix Float)} {end_ : Except Failure Unit × Disk}

theorem look_before (h : w.Replacement r d done rest end_) {x : Slot × Matrix Float}
    (hx : x ∈ done ++ rest) : d.look (w.path x.1) = d.folder r (w.names.name x.1) :=
  (h.names x hx).look

theorem look_after (h : w.Replacement r d done rest end_) {x : Slot × Matrix Float}
    (hx : x ∈ done ++ rest) : end_.2.look (w.path x.1) = end_.2.folder r (w.names.name x.1) :=
  ((h.names x hx).of_sameFolders h.inside.folders).look

theorem look_staging (h : w.Replacement r d done rest end_) {x : Slot × Matrix Float}
    (hx : x ∈ done) : end_.2.look (w.stagingPath x.1) = none :=
  ((h.staging x (List.mem_append_left _ hx)).of_sameFolders h.inside.folders).look.trans
    (h.gone x hx)

theorem holds (h : w.Replacement r d done rest end_) {x : Slot × Matrix Float} (hx : x ∈ done) :
    w.Holds end_.2 x :=
  (h.look_after (List.mem_append_left _ hx)).trans (h.new x hx)

theorem look_rest (h : w.Replacement r d done rest end_) (hs : w.names.Sound) (ha : w.Apart)
    (hn : ((done ++ rest).map Prod.fst).Nodup) {x : Slot × Matrix Float} (hx : x ∈ rest) :
    end_.2.look (w.path x.1) = d.look (w.path x.1) := by
  rw [h.look_after (List.mem_append_right _ hx), h.look_before (List.mem_append_right _ hx)]
  apply h.same _ _ fun y _ => ha x.1 y.1
  intro y hy he
  rw [List.map_append, List.nodup_append] at hn
  exact hn.2.2 y.1 (List.mem_map_of_mem hy) x.1 (List.mem_map_of_mem hx) (hs.inj he).symm

theorem unblocked_eq (h : w.Replacement r d done rest end_) :
    w.unblocked d (done ++ rest) = done := by
  unfold unblocked
  rw [List.takeWhile_append_of_pos]
  · rcases h.stop with ⟨rfl, _⟩ | ⟨x, rest', rfl, hd, _⟩
    · simp
    · have hx : d.look (w.path x.1) = some .directory := (h.look_before (by simp)).trans hd
      simp [hx]
  · intro x hx
    rw [decide_eq_true_iff, h.look_before (List.mem_append_left _ hx)]
    exact h.free x hx

theorem allOrNone_iff (h : w.Replacement r d done rest end_) (hs : w.names.Sound) (ha : w.Apart)
    (hn : ((done ++ rest).map Prod.fst).Nodup) :
    ((∀ x ∈ done ++ rest, w.Holds end_.2 x) ∨
      ∀ x ∈ done ++ rest, end_.2.look (w.path x.1) = d.look (w.path x.1)) ↔
    rest = [] ∨ ∀ x ∈ done, w.Holds d x := by
  constructor
  · rintro (hnew | hold)
    · left
      rcases h.stop with ⟨hrest, _⟩ | ⟨x, rest', rfl, hdir, _⟩
      · exact hrest
      · have hx := hnew x (by simp)
        rw [Holds, h.look_rest hs ha hn List.mem_cons_self, h.look_before (by simp), hdir] at hx
        cases hx
    · right
      intro x hx
      rw [Holds, ← hold x (List.mem_append_left _ hx)]
      exact h.holds hx
  · rintro (rfl | hheld)
    · left
      intro x hx
      rw [List.append_nil] at hx
      exact h.holds hx
    · right
      intro x hx
      rcases List.mem_append.1 hx with hx | hx
      · exact (h.holds hx).trans (hheld x hx).symm
      · exact h.look_rest hs ha hn hx

end Replacement

/-- Once all are staged, all are replaced or none, except where a directory stands under a name
and a name in front of it did not already hold its new text. -/
theorem allOrNone_iff_unblocked (hw : w.names = {}) (hr : w.Regular d)
    (hn : (entries.map Prod.fst).Nodup) (hs : ((w.stage [] entries).run d).1 = .ok ()) :
    ((∀ x ∈ entries, w.Holds ((w.writeMatrices entries).run d).2 x) ∨
      ∀ x ∈ entries,
        ((w.writeMatrices entries).run d).2.look (w.path x.1) = d.look (w.path x.1)) ↔
    w.unblocked d entries = entries ∨ ∀ x ∈ w.unblocked d entries, w.Holds d x := by
  cases entries with
  | nil => simp [unblocked]
  | cons x₀ entries =>
    have hsound := sound_default hw
    have hstage : (w.stage [] (x₀ :: entries)).run d =
        (.ok (), ((w.stage [] (x₀ :: entries)).run d).2) := Prod.ext hs rfl
    obtain ⟨r, hd⟩ := exists_seat hsound hr hstage
    obtain ⟨done, rest, hsplit, h⟩ :=
      run_writeMatrices hsound (apart_default hw) hr hd hn hstage
    rw [hsplit] at h hn ⊢
    rw [h.unblocked_eq, h.allOrNone_iff hsound (apart_default hw) hn, List.self_eq_append_right]

/-- Two factors without elements, the text of which is empty. -/
def emptyPair : List (Slot × Matrix Float) := [(.factorU, ⟨0, 0, []⟩), (.factorS, ⟨0, 0, []⟩)]

/-- A disk on which the first name holds the text of a matrix without elements, and a directory
stands under the second. -/
def heldDisk : Disk := topDisk [("m1", .file []), ("m2", .directory)]

theorem allOrNone_held_name :
    top.names = {} ∧ top.Regular heldDisk ∧ (emptyPair.map Prod.fst).Nodup ∧
      ((top.stage [] emptyPair).run heldDisk).1 = .ok () ∧
      ((∀ x ∈ emptyPair, top.Holds ((top.writeMatrices emptyPair).run heldDisk).2 x) ∨
        ∀ x ∈ emptyPair, ((top.writeMatrices emptyPair).run heldDisk).2.look (top.path x.1) =
          heldDisk.look (top.path x.1)) := by
  have hr : top.Regular heldDisk := regular_of_entries top (by decide)
  have hn : (emptyPair.map Prod.fst).Nodup := by decide
  have hs : ((top.stage [] emptyPair).run heldDisk).1 = .ok () := rfl
  exact ⟨rfl, hr, hn, hs, (allOrNone_iff_unblocked rfl hr hn hs).2 (Or.inr (by decide))⟩

/-- A directory under the second name leaves the first one replaced. -/
theorem not_allOrNone_directory :
    ¬ ∀ (w : Workspace) (d : Disk) (entries : List (Slot × Matrix Float)),
      w.names = {} → w.Regular d → (entries.map Prod.fst).Nodup →
      ((w.stage [] entries).run d).1 = .ok () →
      (∀ x ∈ entries, w.Holds ((w.writeMatrices entries).run d).2 x) ∨
        ∀ x ∈ entries,
          ((w.writeMatrices entries).run d).2.look (w.path x.1) = d.look (w.path x.1) := by
  intro h
  have hr : top.Regular (topDisk [("m2", .directory)]) := regular_of_entries top (by decide)
  rcases h top (topDisk [("m2", .directory)]) emptyPair rfl hr (by decide) rfl with hnew | hold
  · exact absurd (hnew (.factorS, ⟨0, 0, []⟩) (by simp [emptyPair])) (by decide)
  · exact absurd (hold (.factorU, ⟨0, 0, []⟩) (by simp [emptyPair])) (by decide)

end Workspace

end NumericSteps
