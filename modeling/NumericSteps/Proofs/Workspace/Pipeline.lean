import NumericSteps.Proofs.Matrix.Conformant
import NumericSteps.Proofs.Workspace.NameClash
import NumericSteps.Proofs.Workspace.Unstage
import NumericSteps.Step.Recompose

namespace NumericSteps

/-- Factors can fail to be recomposed only for their shapes. -/
theorem Factors.recompose_error {times : Grid Float → Grid Float → Grid Float} {u s vt : Matrix Float}
    {g : Failure} (h : recomposeWith times u s vt = .error g) :
    ∃ l r, g = .shapeMismatch .multiply l r := by
  rw [recomposeWith_eq] at h
  cases hus : u.multiplyWith times s with
  | error g' =>
    rw [hus] at h
    cases h
    exact ⟨_, _, Matrix.multiplyWith_error hus⟩
  | ok us =>
    rw [hus] at h
    exact ⟨_, _, Matrix.multiplyWith_error h⟩

namespace Workspace

variable {w : Workspace} {d e : Disk} {r : Place} {f : Factors}
  {entries : List (Slot × Matrix Float)}

theorem run_readMatrix (hs : w.names.Sound) {x : Slot × Matrix Float} (h : w.Holds e x)
    (hx : x.2.Solid) : (w.readMatrix x.1).run e = (.ok x.2, e) := by
  obtain ⟨p, hp, hb⟩ := Option.bind_eq_some_iff.1 h
  have hread := ((place?_file (hs.plain x.1)).1 hp).read_file hb
  rw [← path_eq] at hread
  unfold readMatrix Script.run
  rw [hread]
  dsimp only
  rw [Matrix.ofBytes_encode hx]
  rfl

end Workspace

namespace Recompose

variable {times : Grid Float → Grid Float → Grid Float} {w : Workspace} {e : Disk} {f : Factors}
  {entries : List (Slot × Matrix Float)}

theorem run_readFactors (hs : w.names.Sound) (h : ∀ x ∈ entries, w.Holds e x)
    (hx : ∀ x ∈ entries, x.2.Solid) :
    (readFactors w (entries.map Prod.fst)).run e =
      ((entries.map fun x => read w x.1 x.2, .ok (entries.map Prod.snd)), e) := by
  induction entries with
  | nil => rfl
  | cons x entries ih =>
    rw [List.forall_mem_cons] at h hx
    rw [List.map_cons, readFactors, Script.run_bind, Workspace.run_readMatrix hs h.1 hx.1]
    dsimp only
    rw [Script.run_bind, ih h.2 hx.2]
    rfl

/-- Recomposing from files does what it does in memory: the product goes to the output, or nothing
does as the shapes do not fit. -/
structure Agrees (times : Grid Float → Grid Float → Grid Float) (w : Workspace) (f : Factors) (e : Disk) :
    Prop where
  disk : ((runWith times w).run e).2 = e
  product : ∀ a, Factors.recomposeWith times f.u f.s f.vt = .ok a →
    ((runWith times w).run e).1.result = .ok a ∧ ((runWith times w).run e).1.output = a.chars
  mismatch : ∀ g, Factors.recomposeWith times f.u f.s f.vt = .error g →
    (∃ l r, g = .shapeMismatch .multiply l r) ∧
      ((runWith times w).run e).1.result = .error g ∧ ((runWith times w).run e).1.output = []

theorem agrees_of_holds (hs : w.names.Sound) (hf : f.Solid)
    (h : ∀ x ∈ Decompose.entries f, w.Holds e x) : Agrees times w f e := by
  have hread : (readFactors w [.factorU, .factorS, .factorVt]).run e = _ :=
    run_readFactors hs h (by simp [Decompose.entries, hf.u, hf.s, hf.vt])
  have hchain : (Except.ok ((Decompose.entries f).map Prod.snd)).bind (Matrix.chainWith times) =
      Factors.recomposeWith times f.u f.s f.vt := rfl
  have hok : ∀ a, Factors.recomposeWith times f.u f.s f.vt = .ok a → (runWith times w).run e =
      (⟨.ok a, ((Decompose.entries f).map fun x => read w x.1 x.2) ++ [written a], a.chars⟩, e) := by
    intro a ha
    unfold runWith
    rw [Script.run_bind, hread]
    dsimp only
    rw [hchain, ha]
    rfl
  have herror : ∀ g, Factors.recomposeWith times f.u f.s f.vt = .error g → (runWith times w).run e =
      (.failed g ((Decompose.entries f).map fun x => read w x.1 x.2), e) := by
    intro g hg
    unfold runWith
    rw [Script.run_bind, hread]
    dsimp only
    rw [hchain, hg]
    rfl
  constructor
  · cases hr : Factors.recomposeWith times f.u f.s f.vt with
    | error g => rw [herror g hr]
    | ok a => rw [hok a hr]
  · intro a ha
    rw [hok a ha]
    exact ⟨rfl, rfl⟩
  · intro g hg
    rw [herror g hg]
    exact ⟨Factors.recompose_error hg, rfl, rfl⟩

end Recompose

/-- What a decomposition that ends well has done. -/
theorem Decompose.runWith_ok {svd : Matrix Float → SvdMode → Except Failure Svd} {w : Workspace}
    {d : Disk} {input : Bytes} {mode : SvdMode} {f : Factors}
    (h : ((runWith svd input w mode).run d).1.result = .ok f) :
    ∃ a s, Matrix.ofBytes input = .ok a ∧ svd a mode = .ok s ∧ f = Factors.ofSvd s ∧
      (w.writeMatrices (entries f)).run d = (.ok (), ((runWith svd input w mode).run d).2) := by
  cases ha : Matrix.ofBytes input with
  | error g =>
    rw [runWith_unread ha] at h
    cases h
  | ok a =>
    cases hs : svd a mode with
    | error g =>
      rw [runWith_undecomposed ha hs] at h
      cases h
    | ok s =>
      rw [runWith_decomposed ha hs, Script.run_bind] at h ⊢
      rcases hw : (w.writeMatrices (entries (Factors.ofSvd s))).run d with ⟨res, e⟩
      rw [hw] at h
      cases res with
      | error g => cases h
      | ok u =>
        cases h
        exact ⟨a, s, rfl, hs, rfl, hw⟩

namespace Workspace

variable {w : Workspace} {d : Disk} {r : Place} {f : Factors}
  {entries : List (Slot × Matrix Float)}

/-- Where all names have been taken over, no place differs but those of the files and of their
staging files. -/
theorem Replacement.sameBut {end_ : Except Failure Unit × Disk}
    (h : w.Replacement r d entries [] end_) :
    d.SameBut (entries.map (fun x => w.path x.1) ++ w.stagingPaths entries) end_.2 := by
  intro q hq
  apply h.inside.get?_eq
  rintro n rfl
  apply h.same n
  · rintro x hx rfl
    exact hq _ (List.mem_append_left _ (List.mem_map_of_mem hx))
      (h.names x (List.mem_append_left _ hx)).place?
  · intro x hx hn
    rw [List.append_nil] at hx
    rw [hn] at hq
    exact hq _ (List.mem_append_right _ (List.mem_map_of_mem hx))
      (h.staging x (List.mem_append_left _ hx)).place?

theorem writeMatrices_replaced (hw : w.names = {}) (hr : w.Regular d)
    (hn : (entries.map Prod.fst).Nodup) (hne : entries ≠ []) {e : Disk}
    (h : (w.writeMatrices entries).run d = (.ok (), e)) :
    ∃ r, w.Replacement r d entries [] (.ok (), e) := by
  have hs := sound_default hw
  obtain ⟨e', hstage, _⟩ := writeMatrices_ok h
  obtain ⟨x, rest, rfl⟩ := List.exists_cons_of_ne_nil hne
  obtain ⟨r, hd⟩ := exists_seat hs hr hstage
  obtain ⟨done, left, hsplit, hrep⟩ := run_writeMatrices hs (apart_default hw) hr hd hn hstage
  rw [h] at hrep
  rcases hrep.stop with ⟨rfl, _⟩ | ⟨_, _, _, _, he⟩
  · rw [List.append_nil] at hsplit
    exact ⟨r, hsplit ▸ hrep⟩
  · cases he

end Workspace

namespace Decompose

/-- What a decomposition leaves behind: its factors in their files, and nothing else. -/
structure Leaves (w : Workspace) (d : Disk) (f : Factors) (e : Disk) : Prop where
  holds : ∀ x ∈ entries f, w.Holds e x
  unstaged : ∀ x ∈ entries f, e.look (w.stagingPath x.1) = none
  rest : d.SameBut ((entries f).map (fun x => w.path x.1) ++ w.stagingPaths (entries f)) e

/-- Let the way to decompose give factors of the right shapes. Then a decomposition that ends well
leaves the factors of what it has read, and recomposing from the files is recomposing in memory, by any
routine for products. -/
theorem recompose_from_files (times : Grid Float → Grid Float → Grid Float) {svd : Matrix Float → SvdMode → Except Failure Svd} {w : Workspace}
    {d : Disk} {input : Bytes} {mode : SvdMode} {f : Factors}
    (hsvd : ∀ a s, svd a mode = .ok s → s.Shaped a mode) (hw : w.names = {}) (hr : w.Regular d)
    (h : ((runWith svd input w mode).run d).1.result = .ok f) :
    (∃ a s, Matrix.ofBytes input = .ok a ∧ svd a mode = .ok s ∧ f = Factors.ofSvd s) ∧
      Leaves w d f ((runWith svd input w mode).run d).2 ∧
      Recompose.Agrees times w f ((runWith svd input w mode).run d).2 := by
  obtain ⟨a, s, ha, hs, rfl, hrun⟩ := runWith_ok h
  have hsolid := (hsvd a s hs).solid (Matrix.solid_of_ofBytes ha)
  have hn : ((entries (Factors.ofSvd s)).map Prod.fst).Nodup :=
    (by decide : Workspace.factorSlots.Nodup)
  obtain ⟨r, hrep⟩ := Workspace.writeMatrices_replaced hw hr hn (List.cons_ne_nil _ _) hrun
  refine ⟨⟨a, s, ha, hs, rfl⟩, ⟨?_, ?_, hrep.sameBut⟩, ?_⟩
  · exact fun x hx => hrep.holds hx
  · exact fun x hx => hrep.look_staging hx
  · exact Recompose.agrees_of_holds (Workspace.sound_default hw) hsolid fun x hx => hrep.holds hx

deriving instance DecidableEq for Factors

/-- The factors of a column, of which the left one is square. -/
def columnFactors : Factors :=
  ⟨⟨2, 2, [0.6000000000000001, -0.8, 0.8, 0.6]⟩, ⟨1, 1, [5.0]⟩, ⟨1, 1, [1.0]⟩⟩

/-- A disk with an old factor, and with a staging file of an earlier run. -/
def usedDisk : Disk := Workspace.topDisk [("m1", .file [50, 10]), (".m2.partial", .file [49, 10])]

theorem recompose_from_files_column :
    (∀ a s, Svd.decompose a .full = .ok s → s.Shaped a .full) ∧ Workspace.top.names = {} ∧
      Workspace.top.Regular usedDisk ∧
      ((run [51, 10, 52, 10] .top .full).run usedDisk).1.result = .ok columnFactors ∧
      (∃ a s, Matrix.ofBytes [51, 10, 52, 10] = .ok a ∧ Svd.decompose a .full = .ok s ∧
        columnFactors = Factors.ofSvd s) ∧
      Leaves .top usedDisk columnFactors ((run [51, 10, 52, 10] .top .full).run usedDisk).2 ∧
      Recompose.Agrees Grid.times .top columnFactors ((run [51, 10, 52, 10] .top .full).run usedDisk).2 := by
  have hsvd : ∀ a s, Svd.decompose a .full = .ok s → s.Shaped a .full :=
    fun _ _ hs => Svd.shaped_decompose hs
  have hr : Workspace.top.Regular usedDisk := Workspace.regular_of_entries _ (by decide)
  have h : ((run [51, 10, 52, 10] .top .full).run usedDisk).1.result = .ok columnFactors := by
    decide +kernel
  unfold run at h ⊢
  exact ⟨hsvd, rfl, hr, h, recompose_from_files Grid.times hsvd rfl hr h⟩

end Decompose

end NumericSteps
