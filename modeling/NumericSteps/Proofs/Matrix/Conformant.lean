import NumericSteps.Proofs.Matrix.Chain
import NumericSteps.Proofs.Matrix.Solid

namespace NumericSteps

theorem ok_of_isOk {α : Type} {x : Except Failure α} (h : x.isOk) : ∃ a, x = .ok a := by
  cases x with
  | error g => cases h
  | ok a => exact ⟨a, rfl⟩

namespace Factors

variable {routine : Matrix Float → SvdMode → Except String Svd.Found}
  {times : Grid Float → Grid Float → Grid Float} {f : Factors} {a : Matrix Float} {mode : SvdMode}

theorem recomposeWith_eq (u s vt : Matrix Float) :
    recomposeWith times u s vt = (u.multiplyWith times s).bind fun us => us.multiplyWith times vt := by
  change (u.multiplyWith times s).bind (fun us => (us.multiplyWith times vt).bind .ok) = _
  congr 1
  funext us
  cases us.multiplyWith times vt <;> rfl

/-- The sides of the factors of a matrix, of which the middle one is square. -/
structure Sides (f : Factors) (a : Matrix Float) (mode : SvdMode) : Prop where
  urows : f.u.rows = a.rows
  ucols : f.u.cols = mode.width a.rows (min a.rows a.cols)
  srows : f.s.rows = min a.rows a.cols
  scols : f.s.cols = min a.rows a.cols
  vtrows : f.vt.rows = mode.width a.cols (min a.rows a.cols)
  vtcols : f.vt.cols = a.cols

theorem sides_of_shaped {s : Svd} (h : s.Shaped a mode) : (ofSvd s).Sides a mode where
  urows := (Prod.mk.inj h.u.2).1
  ucols := (Prod.mk.inj h.u.2).2
  srows := h.values
  scols := h.values
  vtrows := (Prod.mk.inj h.vt.2).1
  vtcols := (Prod.mk.inj h.vt.2).2

theorem Sides.recompose_ok (h : f.Sides a mode) (htimes : Matrix.OuterSides times)
    (hu : mode.width a.rows (min a.rows a.cols) = min a.rows a.cols)
    (hvt : mode.width a.cols (min a.rows a.cols) = min a.rows a.cols) :
    ∃ p, recomposeWith times f.u f.s f.vt = .ok p ∧ p.shape = a.shape := by
  have hleft : f.u.cols = f.s.rows := by rw [h.ucols, h.srows, hu]
  obtain ⟨husrows, huscols⟩ := htimes.productWith hleft
  have hright : (f.u.productWith times f.s).cols = f.vt.rows := by
    rw [huscols, h.scols, h.vtrows, hvt]
  obtain ⟨hrows, hcols⟩ := htimes.productWith hright
  refine ⟨(f.u.productWith times f.s).productWith times f.vt, ?_,
    Prod.ext ((hrows.trans husrows).trans h.urows) (hcols.trans h.vtcols)⟩
  rw [recomposeWith_eq, Matrix.multiplyWith_ok hleft]
  exact Matrix.multiplyWith_ok hright

/-- The first product of a tall matrix has no shape, and the second of a wide one. -/
theorem Sides.recompose_mismatch (h : f.Sides a .full) (htimes : Matrix.OuterSides times)
    (hne : a.rows ≠ a.cols) : recomposeWith times f.u f.s f.vt =
      .error (.shapeMismatch .multiply (a.rows, a.rows) (a.cols, a.cols)) := by
  have hucols : f.u.cols = a.rows := h.ucols
  have hvtrows : f.vt.rows = a.cols := h.vtrows
  have hsrows := h.srows
  have hscols := h.scols
  rw [recomposeWith_eq]
  by_cases htall : a.cols < a.rows
  · have hu : f.u.shape = (a.rows, a.rows) := Prod.ext h.urows hucols
    have hs : f.s.shape = (a.cols, a.cols) :=
      Prod.ext (by change f.s.rows = _; omega) (by change f.s.cols = _; omega)
    rw [Matrix.multiplyWith_mismatch (by omega), hu, hs]
    rfl
  · have hleft : f.u.cols = f.s.rows := by omega
    obtain ⟨husrows, huscols⟩ := htimes.productWith hleft
    have hus : (f.u.productWith times f.s).shape = (a.rows, a.rows) :=
      Prod.ext (husrows.trans h.urows) (huscols.trans (by omega))
    have hvt : f.vt.shape = (a.cols, a.cols) := Prod.ext hvtrows h.vtcols
    have hright : (f.u.productWith times f.s).cols ≠ f.vt.rows := by omega
    rw [Matrix.multiplyWith_ok hleft]
    change (f.u.productWith times f.s).multiplyWith times f.vt = _
    rw [Matrix.multiplyWith_mismatch hright, hus, hvt]

/-- Let the routine for products keep the outer sides, and that for decompositions find vectors of the
documented shapes. Then the product of thin factors has the shape of the matrix. Square factors have a
product exactly if the matrix is square, which then has its shape too; otherwise the mismatch is that of
the two sides. -/
theorem recomposes_by_shape (htimes : Matrix.OuterSides times)
    (hroutine : ∀ a mode x, min a.rows a.cols ≠ 0 → routine a mode = .ok x → x.Fits a mode)
    (h : decomposeWith routine a mode = .ok f) :
    (mode = .thin → ∃ p, recomposeWith times f.u f.s f.vt = .ok p ∧ p.shape = a.shape) ∧
    (mode = .full →
      ((∃ p, recomposeWith times f.u f.s f.vt = .ok p) ↔ a.rows = a.cols) ∧
      (a.rows = a.cols → ∃ p, recomposeWith times f.u f.s f.vt = .ok p ∧ p.shape = a.shape) ∧
      (a.rows ≠ a.cols → recomposeWith times f.u f.s f.vt =
        .error (.shapeMismatch .multiply (a.rows, a.rows) (a.cols, a.cols)))) := by
  rw [decomposeWith] at h
  obtain ⟨s, hs, rfl⟩ := map_ok_iff.1 h
  have hsides := sides_of_shaped (Svd.shaped_decomposeWith (hroutine a mode) hs)
  constructor
  · rintro rfl
    exact hsides.recompose_ok htimes rfl rfl
  · rintro rfl
    have hsquare (he : a.rows = a.cols) := hsides.recompose_ok htimes (by simp [SvdMode.width, he])
      (by simp [SvdMode.width, he])
    refine ⟨⟨fun hex => ?_, fun he => ?_⟩, hsquare, hsides.recompose_mismatch htimes⟩
    · obtain ⟨p, hp⟩ := hex
      by_contra hne
      rw [hsides.recompose_mismatch htimes hne] at hp
      cases hp
    · obtain ⟨p, hp, -⟩ := hsquare he
      exact ⟨p, hp⟩

/-- A column, which is tall, and a matrix with no rows, which is wide. -/
theorem recomposes_by_shape_column :
    Matrix.OuterSides (Grid.times (α := Float)) ∧
      (∀ a mode x, min a.rows a.cols ≠ 0 → Svd.rotations a mode = .ok x → x.Fits a mode) ∧
      (∃ f, decomposeWith Svd.rotations ⟨2, 1, [3, 4]⟩ .full = .ok f ∧
        recompose f.u f.s f.vt = .error (.shapeMismatch .multiply (2, 2) (1, 1))) ∧
      (∃ f, decomposeWith Svd.rotations ⟨2, 1, [3, 4]⟩ .thin = .ok f ∧
        ∃ p, recompose f.u f.s f.vt = .ok p ∧ p.shape = (2, 1)) ∧
      ∃ f, decomposeWith Svd.rotations ⟨0, 3, []⟩ .full = .ok f ∧
        recompose f.u f.s f.vt = .error (.shapeMismatch .multiply (0, 0) (3, 3)) := by
  have hfits : ∀ a mode x, min a.rows a.cols ≠ 0 → Svd.rotations a mode = .ok x → x.Fits a mode :=
    fun _ _ _ _ hx => Svd.rotations_fits hx
  obtain ⟨tall, htall⟩ : ∃ f, decomposeWith Svd.rotations ⟨2, 1, [3, 4]⟩ .full = .ok f :=
    ok_of_isOk (by decide +kernel)
  obtain ⟨thin, hthin⟩ : ∃ f, decomposeWith Svd.rotations ⟨2, 1, [3, 4]⟩ .thin = .ok f :=
    ok_of_isOk (by decide +kernel)
  obtain ⟨wide, hwide⟩ : ∃ f, decomposeWith Svd.rotations ⟨0, 3, []⟩ .full = .ok f :=
    ok_of_isOk (by decide +kernel)
  have htimes : Matrix.OuterSides (Grid.times (α := Float)) := Matrix.outerSides_times
  exact ⟨htimes, hfits, ⟨tall, htall, ((recomposes_by_shape htimes hfits htall).2 rfl).2.2 (by decide)⟩,
    ⟨thin, hthin, (recomposes_by_shape htimes hfits hthin).1 rfl⟩,
    wide, hwide, ((recomposes_by_shape htimes hfits hwide).2 rfl).2.2 (by decide)⟩

end Factors

end NumericSteps
