import NumericSteps.Proofs.Matrix.ReadBack
import NumericSteps.Step.Factors

namespace NumericSteps

namespace Matrix

variable {α : Type}

theorem solid_ofFn {rows cols : Nat} (h : rows = 0 ↔ cols = 0) (f : Nat → Nat → α) :
    (ofFn rows cols f).Solid :=
  ⟨wellFormed_ofFn rows cols f, h⟩

theorem solid_diagonal [OfNat α 0] (ds : List α) : (diagonal ds).Solid := solid_ofFn Iff.rfl _

/-- A line without values is no row. -/
theorem ne_nil_of_readRows {width : Option Nat} {n : Nat} {lines : List Bytes}
    {rows : List (List Float)} (h : readRows width n lines = .ok rows) : ∀ r ∈ rows, r ≠ [] := by
  induction lines generalizing width n rows with
  | nil =>
    cases h
    simp
  | cons line lines ih =>
    unfold readRows at h
    split at h
    · cases h
    · exact ih h
    · rename_i x xs _
      dsimp only at h
      split at h
      · obtain ⟨rest, hr, rfl⟩ := map_ok_iff.1 h
        exact List.forall_mem_cons.2 ⟨List.cons_ne_nil x xs, ih hr⟩
      · cases h

theorem solid_of_ofRows {rows : List (List α)} {m : Matrix α} (h : ofRows rows = .ok m)
    (hne : ∀ r ∈ rows, r ≠ []) : m.Solid := by
  refine ⟨wellFormed_of_ofRows h, ?_⟩
  unfold ofRows at h
  obtain ⟨data, -, rfl⟩ := map_ok_iff.1 h
  cases rows with
  | nil => exact Iff.rfl
  | cons r rows =>
    have hr : r ≠ [] := hne r List.mem_cons_self
    exact iff_of_false (Nat.succ_ne_zero rows.length) fun hz => hr (List.length_eq_zero_iff.1 hz)

theorem solid_of_ofBytes {bytes : Bytes} {m : Matrix Float} (h : ofBytes bytes = .ok m) :
    m.Solid := by
  unfold ofBytes at h
  obtain ⟨rows, hr, hrows⟩ := bind_ok_iff.1 h
  exact solid_of_ofRows hrows (ne_nil_of_readRows hr)

theorem solid_of_elements {m : Matrix α} (h : m.WellFormed)
    (he : m.data ≠ [] ∨ m.shape = (0, 0)) : m.Solid := by
  refine ⟨h, ?_⟩
  rcases he with hd | hs
  · have hdata : 0 < m.data.length := List.length_pos_iff.2 hd
    have hpos : 0 < m.rows * m.cols := h ▸ hdata
    have hrows : 0 < m.rows := Nat.pos_of_mul_pos_right hpos
    have hcols : 0 < m.cols := Nat.pos_of_mul_pos_left hpos
    omega
  · simp only [shape, Prod.mk.injEq] at hs
    omega

/-- The text of a matrix with elements reads back, and that of any other as the matrix without rows
and columns. What has been read is therefore read again from its own text. -/
theorem ofText_text :
    (∀ m : Matrix Float, m.WellFormed →
      (m.data ≠ [] ∨ m.shape = (0, 0) → ofText m.text.toList = .ok m) ∧
      (m.rows = 0 ∨ m.cols = 0 → ofText m.text.toList = .ok ⟨0, 0, []⟩)) ∧
    ∀ t a, ofText t = .ok a → ofText a.text.toList = .ok a := by
  have hchars (m : Matrix Float) : ofText m.text.toList = ofBytes (Text.encode m.chars) := by
    rw [ofText, text, String.toList_ofList]
  constructor
  · intro m h
    rw [hchars]
    exact ⟨fun he => ofBytes_encode (solid_of_elements h he), ofBytes_encode_empty h⟩
  · intro t a h
    have hsolid : a.Solid := solid_of_ofBytes h
    rw [hchars]
    exact ofBytes_encode hsolid

/-- A row of the values that are hardest to write, and two rows without columns. -/
theorem ofText_text_hard :
    (⟨1, 4, [-0.0, 0.0 / 0.0, -1.0 / 0.0, 5e-324]⟩ : Matrix Float).WellFormed ∧
      (⟨2, 0, []⟩ : Matrix Float).WellFormed ∧
      ofText (⟨1, 4, [-0.0, 0.0 / 0.0, -1.0 / 0.0, 5e-324]⟩ : Matrix Float).text.toList =
        .ok ⟨1, 4, [-0.0, 0.0 / 0.0, -1.0 / 0.0, 5e-324]⟩ ∧
      ofText (⟨2, 0, []⟩ : Matrix Float).text.toList = .ok ⟨0, 0, []⟩ ∧
      ofText "1 2\n".toList = .ok ⟨1, 2, [1, 2]⟩ ∧
      ofText (⟨1, 2, [1, 2]⟩ : Matrix Float).text.toList = .ok ⟨1, 2, [1, 2]⟩ := by
  have hrow : (⟨1, 4, [-0.0, 0.0 / 0.0, -1.0 / 0.0, 5e-324]⟩ : Matrix Float).WellFormed := rfl
  have hblank : (⟨2, 0, []⟩ : Matrix Float).WellFormed := rfl
  have hread : ofText "1 2\n".toList = .ok ⟨1, 2, [1, 2]⟩ := by decide +kernel
  exact ⟨hrow, hblank, (ofText_text.1 _ hrow).1 (Or.inl (List.cons_ne_nil _ _)),
    (ofText_text.1 _ hblank).2 (Or.inr rfl), hread, ofText_text.2 _ _ hread⟩

end Matrix

/-- The shapes of the factors are those that a text can hold. -/
structure Factors.Solid (f : Factors) : Prop where
  u : f.u.Solid
  s : f.s.Solid
  vt : f.vt.Solid

/-- The shapes of a decomposition: orthogonal factors that are square or have as many columns and
rows as there are singular values. -/
structure Svd.Shaped (f : Svd) (a : Matrix Float) (mode : SvdMode) : Prop where
  u : f.u.WellFormed ∧ f.u.shape = (a.rows, mode.width a.rows (min a.rows a.cols))
  values : f.values.length = min a.rows a.cols
  vt : f.vt.WellFormed ∧ f.vt.shape = (mode.width a.cols (min a.rows a.cols), a.cols)

namespace Svd

variable {routine : Matrix Float → SvdMode → Except String Found} {a : Matrix Float} {mode : SvdMode}
  {f : Svd}

/-- The documented shapes: vectors of the length of their side, as many as the mode asks for. -/
structure Found.Fits (x : Found) (a : Matrix Float) (mode : SvdMode) : Prop where
  u : x.u.rows = a.rows ∧ x.u.cols = mode.width a.rows (min a.rows a.cols)
  v : x.v.rows = a.cols ∧ x.v.cols = mode.width a.cols (min a.rows a.cols)

theorem rotations_fits {x : Found} (h : rotations a mode = .ok x) : x.Fits a mode := by
  unfold rotations at h
  dsimp only at h
  split at h
  · cases h
  · cases h
    exact ⟨⟨rfl, rfl⟩, rfl, rfl⟩

/-- A matrix without elements has the factors of its shape, and no singular values. -/
theorem decomposeWith_empty (routine : Matrix Float → SvdMode → Except String Found) (mode : SvdMode)
    (h : min a.rows a.cols = 0) :
    ∃ f, decomposeWith routine a mode = .ok f ∧ f.Shaped a mode := by
  cases mode with
  | full =>
    refine ⟨_, if_pos h, ⟨Matrix.wellFormed_identity _, ?_⟩, h.symm, Matrix.wellFormed_identity _, ?_⟩
    all_goals simp [Matrix.identity, Matrix.diagonal, Matrix.ofFn, Matrix.shape, SvdMode.width]
  | thin =>
    refine ⟨_, if_pos h, ⟨Matrix.wellFormed_zeros _ _, ?_⟩, h.symm, Matrix.wellFormed_zeros _ _, ?_⟩
    all_goals simp only [Matrix.zeros, Matrix.shape, SvdMode.width, h]

theorem decomposeWith_elements (h : decomposeWith routine a mode = .ok f) (hk : min a.rows a.cols ≠ 0) :
    ∃ x, routine a mode = .ok x ∧
      f = ⟨x.u.copy, (List.range (min a.rows a.cols)).map x.values, x.v.copy.transpose⟩ := by
  unfold decomposeWith at h
  rw [if_neg hk] at h
  cases hx : routine a mode with
  | error reason =>
    rw [hx] at h
    cases h
  | ok x =>
    rw [hx] at h
    exact ⟨x, rfl, (Except.ok.inj h).symm⟩

/-- Whatever a routine finds, the factors are copies. -/
theorem wellFormed_decomposeWith (h : decomposeWith routine a mode = .ok f) :
    f.u.WellFormed ∧ f.vt.WellFormed := by
  by_cases hk : min a.rows a.cols = 0
  · obtain ⟨f', hf', hshaped⟩ := decomposeWith_empty routine mode hk
    obtain rfl : f' = f := Except.ok.inj (hf'.symm.trans h)
    exact ⟨hshaped.u.1, hshaped.vt.1⟩
  · obtain ⟨x, -, rfl⟩ := decomposeWith_elements h hk
    exact ⟨Matrix.wellFormed_ofFn _ _ _, Matrix.wellFormed_transpose _⟩

theorem shaped_decomposeWith
    (hroutine : ∀ x, min a.rows a.cols ≠ 0 → routine a mode = .ok x → x.Fits a mode)
    (h : decomposeWith routine a mode = .ok f) : f.Shaped a mode := by
  by_cases hk : min a.rows a.cols = 0
  · obtain ⟨f', hf', hshaped⟩ := decomposeWith_empty routine mode hk
    obtain rfl : f' = f := Except.ok.inj (hf'.symm.trans h)
    exact hshaped
  · obtain ⟨x, hx, rfl⟩ := decomposeWith_elements h hk
    obtain ⟨⟨hurows, hucols⟩, hvrows, hvcols⟩ := hroutine x hk hx
    obtain ⟨hu, hvt⟩ := wellFormed_decomposeWith h
    exact ⟨⟨hu, Prod.ext hurows hucols⟩, by simp, hvt, Prod.ext hvcols hvrows⟩

theorem shaped_decompose (h : decompose a mode = .ok f) : f.Shaped a mode :=
  shaped_decomposeWith (fun _ _ hx => rotations_fits hx) h

end Svd

theorem Svd.Shaped.solid {a : Matrix Float} {mode : SvdMode} {f : Svd} (h : f.Shaped a mode)
    (ha : a.Solid) : (Factors.ofSvd f).Solid := by
  have hempty := ha.empty
  obtain ⟨hu, hshape⟩ := h.u
  obtain ⟨hvt, hshape'⟩ := h.vt
  have hrows : f.u.rows = a.rows := congrArg Prod.fst hshape
  have hcols : f.u.cols = mode.width a.rows (min a.rows a.cols) := congrArg Prod.snd hshape
  have hrows' : f.vt.rows = mode.width a.cols (min a.rows a.cols) := congrArg Prod.fst hshape'
  have hcols' : f.vt.cols = a.cols := congrArg Prod.snd hshape'
  refine ⟨⟨hu, ?_⟩, Matrix.solid_diagonal _, ⟨hvt, ?_⟩⟩
  · change f.u.rows = 0 ↔ f.u.cols = 0
    rw [hrows, hcols]
    cases mode <;> simp only [SvdMode.width]
    all_goals omega
  · change f.vt.rows = 0 ↔ f.vt.cols = 0
    rw [hrows', hcols']
    cases mode <;> simp only [SvdMode.width]
    all_goals omega

end NumericSteps
