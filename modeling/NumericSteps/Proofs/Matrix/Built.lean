import NumericSteps.Proofs.Matrix.Indices
import NumericSteps.Proofs.Matrix.Solid
import NumericSteps.Step.Generate

namespace NumericSteps.Matrix

variable {a b c m : Matrix Float}

/-- The ways to build a matrix, in any combination, with any routines for products and decompositions. What
is made without values to start from has to have a size that fits; `copied` is a matrix of another layout,
whatever its entries are. -/
inductive Built : Matrix Float → Prop
  | zeros {rows cols : Nat} : rows * cols < Size.limit → Built (zeros rows cols)
  | identity {n : Nat} : n * n < Size.limit → Built (identity n)
  | diagonal {ds : List Float} : ds.length * ds.length < Size.limit → Built (diagonal ds)
  | ofData {rows cols : Nat} {data : List Float} {m : Matrix Float} :
      ofData rows cols data = .ok m → Built m
  | ofRows {rows : List (List Float)} {m : Matrix Float} : ofRows rows = .ok m → Built m
  | ofBytes {bytes : Bytes} {m : Matrix Float} : ofBytes bytes = .ok m → Built m
  | transpose {m : Matrix Float} : Built m → Built m.transpose
  | sub {a b c : Matrix Float} : Built a → Built b → a.sub b = .ok c → Built c
  | multiply {times : Grid Float → Grid Float → Grid Float} {a b c : Matrix Float} :
      Built a → Built b → multiplyWith times a b = .ok c → Built c
  | chain {times : Grid Float → Grid Float → Grid Float} {fs : List (Matrix Float)} {m : Matrix Float} :
      (∀ f ∈ fs, Built f) → chainWith times fs = .ok m → Built m
  | left {routine : Matrix Float → SvdMode → Except String Svd.Found} {a : Matrix Float} {mode : SvdMode}
      {f : Svd} : Built a → Svd.decomposeWith routine a mode = .ok f → Built f.u
  | right {routine : Matrix Float → SvdMode → Except String Svd.Found} {a : Matrix Float} {mode : SvdMode}
      {f : Svd} : Built a → Svd.decomposeWith routine a mode = .ok f → Built f.vt
  | sigma {routine : Matrix Float → SvdMode → Except String Svd.Found} {a : Matrix Float} {mode : SvdMode}
      {f : Svd} : Built a → Svd.decomposeWith routine a mode = .ok f →
        f.rankBound * f.rankBound < Size.limit → Built f.sigma
  | generate {σ : Type} {next : σ → Float × σ} {n : Nat} {s : σ} {m : Matrix Float} :
      (Generate.generate next n s).1 = .ok m → Built m
  | copied (rows cols : Nat) (entry : Nat → Nat → Float) : Built (ofFn rows cols entry)

theorem wellFormed_of_sub (ha : a.WellFormed) (hb : b.WellFormed) (h : a.sub b = .ok c) :
    c.WellFormed := by
  unfold sub at h
  split at h
  · rename_i hshape
    cases h
    have hlength : b.data.length = a.data.length := by
      rw [ha, hb]
      simp only [shape, Prod.mk.injEq] at hshape
      rw [hshape.1, hshape.2]
    change (List.zipWith (· - ·) a.data b.data).length = a.rows * a.cols
    rw [List.length_zipWith, hlength, Nat.min_self]
    exact ha
  · cases h

section Products

variable {times : Grid Float → Grid Float → Grid Float}

theorem wellFormed_of_multiply (h : multiplyWith times a b = .ok c) : c.WellFormed := by
  unfold multiplyWith at h
  split at h
  · cases h
    exact wellFormed_productWith times a b
  · cases h

/-- Each product of a chain is well formed, and without one the chain is its first factor. -/
theorem wellFormed_of_chain {fs : List (Matrix Float)} (hfs : ∀ f ∈ fs, f.WellFormed)
    (h : chainWith times fs = .ok m) : m.WellFormed := by
  have hgo (acc : Matrix Float) (rest : List (Matrix Float)) (hacc : acc.WellFormed)
      (hrest : rest.foldlM (multiplyWith times) acc = .ok m) : m.WellFormed := by
    induction rest generalizing acc with
    | nil =>
      cases hrest
      exact hacc
    | cons f rest ih =>
      rw [List.foldlM_cons] at hrest
      obtain ⟨p, hp, hrest⟩ := bind_ok_iff.1 hrest
      exact ih p (wellFormed_of_multiply hp) hrest
  cases fs with
  | nil => cases h
  | cons first rest => exact hgo first rest (hfs first List.mem_cons_self) h

end Products

theorem Built.wellFormed (h : Built m) : m.WellFormed := by
  induction h with
  | zeros => exact wellFormed_zeros _ _
  | identity => exact wellFormed_identity _
  | diagonal => exact wellFormed_diagonal _
  | ofData h => exact wellFormed_of_ofData h
  | ofRows h => exact wellFormed_of_ofRows h
  | ofBytes h => exact wellFormed_of_ofBytes h
  | transpose => exact wellFormed_transpose _
  | sub _ _ h iha ihb => exact wellFormed_of_sub iha ihb h
  | multiply _ _ h => exact wellFormed_of_multiply h
  | chain _ h ih => exact wellFormed_of_chain ih h
  | left _ h => exact (Svd.wellFormed_decomposeWith h).1
  | right _ h => exact (Svd.wellFormed_decomposeWith h).2
  | sigma => exact wellFormed_diagonal _
  | generate h => exact Generate.wellFormed_generate h
  | copied rows cols entry => exact wellFormed_ofFn rows cols entry

/-- A flat buffer makes a matrix exactly if the shape has as many elements, however large it is. -/
theorem exists_ofData_iff {rows cols : Nat} {data : List Float} (hdata : data.length < Size.limit) :
    (∃ m, ofData rows cols data = .ok m) ↔ rows * cols = data.length := by
  constructor
  · rintro ⟨m, hm⟩
    unfold Matrix.ofData at hm
    split at hm
    · rename_i hsize
      exact (Size.mul?_eq_some.1 hsize).1
    · cases hm
  · intro hsize
    exact ⟨⟨rows, cols, data⟩, if_pos (Size.mul?_eq_some.2 ⟨hsize, hdata⟩)⟩

/-- All that reads a matrix has a result: by an index, by rows, value by value, and as a text. Norms read
the values without an index. -/
structure Readable (m : Matrix Float) : Prop where
  index : ∀ i < m.rows, ∀ j < m.cols, place? m.cols i j = some (i * m.cols + j) ∧
    i * m.cols + j < m.data.length
  bounds : ∀ i < m.rows, m.bounds? i = some (i * m.cols, (i + 1) * m.cols) ∧
    (i + 1) * m.cols ≤ m.data.length
  cell : ∀ i < m.rows, ∀ j < m.cols, ∃ v, m.cellAt? i j = some v ∧ m.element i j = .value v
  row : ∀ i < m.rows, m.rowAt? i = some (m.row i) ∧ m.row? i = some (m.row i)
  rows : m.rowsAt? = some m.rowList ∧ m.rowList? = some m.rowList
  transpose : m.transposeAt? = some m.transpose ∧ m.transpose? = some m.transpose
  text : m.textAt? = some m.text ∧ m.text? = some m.text
  sub : ∀ b : Matrix Float, b.WellFormed → b.shape = m.shape →
    ∃ c, m.sub b = .ok c ∧ c.WellFormed ∧ m.distance b = .ok c.norm

theorem WellFormed.readable (h : m.WellFormed) (hs : m.Sized) : m.Readable where
  index := by
    intro i hi j hj
    have hcount := hs.count
    rw [h] at hcount ⊢
    exact ⟨place?_eq hi hj hcount, index_lt hi hj⟩
  bounds := fun i hi => bounds?_eq h hs hi
  cell := by
    intro i hi j hj
    obtain ⟨v, -, hcell, helement⟩ := exists_cellAt? h hs hi hj
    exact ⟨v, hcell, helement⟩
  row := fun i hi => rowAt?_eq h hs hi
  rows := rowsAt?_eq h hs
  transpose := transposeAt?_eq h hs
  text := textAt?_eq h hs
  sub := by
    intro b hb hshape
    have hsub : m.sub b = .ok ⟨m.rows, m.cols, List.zipWith (· - ·) m.data b.data⟩ :=
      if_pos hshape.symm
    refine ⟨_, hsub, wellFormed_of_sub h hb hsub, ?_⟩
    rw [distance, hsub]
    rfl

/-- What is built is well formed, a flat buffer is taken exactly if it fills the shape, and what is well
formed can be read. -/
theorem built_filled_readable :
    (∀ m, Built m → m.WellFormed) ∧
    (∀ (rows cols : Nat) (data : List Float), data.length < Size.limit →
      ((∃ m, ofData rows cols data = .ok m) ↔ rows * cols = data.length)) ∧
    ∀ m : Matrix Float, m.WellFormed → m.Sized → m.Readable :=
  ⟨fun _ h => h.wellFormed, fun _ _ _ h => exists_ofData_iff h, fun _ h hs => h.readable hs⟩

/-- As many rows as a machine can count, and no columns. -/
def tallest : Matrix Float := ⟨18446744073709551615, 0, []⟩

theorem built_filled_readable_tallest :
    Built (zeros 2 0).transpose ∧ (zeros 2 0 : Matrix Float).transpose.WellFormed ∧
      ([] : List Float).length < Size.limit ∧
      (∃ m, ofData 18446744073709551615 0 ([] : List Float) = .ok m) ∧
      tallest.WellFormed ∧ tallest.Sized ∧ tallest.Readable := by
  have hbuilt : Built (zeros 2 0).transpose := .transpose (.zeros (by decide))
  have hsized : tallest.Sized := ⟨by decide, by decide, by decide⟩
  obtain ⟨hfilled, htaken, hreadable⟩ := built_filled_readable
  exact ⟨hbuilt, hfilled _ hbuilt, by decide, (htaken _ _ _ (by decide)).2 rfl, rfl, hsized,
    hreadable _ rfl hsized⟩

end NumericSteps.Matrix
