import NumericSteps.Matrix.Json
import NumericSteps.Proofs.Json.ReadBack
import NumericSteps.Proofs.Matrix.Built
import NumericSteps.Proofs.Matrix.Chain

namespace NumericSteps.Matrix

open NumericSteps.Json

variable {α : Type} {m : Matrix Float} {cs : List Char}

section Using

/-- The rows that are cut are made of the values up to the end of the shape. -/
theorem flatten_cutRows_eq_take (width n : Nat) (xs : List α) :
    (cutRows width n xs).flatten = xs.take (n * width) := by
  induction n generalizing xs with
  | zero => simp [cutRows]
  | succ n ih =>
    rw [cutRows, List.flatten_cons, ih, Nat.succ_mul, Nat.add_comm, List.take_add]

/-- Every operation has a result, and none leaves values out. -/
structure Usable (m : Matrix Float) : Prop where
  rows : ∃ rs, m.rowList? = some rs ∧ rs.flatten = m.data
  transpose : ∃ t, m.transpose? = some t ∧ t.transpose? = some m
  multiply : ∀ r : Matrix Float, r.WellFormed → m.cols = r.rows →
    ∃ p, m.multiply? r = some (.ok p) ∧ p.WellFormed
  sub : ∀ b : Matrix Float, b.WellFormed → m.shape = b.shape →
    ∃ c, m.sub b = .ok c ∧ c.data.length = m.data.length
  text : ∃ s, m.text? = some s

theorem WellFormed.usable (h : m.WellFormed) : m.Usable where
  rows := ⟨m.rowList, if_pos h.backed, flatten_cutRows h⟩
  transpose := by
    refine ⟨m.transpose, if_pos h.backed, ?_⟩
    rw [transpose?, if_pos (wellFormed_transpose m).backed, transpose_transpose h]
  multiply := by
    intro r hr hinner
    exact ⟨_, multiplyWith?_ok h.backed hr.backed hinner, wellFormed_productWith Grid.times m r⟩
  sub := by
    intro b hb hshape
    have hsub : m.sub b = .ok ⟨m.rows, m.cols, List.zipWith (· - ·) m.data b.data⟩ := if_pos hshape
    refine ⟨_, hsub, ?_⟩
    have hc : (⟨m.rows, m.cols, List.zipWith (· - ·) m.data b.data⟩ : Matrix Float).WellFormed :=
      wellFormed_of_sub h hb hsub
    rw [hc, h]
  text := ⟨m.text, if_pos h.backed⟩

theorem mapM_eq_none {β : Type} {f : β → Option α} {x : β} {xs : List β} (hx : x ∈ xs)
    (hf : f x = none) : xs.mapM f = none := by
  induction xs with
  | nil => cases hx
  | cons y ys ih =>
    rw [List.mapM_cons]
    rcases List.mem_cons.1 hx with rfl | hmem
    · rw [hf]
      rfl
    · rw [ih hmem]
      cases f y <;> rfl

/-- Too few values for the shape: the rows stop at the last one, and so does all that reads them. -/
theorem stops_of_short (h : m.data.length < m.rows * m.cols) :
    m.rowsAt? = none ∧ m.rowList? = none ∧ m.transpose? = none ∧ m.text? = none := by
  have hback : ¬ m.Backed := Nat.not_le_of_lt h
  have hrows : 0 < m.rows := Nat.pos_of_ne_zero fun hz => by simp [hz] at h
  have hlast : m.rowAt? (m.rows - 1) = none := by
    rw [rowAt?, Option.bind_eq_none_iff]
    intro b hb
    have hend : b.2 = m.rows * m.cols := by
      simp only [bounds?, Option.bind_eq_bind, Option.bind_eq_some_iff, Size.mul?_eq_some,
        Size.add?_eq_some] at hb
      obtain ⟨first, -, next, ⟨hnext, -⟩, last, ⟨hmul, -⟩, hpair⟩ := hb
      cases hpair
      have hrow : next = m.rows := by omega
      rw [← hrow, hmul]
    exact if_neg fun hfits => by omega
  have hall : m.rowsAt? = none := mapM_eq_none (List.mem_range.2 (by omega)) hlast
  exact ⟨hall, if_neg hback, if_neg hback, if_neg hback⟩

/-- More values than the shape holds: those behind its end are in no row. -/
theorem drops_of_long (h : m.rows * m.cols < m.data.length) :
    ∃ rs, m.rowList? = some rs ∧ rs.flatten = m.data.take (m.rows * m.cols) ∧ rs.flatten ≠ m.data := by
  have hflatten : m.rowList.flatten = m.data.take (m.rows * m.cols) :=
    flatten_cutRows_eq_take m.cols m.rows m.data
  refine ⟨m.rowList, if_pos (Nat.le_of_lt h), hflatten, fun he => ?_⟩
  have hlength : (m.data.take (m.rows * m.cols)).length = m.data.length := by rw [← hflatten, he]
  rw [List.length_take] at hlength
  omega

theorem usable_iff : m.Usable ↔ m.WellFormed := by
  constructor
  · intro h
    obtain ⟨rs, hrows, hflatten⟩ := h.rows
    by_contra hne
    rcases Nat.lt_or_gt_of_ne hne with hshort | hlong
    · rw [(stops_of_short hshort).2.1] at hrows
      cases hrows
    · obtain ⟨rs', hrows', -, hdrop⟩ := drops_of_long hlong
      rw [hrows] at hrows'
      cases hrows'
      exact hdrop hflatten
  · exact WellFormed.usable

end Using

section Reading

/-- The text holds a record of a shape and an array of values. -/
def Fields (cs : List Char) (rows cols : Json) (items : List Json) : Prop :=
  ∃ j, Json.read cs = some j ∧
    record ["rows", "cols", "data"] j = some [some rows, some cols, some (.array items)]

theorem length_of_mapM {items : List Json} {xs : List Float} (h : items.mapM toFloat = some xs) :
    xs.length = items.length := by
  induction items generalizing xs with
  | nil =>
    cases h
    rfl
  | cons j items ih =>
    rw [List.mapM_cons] at h
    obtain ⟨x, -, hrest⟩ := Option.bind_eq_some_iff.1 h
    obtain ⟨ys, hys, hcons⟩ := Option.bind_eq_some_iff.1 hrest
    cases hcons
    rw [List.length_cons, List.length_cons, ih hys]

theorem readJson_iff : readJson cs = some m ↔ ∃ rows cols items, Fields cs rows cols items ∧
    toNat rows = some m.rows ∧ toNat cols = some m.cols ∧ items.mapM toFloat = some m.data := by
  constructor
  · intro h
    obtain ⟨j, hj, hm⟩ := Option.bind_eq_some_iff.1 h
    unfold ofJson at hm
    split at hm
    · rename_i rows cols values hrecord
      simp only [Option.bind_eq_bind, Option.bind_eq_some_iff] at hm
      obtain ⟨r, hr, c, hc, data, hdata, hm⟩ := hm
      cases hm
      cases values with
      | array items => exact ⟨rows, cols, items, ⟨j, hj, hrecord⟩, hr, hc, hdata⟩
      | _ => cases hdata
    · cases hm
  · rintro ⟨rows, cols, items, ⟨j, hj, hrecord⟩, hr, hc, hdata⟩
    rw [readJson, hj, Option.bind_some, ofJson, hrecord]
    simp [hr, hc, toList, hdata]

/-- The shape does not matter for reading. -/
theorem readJson_json (hrows : m.rows < wordLimit) (hcols : m.cols < wordLimit)
    (hdata : ∀ x ∈ m.data, Json.Exact x) : readJson m.json = some m := by
  have harray : Denotes (writeArray (m.data.map writeNumber)) (.array (m.data.map ofFloat)) := by
    apply denotes_array
    rw [List.forall₂_map_left_iff, List.forall₂_map_right_iff, List.forall₂_same]
    exact fun x _ => denotes_number x
  have hobject : Denotes m.json (.object (keyed ["rows", "cols", "data"]
      [.number (writeNat m.rows), .number (writeNat m.cols), .array (m.data.map ofFloat)])) :=
    denotes_object (.cons (denotes_nat m.rows) (.cons (denotes_nat m.cols) (.cons harray .nil)))
  have hvalues : (m.data.map ofFloat).mapM toFloat = some m.data := by
    rw [List.mapM_map]
    have hsame := mapM_some (g := id) fun x hx => (toFloat_ofFloat x).trans (hdata x hx)
    rwa [List.map_id] at hsame
  exact readJson_iff.2 ⟨_, _, _, ⟨_, hobject.read_eq, record_object (by simp) rfl⟩,
    toNat_writeNat hrows, toNat_writeNat hcols, hvalues⟩

/-- What is accepted as a matrix is usable exactly if the text has as many values as its shape has
elements. With fewer the rows cannot all be read; of more, those behind the end of the shape are in no
row. Nothing is refused for that: the same values are accepted with any shape. -/
theorem accepted_usable_iff (h : readJson cs = some m) :
    ∃ rows cols items, Fields cs rows cols items ∧ toNat rows = some m.rows ∧
      toNat cols = some m.cols ∧ items.mapM toFloat = some m.data ∧
      (m.Usable ↔ items.length = m.rows * m.cols) ∧
      (items.length < m.rows * m.cols →
        m.rowsAt? = none ∧ m.rowList? = none ∧ m.transpose? = none ∧ m.text? = none) ∧
      (m.rows * m.cols < items.length → ∃ rs, m.rowList? = some rs ∧
        rs.flatten = m.data.take (m.rows * m.cols) ∧ rs.flatten ≠ m.data) ∧
      ∀ r c : Nat, r < wordLimit → c < wordLimit → (∀ x ∈ m.data, Json.Exact x) →
        readJson (⟨r, c, m.data⟩ : Matrix Float).json = some ⟨r, c, m.data⟩ := by
  obtain ⟨rows, cols, items, hfields, hrows, hcols, hdata⟩ := readJson_iff.1 h
  have hlength : m.data.length = items.length := length_of_mapM hdata
  refine ⟨rows, cols, items, hfields, hrows, hcols, hdata, ?_, ?_, ?_, ?_⟩
  · rw [usable_iff, WellFormed, hlength]
  · rw [← hlength]
    exact stops_of_short
  · rw [← hlength]
    exact drops_of_long
  · intro r c hr hc hexact
    exact readJson_json hr hc hexact

/-- The text with this shape and two values. -/
def pairText (shape : String) : List Char := ("\x7b" ++ shape ++ ",\"data\":[1,2]\x7d").toList

theorem accepted_usable_iff_row :
    readJson (pairText "\"rows\":1,\"cols\":2") = some ⟨1, 2, [1, 2]⟩ ∧
      (⟨1, 2, [1, 2]⟩ : Matrix Float).Usable ∧
      readJson (⟨2, 2, [1, 2]⟩ : Matrix Float).json = some ⟨2, 2, [1, 2]⟩ := by
  have hread : readJson (pairText "\"rows\":1,\"cols\":2") = some ⟨1, 2, [1, 2]⟩ := by
    decide +kernel
  obtain ⟨-, -, items, -, -, -, hdata, husable, -, -, hshape⟩ := accepted_usable_iff hread
  have hcount : items.length = 2 := (length_of_mapM hdata).symm
  exact ⟨hread, husable.2 hcount, hshape 2 2 (by decide) (by decide) (by decide +kernel)⟩

/-- Two values are accepted for a shape of four elements. -/
theorem not_accepted_filled :
    ¬ ∀ (cs : List Char) (m : Matrix Float), readJson cs = some m → m.WellFormed := by
  intro h
  have hread : readJson (pairText "\"rows\":2,\"cols\":2") = some ⟨2, 2, [1, 2]⟩ := by
    decide +kernel
  have hfilled : (2 : Nat) = 2 * 2 := h _ _ hread
  omega

end Reading

end NumericSteps.Matrix
