import NumericSteps.Matrix.Text
import NumericSteps.Proofs.Decimal.Visible
import NumericSteps.Proofs.Text.Lines
import NumericSteps.Proofs.Text.Words

namespace NumericSteps.Matrix

open Text

variable {α : Type}

/-- Well formed, and without elements only if there are neither rows nor columns. -/
structure Solid (m : Matrix α) : Prop where
  wellFormed : m.WellFormed
  empty : m.rows = 0 ↔ m.cols = 0

theorem length_of_mem_cutRows {width n : Nat} {xs : List α} (h : xs.length = n * width) :
    ∀ r ∈ cutRows width n xs, r.length = width := by
  induction n generalizing xs with
  | zero => simp [cutRows]
  | succ n ih =>
    rw [Nat.succ_mul] at h
    rw [cutRows, List.forall_mem_cons]
    exact ⟨by simp; omega, ih (by simp; omega)⟩

theorem flatten_cutRows {width n : Nat} {xs : List α} (h : xs.length = n * width) :
    (cutRows width n xs).flatten = xs := by
  induction n generalizing xs with
  | zero =>
    rw [Nat.zero_mul] at h
    rw [List.length_eq_zero_iff.1 h]
    rfl
  | succ n ih =>
    rw [Nat.succ_mul] at h
    rw [cutRows, List.flatten_cons, ih (by simp; omega), List.take_append_drop]

theorem joinRows_flatten {width line : Nat} {rs : List (List α)}
    (h : ∀ r ∈ rs, r.length = width) : joinRows width line rs = .ok rs.flatten := by
  induction rs generalizing line with
  | nil => rfl
  | cons r rs ih =>
    rw [List.forall_mem_cons] at h
    rw [joinRows, if_pos h.1, ih h.2]
    rfl

/-- Lists that all have the length of the first are rows. -/
theorem ofRows_of_level {rs : List (List α)} (h : ∀ r ∈ rs, r.length = headLength rs) :
    ofRows rs = .ok ⟨rs.length, headLength rs, rs.flatten⟩ := by
  rw [ofRows, joinRows_flatten h]
  rfl

/-- A matrix is made of its rows. -/
theorem ofRows_rowList {m : Matrix α} (h : m.Solid) : ofRows m.rowList = .ok m := by
  obtain ⟨rows, cols, data⟩ := m
  have hrows : ∀ r ∈ cutRows cols rows data, r.length = cols := length_of_mem_cutRows h.wellFormed
  have hwidth : headLength (cutRows cols rows data) = cols := by
    cases rows with
    | zero => exact (h.empty.1 rfl).symm
    | succ n => exact hrows _ List.mem_cons_self
  have hflat : (cutRows cols rows data).flatten = data := flatten_cutRows h.wellFormed
  have hmade : ofRows (cutRows cols rows data) = _ :=
    ofRows_of_level fun r hr => (hrows r hr).trans hwidth.symm
  rwa [hwidth, hflat, length_cutRows] at hmade

theorem cutRows_flatten {width : Nat} {rs : List (List α)} (h : ∀ r ∈ rs, r.length = width) :
    cutRows width rs.length rs.flatten = rs := by
  induction rs with
  | nil => rfl
  | cons r rs ih =>
    rw [List.forall_mem_cons] at h
    rw [List.length_cons, cutRows, List.flatten_cons, List.take_left' h.1, List.drop_left' h.1, ih h.2]

/-- Rows of one length are the rows of a matrix. -/
theorem ofRows_rectangular {rs : List (List α)} (h : ∀ r ∈ rs, ∀ t ∈ rs, r.length = t.length) :
    ∃ m, ofRows rs = .ok m ∧ m.rowList = rs ∧ (rs = [] → m = ⟨0, 0, []⟩) := by
  have hlevel : ∀ r ∈ rs, r.length = headLength rs := by
    cases rs with
    | nil => simp
    | cons t rs => exact fun r hr => h r hr t List.mem_cons_self
  refine ⟨_, ofRows_of_level hlevel, cutRows_flatten hlevel, ?_⟩
  rintro rfl
  rfl

theorem mapM_ofWord (n : Nat) (xs : List Float) :
    (xs.map Scalar.chars).mapM (Scalar.ofWord n) = .ok xs := by
  induction xs with
  | nil => rfl
  | cons x xs ih =>
    have hx : Scalar.ofWord n (Scalar.chars x) = .ok x := by
      rw [Scalar.ofWord, Scalar.read_chars]
    rw [List.map_cons, List.mapM_cons, hx, ih]
    rfl

theorem words_rowChars (xs : List Float) : words (rowChars xs) = xs.map Scalar.chars := by
  apply words_intercalate rfl
  intro w hw
  obtain ⟨x, -, rfl⟩ := List.mem_map.1 hw
  exact ⟨Scalar.chars_ne_nil x, fun c hc => (Scalar.visible_chars x c hc).not_blank⟩

theorem lineValues_rowChars (n : Nat) (xs : List Float) :
    lineValues n (encode (rowChars xs)) = .ok xs := by
  unfold lineValues
  rw [decode_encode]
  dsimp only
  rw [words_rowChars, mapM_ofWord]

/-- No character of a row ends a line. -/
theorem printed_rowChars (xs : List Float) : ∀ c ∈ rowChars xs, 32 ≤ c.toNat := by
  have hchars (x : Float) : ∀ c ∈ Scalar.chars x, 32 ≤ c.toNat := fun c hc =>
    (Scalar.visible_chars x c hc).1.le
  induction xs with
  | nil => simp [rowChars]
  | cons x xs ih =>
    cases xs with
    | nil => simpa [rowChars] using hchars x
    | cons y ys =>
      rw [rowChars, List.map_cons, List.map_cons, List.intercalate_cons_cons,
        List.forall_mem_append, List.forall_mem_append]
      exact ⟨⟨hchars x, List.forall_mem_singleton.2 le_rfl⟩, ih⟩

theorem lines_chars (m : Matrix Float) :
    lines carriageReturn lineFeed (encode m.chars) = m.rowList.map fun r => encode (rowChars r) := by
  have hbyte (r : List Float) (b : UInt8) (hb : b.toNat < 32) : b ∉ encode (rowChars r) := by
    intro hm
    obtain ⟨c, hc, he⟩ := toNat_of_mem_encode (by omega) hm
    have := printed_rowChars r c hc
    omega
  have hchars : encode m.chars =
      (m.rowList.map fun r => encode (rowChars r)).flatMap fun p => p ++ [lineFeed] := by
    rw [chars, encode_flatten, rowLines, List.map_map, List.flatMap_map, List.flatMap_def]
    exact congrArg List.flatten (List.map_congr_left fun r _ => encode_append (rowChars r) ['\n'])
  rw [hchars, lines_ended]
  · intro p hp
    obtain ⟨r, -, rfl⟩ := List.mem_map.1 hp
    exact hbyte r lineFeed (by decide)
  · intro p hp hm
    obtain ⟨r, -, rfl⟩ := List.mem_map.1 hp
    exact hbyte r carriageReturn (by decide) (List.mem_of_getLast? hm)

theorem readRows_rows {rows : List (List Float)} {width : Option Nat} {k : Nat} (hk : 0 < k)
    (hw : width.getD k = k) (h : ∀ r ∈ rows, r.length = k) (n : Nat) :
    readRows width n (rows.map fun r => encode (rowChars r)) = .ok rows := by
  induction rows generalizing width n with
  | nil => rfl
  | cons r rows ih =>
    rw [List.forall_mem_cons] at h
    obtain ⟨x, xs, rfl⟩ := List.exists_cons_of_length_pos (h.1 ▸ hk)
    rw [List.map_cons, readRows, lineValues_rowChars]
    dsimp only
    rw [h.1, hw, if_pos rfl, ih rfl h.2]
    rfl

theorem readRows_blank {rows : List (List Float)} (h : ∀ r ∈ rows, r = []) (width : Option Nat) (n : Nat) :
    readRows width n (rows.map fun r => encode (rowChars r)) = .ok [] := by
  induction rows generalizing n with
  | nil => rfl
  | cons r rows ih =>
    rw [List.forall_mem_cons] at h
    rw [List.map_cons, readRows, lineValues_rowChars, h.1]
    exact ih h.2 (n + 1)

/-- A matrix without elements is written in blank lines, if any, which are no rows. -/
theorem ofBytes_encode_empty {m : Matrix Float} (h : m.WellFormed) (he : m.rows = 0 ∨ m.cols = 0) :
    ofBytes (encode m.chars) = .ok ⟨0, 0, []⟩ := by
  have hlength : ∀ r ∈ m.rowList, r.length = m.cols := length_of_mem_cutRows h
  have hrows : ∀ r ∈ m.rowList, r = [] := by
    intro r hr
    rcases he with hr0 | hc0
    · simp [rowList, hr0, cutRows] at hr
    · exact List.eq_nil_of_length_eq_zero (hc0 ▸ hlength r hr)
  rw [ofBytes, lines_chars, readRows_blank hrows]
  rfl

theorem ofBytes_encode {m : Matrix Float} (h : m.Solid) : ofBytes (encode m.chars) = .ok m := by
  have hrows : ∀ r ∈ m.rowList, r.length = m.cols := length_of_mem_cutRows h.wellFormed
  have hread : readRows none 1 (m.rowList.map fun r => encode (rowChars r)) = .ok m.rowList := by
    rcases Nat.eq_zero_or_pos m.cols with hc | hc
    · rw [rowList, h.empty.2 hc]
      rfl
    · exact readRows_rows hc rfl hrows 1
  rw [ofBytes, lines_chars, hread]
  exact ofRows_rowList h

end NumericSteps.Matrix
