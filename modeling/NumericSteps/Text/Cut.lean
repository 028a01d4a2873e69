namespace NumericSteps.Text

variable {α : Type} [DecidableEq α]

/-- The pieces between the separators; a list without a separator is one piece. -/
def cut (sep : α) : List α → List (List α)
  | [] => [[]]
  | x :: xs =>
    if x = sep then [] :: cut sep xs
    else match cut sep xs with
      | [] => [[x]]
      | piece :: pieces => (x :: piece) :: pieces

theorem cut_ne_nil (sep : α) (xs : List α) : cut sep xs ≠ [] := by
  cases xs with
  | nil => simp [cut]
  | cons x xs =>
    simp only [cut]
    split
    · simp
    · split <;> simp

theorem cut_of_not_mem (sep : α) (xs : List α) (h : sep ∉ xs) : cut sep xs = [xs] := by
  induction xs with
  | nil => rfl
  | cons x xs ih =>
    simp only [List.mem_cons, not_or] at h
    simp [cut, ih h.2, Ne.symm h.1]

theorem cut_append_sep (sep : α) (xs ys : List α) (h : sep ∉ xs) :
    cut sep (xs ++ sep :: ys) = xs :: cut sep ys := by
  induction xs with
  | nil => simp [cut]
  | cons x xs ih =>
    simp only [List.mem_cons, not_or] at h
    simp [cut, ih h.2, Ne.symm h.1]

/-- The pieces laid end to end with separators between are the list again. -/
theorem intercalate_cut (sep : α) (xs : List α) : [sep].intercalate (cut sep xs) = xs := by
  induction xs with
  | nil => rfl
  | cons x xs ih =>
    simp only [cut]
    split
    · rename_i h
      subst h
      cases hc : cut x xs with
      | nil => exact absurd hc (cut_ne_nil x xs)
      | cons p ps =>
        rw [hc] at ih
        simp [List.intercalate_cons_cons, ih]
    · cases hc : cut sep xs with
      | nil => exact absurd hc (cut_ne_nil sep xs)
      | cons p ps =>
        rw [hc] at ih
        cases ps with
        | nil => simpa [List.intercalate] using ih
        | cons q qs => simpa [List.intercalate_cons_cons] using ih

/-- Drops one `mark` at the end. -/
def dropEnd (mark : α) (xs : List α) : List α :=
  if xs.getLast? = some mark then xs.dropLast else xs

/-- Every piece but the last was ended by a separator; the last is a line only if it holds
something. -/
def closeLines (mark : α) : List (List α) → List (List α)
  | [] => []
  | [last] => if last = [] then [] else [last]
  | piece :: next :: pieces => dropEnd mark piece :: closeLines mark (next :: pieces)

/-- Lines end with `feed`, and a `mark` right before it is dropped. -/
def lines (mark feed : α) (xs : List α) : List (List α) := closeLines mark (cut feed xs)

/-- What stands before the first separator. -/
def firstPiece (sep : α) (xs : List α) : List α := xs.takeWhile (· ≠ sep)

end NumericSteps.Text
