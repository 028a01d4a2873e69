import NumericSteps.Proofs.Matrix.Grammar
import NumericSteps.Proofs.Text.Words

namespace NumericSteps

open Text

variable {l t w : List Char}

namespace Scalar

theorem ofWord_of_blank {n : Nat} (h : ∃ c ∈ w, isBlank c = true) :
    ofWord n w = .error (.notANumber n (String.ofList w)) := by
  obtain ⟨c, hc, hblank⟩ := h
  have hnone : Numeral.read w = none := by
    by_contra hread
    have hvisible := (Numeral.visible_of_read hread c hc).not_blank
    rw [hblank] at hvisible
    cases hvisible
  rw [ofWord, hnone]

theorem length_of_mapM_ofWord {n : Nat} {ws : List (List Char)} {xs : List Float}
    (h : ws.mapM (ofWord n) = .ok xs) : xs.length = ws.length := by
  induction ws generalizing xs with
  | nil =>
    cases h
    rfl
  | cons w ws ih =>
    rw [List.mapM_cons] at h
    obtain ⟨x, -, h⟩ := bind_ok_iff.1 h
    obtain ⟨ys, hws, h⟩ := bind_ok_iff.1 h
    cases h
    rw [List.length_cons, List.length_cons, ih hws]

end Scalar

namespace Matrix

open Scalar

theorem ofRows_singleton (xs : List Float) : ofRows [xs] = .ok ⟨1, xs.length, xs⟩ := by
  have hmade : ofRows [xs] = _ := ofRows_of_level (List.forall_mem_singleton.2 rfl)
  rwa [List.flatten_singleton] at hmade

theorem ofText_blank (h : '\n' ∉ l) (hw : words l = []) : ofText l = .ok ⟨0, 0, []⟩ := by
  have hvalues : lineValues 1 (encode l) = .ok [] := by
    rw [lineValues, decode_encode]
    dsimp only
    rw [hw]
    rfl
  by_cases hnil : encode l = []
  · rw [ofText, hnil]
    rfl
  · rw [ofText, ofBytes, lines_of_not_mem (mt lineFeed_mem_encode_iff.1 h) hnil, readRows, hvalues]
    rfl

/-- A line that is not blank is a row. -/
theorem ofText_line (h : '\n' ∉ l) (hw : words l ≠ []) :
    ofText l = ((words l).mapM (ofWord 1)).map fun xs => ⟨1, xs.length, xs⟩ := by
  have hvalues : lineValues 1 (encode l) = (words l).mapM (ofWord 1) := by
    rw [lineValues, decode_encode]
  have hnil : encode l ≠ [] := by
    intro hnil
    have hback := decode_encode l
    rw [hnil] at hback
    have hl : [] = l := Option.some.inj hback
    exact hw (hl ▸ rfl)
  rw [ofText, ofBytes, lines_of_not_mem (mt lineFeed_mem_encode_iff.1 h) hnil, readRows, hvalues]
  cases hxs : (words l).mapM (ofWord 1) with
  | error e => rfl
  | ok xs =>
    have hlength := length_of_mapM_ofWord hxs
    cases xs with
    | nil => exact absurd (List.length_eq_zero_iff.1 hlength.symm) hw
    | cons x xs =>
      have hwidth : (x :: xs).length = none.getD (x :: xs).length := rfl
      dsimp only
      rw [if_pos hwidth]
      exact ofRows_singleton (x :: xs)

theorem ofText_word (h : '\n' ∉ l) (hw : words l = [w]) :
    ofText l = (ofWord 1 w).map fun x => ⟨1, 1, [x]⟩ := by
  rw [ofText_line h (by simp [hw]), hw, List.mapM_cons]
  cases ofWord 1 w <;> rfl

/-- Two words on a line are not one value, and not none. -/
theorem cols_of_words (h : '\n' ∉ l) {v : List Char} {ws : List (List Char)}
    (hw : words l = v :: w :: ws) {m : Matrix Float} (hm : ofText l = .ok m) : 2 ≤ m.cols := by
  rw [ofText_line h (by simp [hw]), hw] at hm
  cases hxs : (v :: w :: ws).mapM (ofWord 1) with
  | error e =>
    rw [hxs] at hm
    cases hm
  | ok xs =>
    rw [hxs] at hm
    cases hm
    have hlength := length_of_mapM_ofWord hxs
    simp only [List.length_cons] at hlength
    dsimp only
    omega

end Matrix

namespace Scalar

/-- What the first line of a text says as a number it says as a matrix: the one value on it, or none.
Of any other line the number is refused with all that is on the line, the blanks around it aside. -/
theorem agrees_with_matrix (hl : '\n' ∉ l) (ht : t = l ∨ ∃ rest, t = l ++ '\n' :: rest) :
    (∀ x, ofText t = .ok x ↔ Matrix.ofText l = .ok ⟨1, 1, [x]⟩) ∧
    (ofText t = .error .noScalar ↔ Matrix.ofText l = .ok ⟨0, 0, []⟩) ∧
    ((∀ x, Matrix.ofText l ≠ .ok ⟨1, 1, [x]⟩) → Matrix.ofText l ≠ .ok ⟨0, 0, []⟩ →
      ofText t = .error (.notANumber 1 (String.ofList (trim l)))) := by
  have hscalar := ofText_of_first hl ht
  rcases words_cases l with ⟨hwords, htrim⟩ | ⟨hwords, htrim⟩ | ⟨⟨v, w, ws, hwords⟩, hblank⟩
  · rw [if_pos htrim] at hscalar
    simp [hscalar, Matrix.ofText_blank hl hwords]
  · rw [if_neg htrim] at hscalar
    rw [hscalar, Matrix.ofText_word hl hwords, ofWord]
    cases Numeral.read (trim l) <;> simp [Except.map]
  · have htrim : trim l ≠ [] := by
      obtain ⟨c, hc, -⟩ := hblank
      exact List.ne_nil_of_mem hc
    rw [if_neg htrim, ofWord_of_blank hblank] at hscalar
    have hcols {m : Matrix Float} (hm : Matrix.ofText l = .ok m) : 2 ≤ m.cols :=
      Matrix.cols_of_words hl hwords hm
    refine ⟨fun x => ⟨fun h => ?_, fun h => ?_⟩, ⟨fun h => ?_, fun h => ?_⟩, fun _ _ => hscalar⟩
    · rw [hscalar] at h
      cases h
    · exact absurd (hcols h) (by simp)
    · rw [hscalar] at h
      cases h
    · exact absurd (hcols h) (by simp)

/-- A wide blank and a carriage return stand around the value, and another line follows; two values are
no number, and neither is a blank line. -/
theorem agrees_with_matrix_wide :
    '\n' ∉ "\u2003-1.5e3 \r".toList ∧ '\n' ∉ "1\t2 ".toList ∧
      ofText "\u2003-1.5e3 \r\n7 x".toList = .ok (-1500) ∧
      ofText "1\t2 \n3".toList = .error (.notANumber 1 "1\t2") ∧
      ofText " \r\n3".toList = .error .noScalar := by
  have hvalue : '\n' ∉ "\u2003-1.5e3 \r".toList := by decide
  have hpair : '\n' ∉ "1\t2 ".toList := by decide
  have hblank : '\n' ∉ " \r".toList := by decide
  have hone : Matrix.ofText "\u2003-1.5e3 \r".toList = .ok ⟨1, 1, [-1500]⟩ := by decide +kernel
  have htwo : Matrix.ofText "1\t2 ".toList = .ok ⟨1, 2, [1, 2]⟩ := by decide +kernel
  have hnone : Matrix.ofText " \r".toList = .ok ⟨0, 0, []⟩ := by decide +kernel
  obtain ⟨hnumber, -, -⟩ := agrees_with_matrix hvalue (Or.inr ⟨"7 x".toList, rfl⟩)
  obtain ⟨-, -, hother⟩ := agrees_with_matrix hpair (Or.inr ⟨"3".toList, rfl⟩)
  obtain ⟨-, hempty, -⟩ := agrees_with_matrix hblank (Or.inr ⟨"3".toList, rfl⟩)
  refine ⟨hvalue, hpair, (hnumber _).2 hone, hother ?_ ?_, hempty.2 hnone⟩
  · intro x h
    rw [htwo] at h
    cases h
  · intro h
    rw [htwo] at h
    cases h

end Scalar

end NumericSteps
