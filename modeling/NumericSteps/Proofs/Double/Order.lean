import NumericSteps.Proofs.Double.Bits

namespace NumericSteps.Double

open Float.Model (Format UnpackedFloat)
open Float.Model.UnpackedFloat

section Unpacked

variable {u v : UnpackedFloat}

theorem compare_swap (u v : UnpackedFloat) : u.compare v = (v.compare u).map Ordering.swap := by
  have hsign (s s' : Sign) : compare s s' = (compare s' s).swap := by cases s <;> cases s' <;> rfl
  have hfinite (e e' : Int) (m m' : Nat) :
      (compare e e').then (compare m m') = ((compare e' e).then (compare m' m)).swap := by
    rw [Ordering.swap_then, ← Std.OrientedCmp.eq_swap, ← Std.OrientedCmp.eq_swap]
  cases u with
  | notANumber => cases v <;> rfl
  | infinity s =>
    cases v with
    | infinity s' => exact congrArg some (hsign s s')
    | _ => cases s <;> rfl
  | zero s =>
    cases v with
    | infinity s' => cases s' <;> rfl
    | finite s' m e h => cases s' <;> rfl
    | _ => rfl
  | finite s m e h =>
    cases v with
    | notANumber => rfl
    | infinity s' => cases s' <;> rfl
    | zero s' => cases s <;> rfl
    | finite s' m' e' h' =>
      cases s <;> cases s'
      · exact congrArg (fun o => some o.swap) (hfinite e e' m m')
      · rfl
      · rfl
      · exact congrArg some (hfinite e e' m m')

theorem compare_eq_none_iff : u.compare v = none ↔ u.isNaN = true ∨ v.isNaN = true := by
  fun_cases UnpackedFloat.compare u v <;> simp_all [UnpackedFloat.isNaN]

/-- The place of a number: the side of zero it is on, and there its exponent and mantissa. -/
def rank : UnpackedFloat → Int ×ₗ Int ×ₗ Int
  | .infinity .negative => toLex (-2, toLex (0, 0))
  | .finite .negative m e _ => toLex (-1, toLex (-e, -m))
  | .zero _ => toLex (0, toLex (0, 0))
  | .finite .positive m e _ => toLex (1, toLex (e, m))
  | .infinity .positive => toLex (2, toLex (0, 0))
  | .notANumber => toLex (3, toLex (0, 0))

theorem compare_eq_lt_iff (hu : u.isNaN = false) (hv : v.isNaN = false) :
    u.compare v = some .lt ↔ rank u < rank v := by
  have hbelow (e e' : Int) (m m' : Nat) :
      (compare e e').then (compare m m') = .lt ↔ e < e' ∨ e = e' ∧ m < m' := by
    rw [Ordering.then_eq_lt, Int.compare_eq_lt, Int.compare_eq_eq, Nat.compare_eq_lt]
  have habove (e e' : Int) (m m' : Nat) :
      ((compare e e').then (compare m m')).swap = .lt ↔ e' < e ∨ e = e' ∧ m' < m := by
    rw [Ordering.swap_eq_lt, Ordering.then_eq_gt, Int.compare_eq_gt, Int.compare_eq_eq,
      Nat.compare_eq_gt]
  cases u with
  | notANumber => cases hu
  | infinity s =>
    cases v with
    | notANumber => cases hv
    | infinity s' => cases s <;> cases s' <;> decide
    | zero s' => cases s <;> simp [UnpackedFloat.compare, rank, Prod.Lex.toLex_lt_toLex]
    | finite s' m e hm =>
      cases s <;> cases s' <;> simp [UnpackedFloat.compare, rank, Prod.Lex.toLex_lt_toLex]
  | zero s =>
    cases v with
    | notANumber => cases hv
    | infinity s' => cases s' <;> simp [UnpackedFloat.compare, rank, Prod.Lex.toLex_lt_toLex]
    | zero s' => simp [UnpackedFloat.compare, rank]
    | finite s' m e hm => cases s' <;> simp [UnpackedFloat.compare, rank, Prod.Lex.toLex_lt_toLex]
  | finite s m e hm =>
    cases v with
    | notANumber => cases hv
    | infinity s' =>
      cases s' <;> cases s <;> simp [UnpackedFloat.compare, rank, Prod.Lex.toLex_lt_toLex]
    | zero s' => cases s <;> simp [UnpackedFloat.compare, rank, Prod.Lex.toLex_lt_toLex]
    | finite s' m' e' hm' =>
      -- On the negative side the order of the magnitudes is turned round.
      cases s <;> cases s' <;>
        simp [UnpackedFloat.compare, rank, Prod.Lex.toLex_lt_toLex, hbelow, habove]

theorem compare_isLE_iff (hu : u.isNaN = false) (hv : v.isNaN = false) :
    (∃ o, u.compare v = some o ∧ o.isLE = true) ↔ rank u ≤ rank v := by
  have hnot : rank u ≤ rank v ↔ ¬ v.compare u = some .lt := by
    rw [compare_eq_lt_iff hv hu, not_lt]
  have hsome : u.compare v ≠ none := by simp [compare_eq_none_iff, hu, hv]
  rw [hnot, compare_swap v u]
  cases hc : u.compare v with
  | none => exact absurd hc hsome
  | some o => cases o <;> simp

end Unpacked

section Doubles

variable {x y : Float}

theorem lt_iff_compare : x < y ↔ x.toModel.unpack.compare y.toModel.unpack = some .lt := by
  change Float.lt x y = true ↔ _
  rw [Float.lt, decide_eq_true_iff]
  exact beq_iff_eq

theorem le_iff_compare :
    x ≤ y ↔ ∃ o, x.toModel.unpack.compare y.toModel.unpack = some o ∧ o.isLE = true := by
  change Float.le x y = true ↔ _
  rw [Float.le, decide_eq_true_iff]
  exact Option.any_eq_true _ _

theorem lt_iff_rank (hx : x.isNaN = false) (hy : y.isNaN = false) :
    x < y ↔ rank x.toModel.unpack < rank y.toModel.unpack := by
  rw [lt_iff_compare]
  exact compare_eq_lt_iff hx hy

theorem le_iff_rank (hx : x.isNaN = false) (hy : y.isNaN = false) :
    x ≤ y ↔ rank x.toModel.unpack ≤ rank y.toModel.unpack := by
  rw [le_iff_compare]
  exact compare_isLE_iff hx hy

theorem isNaN_eq_false_of_compare {o : Ordering}
    (h : x.toModel.unpack.compare y.toModel.unpack = some o) :
    x.isNaN = false ∧ y.isNaN = false := by
  have hboth : ¬ (x.toModel.unpack.isNaN = true ∨ y.toModel.unpack.isNaN = true) := by
    rw [← compare_eq_none_iff, h]
    exact nofun
  exact ⟨Bool.eq_false_iff.2 fun hx => hboth (Or.inl hx),
    Bool.eq_false_iff.2 fun hy => hboth (Or.inr hy)⟩

theorem isNaN_eq_false_of_lt (h : x < y) : y.isNaN = false :=
  (isNaN_eq_false_of_compare (lt_iff_compare.1 h)).2

/-- What is not above a number is at most as large, unless it is no number. -/
theorem le_iff_of_not_lt (hx : x.isNaN = false) (h : ¬ x < y) : y ≤ x ↔ y.isNaN = false := by
  have hnone : y.toModel.unpack.compare x.toModel.unpack = none ↔ y.isNaN = true := by
    rw [compare_eq_none_iff]
    exact or_iff_left (Bool.eq_false_iff.1 hx)
  rw [lt_iff_compare, compare_swap] at h
  rw [le_iff_compare, ← Bool.not_eq_true, ← hnone]
  cases hc : y.toModel.unpack.compare x.toModel.unpack with
  | none => simp
  | some o => cases o <;> simp_all

theorem lt_of_lt_of_le {z : Float} (h : x < y) (hz : y ≤ z) : x < z := by
  obtain ⟨o, ho, -⟩ := le_iff_compare.1 hz
  obtain ⟨hxnum, hynum⟩ := isNaN_eq_false_of_compare (lt_iff_compare.1 h)
  obtain ⟨-, hznum⟩ := isNaN_eq_false_of_compare ho
  rw [lt_iff_rank hxnum hznum]
  exact ((lt_iff_rank hxnum hynum).1 h).trans_le ((le_iff_rank hynum hznum).1 hz)

end Doubles

end NumericSteps.Double
