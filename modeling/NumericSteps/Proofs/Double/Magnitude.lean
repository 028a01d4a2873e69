import NumericSteps.Proofs.Double.Arithmetic
import NumericSteps.Proofs.Double.Nearest

namespace NumericSteps.Double

open Float.Model (Format UnpackedFloat)
open Float.Model.UnpackedFloat

/-- The rank of the number without a sign that has a code. -/
def place (c : Nat) : Int ×ₗ Int ×ₗ Int :=
  if c = infinityCode then toLex (2, toLex (0, 0))
  else if c = 0 then toLex (0, toLex (0, 0))
  else toLex (1, toLex (exponent c, (mantissa c : Int)))

theorem parts_lt_iff {c c' : Nat} :
    exponent c < exponent c' ∨ exponent c = exponent c' ∧ mantissa c < mantissa c' ↔ c < c' := by
  unfold exponent mantissa normalCode
  split <;> split <;> omega

theorem place_lt_iff {c c' : Nat} (hc : c ≤ infinityCode) (hc' : c' ≤ infinityCode) :
    place c < place c' ↔ c < c' := by
  have hpos : 0 < infinityCode := by decide
  unfold place
  split_ifs <;> simp [Prod.Lex.toLex_lt_toLex, parts_lt_iff] <;> omega

section Unpacked

variable {b : BitVec Format.binary64.numBits}

theorem rank_abs_unpack (h : b.toNat % signBit ≤ infinityCode) :
    rank (unpack .binary64 b).abs = place (b.toNat % signBit) := by
  unfold place
  split
  · rename_i hinf
    obtain ⟨s, hs⟩ := unpack_infinity hinf
    rw [hs]
    rfl
  · rename_i hinf
    split
    · rename_i hzero
      obtain ⟨s, hs⟩ := unpack_zero hzero
      rw [hs]
      rfl
    · rename_i hzero
      obtain ⟨s, hm, hs⟩ := unpack_finite hzero (lt_of_le_of_ne h hinf)
      rw [hs]
      rfl

end Unpacked

section Doubles

variable {x y : Float}

theorem rank_abs (hx : x.isNaN = false) : rank x.abs.toModel.unpack = place (code x) := by
  rw [unpack_abs]
  apply rank_abs_unpack
  rw [← not_lt]
  exact fun h => Bool.eq_false_iff.1 hx ((isNaN_iff x).2 h)

theorem code_le (hx : x.isNaN = false) : code x ≤ infinityCode := by
  rw [← not_lt, ← isNaN_iff, hx]
  exact Bool.false_ne_true

theorem abs_lt_abs_iff (hx : x.isNaN = false) (hy : y.isNaN = false) :
    x.abs < y.abs ↔ code x < code y := by
  rw [lt_iff_rank ((isNaN_abs x).trans hx) ((isNaN_abs y).trans hy), rank_abs hx, rank_abs hy,
    place_lt_iff (code_le hx) (code_le hy)]

theorem abs_le_abs_iff (hx : x.isNaN = false) (hy : y.isNaN = false) :
    x.abs ≤ y.abs ↔ code x ≤ code y := by
  rw [le_iff_rank ((isNaN_abs x).trans hx) ((isNaN_abs y).trans hy), rank_abs hx, rank_abs hy,
    ← not_lt, place_lt_iff (code_le hy) (code_le hx), not_lt]

end Doubles

end NumericSteps.Double
