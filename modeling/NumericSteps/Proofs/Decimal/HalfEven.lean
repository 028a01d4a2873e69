import NumericSteps.Proofs.Decimal.Value

namespace NumericSteps.Decimal

open Double

variable {c : Nat} {d : Decimal}

/-- The number half way between the values of a code and the next one. -/
def halfway (c : Nat) : ℚ := ((exact c).number + (exact (c + 1)).number) / 2

theorem halfway_eq_upper (c : Nat) : halfway c = (mantissa c + 1 / 2) * 2 ^ Double.exponent c := by
  rw [halfway, number_exact, number_exact, value_succ]
  ring

theorem halfway_eq_lower (c : Nat) :
    halfway c = (mantissa (c + 1) - margin (c + 1)) * 2 ^ Double.exponent (c + 1) := by
  rw [sub_mul, margin_succ, value_succ, halfway_eq_upper]
  ring

theorem nearest_halfway (hc : c < infinityCode) (h : d.number = halfway c) :
    d.nearest = c + c % 2 := by
  rw [halfway_eq_upper, ← ratio_scaled] at h
  rw [nearest_eq]
  exact nearestCode_halfway hc (scaled_pos d) h

theorem nearest_le_of_lt (hc : c < infinityCode) (h : d.number < halfway c) : d.nearest ≤ c := by
  rcases le_or_gt d.number (exact c).number with hle | hgt
  · exact (nearest_mono hle).trans_eq (nearest_exact hc)
  · have hpow : (0 : ℚ) < 2 ^ Double.exponent c := by positivity
    have hmargin := (margin_bounds c).1
    rw [halfway_eq_upper] at h
    rw [number_exact] at hgt
    refine (nearest_around hc ?_ h).le
    nlinarith

/-- Half way up from a code there is a decimal too. -/
theorem exists_halfway (c : Nat) : ∃ d : Decimal, d.number = halfway c := by
  refine ⟨dyadic (2 * mantissa c + 1) (Double.exponent c - 1), ?_⟩
  rw [number_dyadic, halfway_eq_upper, zpow_sub_one₀ two_ne_zero]
  push_cast
  ring

theorem lt_nearest_of_lt (hc : c < infinityCode) (h : halfway c < d.number) : c < d.nearest := by
  rcases (Nat.succ_le_of_lt hc).eq_or_lt with hlast | hnext
  · -- Above the largest code there is only infinity, to which the half is rounded.
    obtain ⟨d', hd'⟩ := exists_halfway c
    have hodd : c % 2 = 1 := by
      unfold infinityCode normalCode at hlast
      omega
    have hback := nearest_halfway hc hd'
    have hmono : d'.nearest ≤ d.nearest := nearest_mono (hd' ▸ h.le)
    omega
  · rcases le_or_gt (exact (c + 1)).number d.number with hle | hgt
    · have hmono := nearest_mono hle
      rw [nearest_exact hnext] at hmono
      exact hmono
    · rw [halfway_eq_lower] at h
      have hpow : (0 : ℚ) < 2 ^ Double.exponent (c + 1) := by positivity
      rw [number_exact] at hgt
      refine (nearest_around hnext h ?_).ge
      nlinarith

/-- Rounding to nearest: the codes up to `c` are read from the numbers below the half way up from it, and
from the half itself if `c` is even. -/
theorem nearest_le_iff (hc : c < infinityCode) :
    d.nearest ≤ c ↔ d.number < halfway c ∨ d.number = halfway c ∧ c % 2 = 0 := by
  rcases lt_trichotomy d.number (halfway c) with hlt | heq | hgt
  · exact iff_of_true (nearest_le_of_lt hc hlt) (Or.inl hlt)
  · rw [nearest_halfway hc heq]
    simp only [heq, lt_irrefl, true_and, false_or]
    omega
  · have habove := lt_nearest_of_lt hc hgt
    refine iff_of_false (not_le.2 habove) ?_
    rintro (h | ⟨h, -⟩)
    · exact lt_asymm h hgt
    · exact hgt.ne' h

theorem number_exact_mono : Monotone fun c => (exact c).number := by
  refine monotone_nat_of_le_succ fun c => ?_
  rw [number_exact, number_exact, value_succ]
  gcongr
  linarith

/-- No double is closer to a decimal than the one it is read as. -/
theorem nearest_closest (hd : d.nearest < infinityCode) (c : Nat) :
    |d.number - (exact d.nearest).number| ≤ |d.number - (exact c).number| := by
  rcases lt_trichotomy c d.nearest with hlt | heq | hgt
  · obtain ⟨k, hk⟩ := Nat.exists_eq_succ_of_ne_zero (n := d.nearest) (by omega)
    have hlower : halfway k ≤ d.number := by
      by_contra h
      have hle := (nearest_le_iff (by omega)).2 (Or.inl (not_le.1 h))
      omega
    have hbelow : (exact c).number ≤ (exact k).number := number_exact_mono (by omega)
    have hstep : (exact k).number ≤ (exact (k + 1)).number := number_exact_mono k.le_succ
    rw [halfway] at hlower
    rw [hk]
    refine (abs_le.2 ⟨?_, ?_⟩).trans (le_abs_self _) <;> linarith
  · rw [heq]
  · have hupper : d.number ≤ halfway d.nearest := by
      rcases (nearest_le_iff hd).1 le_rfl with h | ⟨h, -⟩
      · exact h.le
      · exact h.le
    have habove : (exact (d.nearest + 1)).number ≤ (exact c).number := number_exact_mono hgt
    have hstep : (exact d.nearest).number ≤ (exact (d.nearest + 1)).number :=
      number_exact_mono d.nearest.le_succ
    rw [halfway] at hupper
    rw [abs_sub_comm d.number (exact c).number]
    refine (abs_le.2 ⟨?_, ?_⟩).trans (le_abs_self _) <;> linarith

end NumericSteps.Decimal
