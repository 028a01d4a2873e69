import NumericSteps.Proofs.Double.Nearest

namespace NumericSteps.Double

variable {num den c : Nat} {e : Int}

/-- Just below a power of two the unit is half as large as from there on. -/
theorem nearestCode_below_power (hd : den ≠ 0) (hk : -1074 ≤ e)
    (hl : (2 * normalCode - 1 / 2) * 2 ^ e < (num : ℚ) / den)
    (hu : (num : ℚ) / den < 2 * normalCode * 2 ^ e) :
    nearestCode num den = min ((e + 1074).toNat * normalCode + 2 * normalCode) infinityCode := by
  have hpow : (0 : ℚ) < 2 ^ e := by positivity
  have hone : (1 : ℚ) ≤ normalCode := by norm_num [normalCode]
  have hn : num ≠ 0 := by
    rintro rfl
    rw [Nat.cast_zero, zero_div] at hl
    nlinarith
  have he : IsBottom ((num : ℚ) / den) e := by
    refine ⟨hk, hu.trans_eq (two_zpow_add_53 e).symm, Or.inr ?_⟩
    rw [two_zpow_add_52]
    nlinarith
  apply nearestCode_near hn hd he
  · push_cast
    exact hl
  · push_cast
    nlinarith

/-- How far below its value the quotients end that are nearest to a code. The doubles below a power of
two are closer to each other than those above it. -/
def margin (c : Nat) : ℚ := if mantissa c = normalCode ∧ normalCode < c then 1 / 4 else 1 / 2

theorem margin_bounds (c : Nat) : 0 < margin c ∧ margin c ≤ 1 / 2 := by
  unfold margin
  split <;> norm_num

/-- The quotients around the value of a finite code are nearest to the code. -/
theorem nearestCode_around (hc : c < infinityCode) (hd : den ≠ 0)
    (hl : (mantissa c - margin c) * 2 ^ exponent c < (num : ℚ) / den)
    (hu : (num : ℚ) / den < (mantissa c + 1 / 2) * 2 ^ exponent c) :
    nearestCode num den = c := by
  have hpow : (0 : ℚ) < 2 ^ exponent c := by positivity
  have hmargin := (margin_bounds c).2
  have hleast := exponent_least c
  have hparts := code_parts c
  by_cases hn : num = 0
  · have hz : c = 0 := by
      by_contra hz
      have hone : (1 : ℚ) ≤ mantissa c := by exact_mod_cast mantissa_pos hz
      rw [hn, Nat.cast_zero, zero_div] at hl
      nlinarith
    rw [hn, hz, nearestCode_zero]
  by_cases hb : exponent c = -1074 ∨ 2 ^ (exponent c + 52) ≤ (num : ℚ) / den
  · have hlt : (num : ℚ) / den < 2 ^ (exponent c + 53) := by
      have hm : (mantissa c : ℚ) + 1 ≤ 2 * normalCode := by exact_mod_cast mantissa_lt c
      rw [two_zpow_add_53]
      nlinarith
    rw [nearestCode_near hn hd ⟨hleast, hlt, hb⟩ (hl.trans_le' ?_) hu, hparts, min_eq_left hc.le]
    exact mul_le_mul_of_nonneg_right (by linarith) hpow.le
  · obtain ⟨hexp, hlow⟩ := not_or.1 hb
    rw [two_zpow_add_52, not_le] at hlow
    have hnormal : ¬ c < normalCode := fun hc' => hexp (if_pos hc')
    -- Below the least mantissa of its binade there is room for the value of the code alone.
    have hm : mantissa c = normalCode ∧ normalCode < c := by
      have hge := (exponent_or_full c).resolve_left hexp
      have hcast : (mantissa c : ℚ) - 1 / 2 < normalCode :=
        (mul_lt_mul_iff_of_pos_right hpow).1 ((hl.trans_le' (by gcongr)).trans hlow)
      have hlt : mantissa c < normalCode + 1 := by
        have : (mantissa c : ℚ) < normalCode + 1 := by linarith
        exact_mod_cast this
      have hne : c ≠ normalCode := by
        rintro rfl
        exact hexp rfl
      omega
    have hhalf : (2 : ℚ) ^ exponent c = 2 * 2 ^ (exponent c - 1) := by
      rw [zpow_sub_one₀ two_ne_zero]
      ring
    rw [margin, if_pos hm, hm.1, hhalf] at hl
    rw [hhalf] at hlow
    rw [nearestCode_below_power (e := exponent c - 1) hd (by omega) (by linarith) (by linarith)]
    unfold normalCode at *
    omega

/-- The value of a finite code is nearest to that code. -/
theorem nearestCode_value (hc : c < infinityCode) (hd : den ≠ 0)
    (h : (num : ℚ) / den = mantissa c * 2 ^ exponent c) : nearestCode num den = c := by
  have hpow : (0 : ℚ) < 2 ^ exponent c := by positivity
  have hmargin := (margin_bounds c).1
  apply nearestCode_around hc hd
  · rw [h]
    nlinarith
  · rw [h]
    nlinarith

/-- The next code has the next mantissa, or the least one of the next binade. -/
theorem succ_cases (c : Nat) :
    (mantissa (c + 1) = mantissa c + 1 ∧ exponent (c + 1) = exponent c ∧
      ¬ (mantissa (c + 1) = normalCode ∧ normalCode < c + 1)) ∨
    (mantissa c + 1 = 2 * normalCode ∧ exponent (c + 1) = exponent c + 1 ∧
      mantissa (c + 1) = normalCode ∧ normalCode < c + 1) := by
  unfold mantissa exponent normalCode
  split_ifs <;> omega

theorem value_succ (c : Nat) : mantissa (c + 1) * (2 : ℚ) ^ exponent (c + 1) =
    (mantissa c + 1) * 2 ^ exponent c := by
  rcases succ_cases c with ⟨hm, he, -⟩ | ⟨hlast, he, hm, -⟩
  · rw [hm, he, Nat.cast_succ]
  · have hcast : (mantissa c : ℚ) + 1 = 2 * normalCode := by exact_mod_cast hlast
    rw [hm, he, hcast, zpow_add_one₀ two_ne_zero]
    ring

/-- The distance to the code before is what stands between the two. -/
theorem margin_succ (c : Nat) : margin (c + 1) * (2 : ℚ) ^ exponent (c + 1) =
    1 / 2 * 2 ^ exponent c := by
  rcases succ_cases c with ⟨-, he, hnot⟩ | ⟨-, he, hpower⟩
  · rw [margin, if_neg hnot, he]
  · rw [margin, if_pos hpower, he, zpow_add_one₀ two_ne_zero]
    ring

/-- Half way between two neighbours the even one of them is nearest. -/
theorem nearestCode_halfway (hc : c < infinityCode) (hd : den ≠ 0)
    (h : (num : ℚ) / den = (mantissa c + 1 / 2) * 2 ^ exponent c) :
    nearestCode num den = c + c % 2 := by
  have hpow : (0 : ℚ) < 2 ^ exponent c := by positivity
  have hm : (mantissa c : ℚ) + 1 ≤ 2 * normalCode := by exact_mod_cast mantissa_lt c
  have hm0 : (0 : ℚ) ≤ mantissa c := Nat.cast_nonneg _
  have hn : num ≠ 0 := by
    rintro rfl
    rw [Nat.cast_zero, zero_div] at h
    nlinarith
  have he : IsBottom ((num : ℚ) / den) (exponent c) := by
    refine ⟨exponent_least c, ?_, ?_⟩
    · rw [two_zpow_add_53, h]
      nlinarith
    · refine (exponent_or_full c).imp_right fun hfull => ?_
      have hcast : (normalCode : ℚ) ≤ mantissa c := by exact_mod_cast hfull
      rw [two_zpow_add_52, h]
      nlinarith
  have hpos : 0 < (divPow 2 num den (exponent c)).2 := divPow_pos two_pos (Nat.pos_of_ne_zero hd)
  have hround : Tie.even.roundDiv (divPow 2 num den (exponent c)).1 (divPow 2 num den (exponent c)).2 =
      mantissa c + mantissa c % 2 := by
    have hratio : ratio (divPow 2 num den (exponent c)) = mantissa c + 1 / 2 := by
      rw [ratio_divPow, h, Nat.cast_two, mul_div_cancel_right₀ _ hpow.ne']
    have hpos' : ((divPow 2 num den (exponent c)).2 : ℚ) ≠ 0 := Nat.cast_ne_zero.2 hpos.ne'
    apply Tie.roundDiv_half hpos
    rw [ratio, div_eq_iff hpos'] at hratio
    have htwice : (2 * (divPow 2 num den (exponent c)).1 : ℚ) =
        2 * (mantissa c * (divPow 2 num den (exponent c)).2) + (divPow 2 num den (exponent c)).2 := by
      rw [hratio]
      ring
    exact_mod_cast htwice
  have hparts := code_parts c
  rw [nearestCode_eq hn hd he, hround]
  unfold infinityCode normalCode at *
  omega

end NumericSteps.Double
