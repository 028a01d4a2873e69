import Mathlib.Algebra.Order.Field.Basic
import Mathlib.Algebra.Order.Field.Power
import Mathlib.Data.Nat.Cast.Order.Field
import Mathlib.Data.Rat.Cast.Order
import Mathlib.Tactic.FieldSimp
import Mathlib.Tactic.Linarith
import Mathlib.Tactic.NormNum
import Mathlib.Tactic.Positivity
import Mathlib.Tactic.Ring
import NumericSteps.Double

namespace NumericSteps

theorem Tie.choose_mul (tie : Tie) {k : Nat} (hk : 0 < k) (below rest den : Nat) :
    tie.choose below (k * rest) (k * den) = tie.choose below rest den := by
  have hl : 2 * (k * rest) < k * den ↔ 2 * rest < den := by
    rw [Nat.mul_left_comm, Nat.mul_lt_mul_left hk]
  have hu : k * den < 2 * (k * rest) ↔ den < 2 * rest := by
    rw [Nat.mul_left_comm, Nat.mul_lt_mul_left hk]
  simp only [choose, hl, hu]

theorem Tie.roundDiv_mul_mul (tie : Tie) {k : Nat} (hk : 0 < k) (num den : Nat) :
    tie.roundDiv (k * num) (k * den) = tie.roundDiv num den := by
  rw [roundDiv, Nat.mul_div_mul_left _ _ hk, Nat.mul_mod_mul_left, choose_mul tie hk, roundDiv]

theorem Tie.choose_mono (tie : Tie) (below den : Nat) {rest rest' : Nat} (h : rest ≤ rest') :
    tie.choose below rest den ≤ tie.choose below rest' den := by
  unfold Tie.choose
  cases tie <;> dsimp only <;> split_ifs <;> omega

theorem Tie.roundDiv_add_mul (tie : Tie) (n : Nat) {rest den : Nat} (h : rest < den) :
    tie.roundDiv (rest + n * den) den = tie.choose n rest den := by
  have hd : 0 < den := by omega
  rw [roundDiv, Nat.add_mul_div_right _ _ hd, Nat.add_mul_mod_self_right, Nat.div_eq_of_lt h,
    Nat.mod_eq_of_lt h, Nat.zero_add]

theorem Tie.le_roundDiv (tie : Tie) {n num den : Nat} (h : n ≤ num / den) :
    n ≤ tie.roundDiv num den := by
  rcases tie.roundDiv_eq num den with hr | hr <;> omega

theorem Tie.roundDiv_mono_left (tie : Tie) (den : Nat) {num num' : Nat} (h : num ≤ num') :
    tie.roundDiv num den ≤ tie.roundDiv num' den := by
  rcases (Nat.div_le_div_right (c := den) h).eq_or_lt with hsame | hlt
  · have hrest : num % den ≤ num' % den := by
      have hnum := Nat.div_add_mod num den
      have hnum' := Nat.div_add_mod num' den
      rw [hsame] at hnum
      omega
    rw [roundDiv, roundDiv, hsame]
    exact tie.choose_mono _ den hrest
  · have hup : num' / den ≤ tie.roundDiv num' den := tie.le_roundDiv le_rfl
    rcases tie.roundDiv_eq num den with hr | hr <;> omega

theorem Tie.roundDiv_mono (tie : Tie) {a b c d : Nat} (hb : 0 < b) (hd : 0 < d)
    (h : a * d ≤ c * b) : tie.roundDiv a b ≤ tie.roundDiv c d := by
  rw [← tie.roundDiv_mul_mul hd a b, ← tie.roundDiv_mul_mul hb c d, Nat.mul_comm d b]
  apply tie.roundDiv_mono_left
  rwa [Nat.mul_comm d a, Nat.mul_comm b c]

/-- What is less than half a unit from an integer is rounded to it. -/
theorem Tie.roundDiv_near (tie : Tie) {n num den : Nat} (hl : 2 * (n * den) < 2 * num + den)
    (hu : 2 * num < 2 * (n * den) + den) : tie.roundDiv num den = n := by
  rcases Nat.le_total (n * den) num with hle | hle
  · obtain ⟨rest, rfl⟩ := Nat.exists_eq_add_of_le' hle
    rw [tie.roundDiv_add_mul n (by omega)]
    exact if_pos (by omega)
  · rcases hle.eq_or_lt with rfl | hlt
    · exact tie.roundDiv_mul n den (by omega)
    cases n with
    | zero => omega
    | succ k =>
      have hk : (k + 1) * den = k * den + den := Nat.succ_mul k den
      obtain ⟨rest, rfl⟩ := Nat.exists_eq_add_of_le' (show k * den ≤ num by omega)
      rw [tie.roundDiv_add_mul k (by omega)]
      unfold Tie.choose
      rw [if_neg (by omega), if_pos (by omega)]

/-- A half is rounded to the even neighbour. -/
theorem Tie.roundDiv_half {n num den : Nat} (hd : 0 < den) (h : 2 * num = 2 * (n * den) + den) :
    Tie.even.roundDiv num den = n + n % 2 := by
  obtain ⟨rest, rfl⟩ := Nat.exists_eq_add_of_le' (show n * den ≤ num by omega)
  rw [Tie.even.roundDiv_add_mul n (by omega)]
  unfold Tie.choose
  rw [if_neg (by omega), if_neg (by omega)]

namespace Double

/-- The value of a quotient. -/
def ratio (q : Nat × Nat) : ℚ := q.1 / q.2

variable {base num den : Nat} {k e : Int} {x : ℚ}

theorem divPow_pos (hb : 0 < base) (hd : 0 < den) : 0 < (divPow base num den k).2 := by
  unfold divPow
  split
  · exact Nat.mul_pos hd (Nat.pow_pos hb)
  · exact hd

theorem ratio_divPow :
    ratio (divPow base num den k) = num / den / (base : ℚ) ^ k := by
  unfold divPow ratio
  split
  · rename_i hk
    obtain ⟨n, rfl⟩ := Int.eq_ofNat_of_zero_le hk
    simp [div_div]
  · rename_i hk
    obtain ⟨n, hn⟩ := Int.eq_ofNat_of_zero_le (a := -k) (by omega)
    obtain rfl : k = -n := by omega
    simp [mul_div_right_comm]

theorem div_lt_iff_ratio {q : Nat × Nat} (hq : 0 < q.2) {n : Nat} : q.1 / q.2 < n ↔ ratio q < n := by
  have hq' : (0 : ℚ) < q.2 := Nat.cast_pos.2 hq
  rw [Nat.div_lt_iff_lt_mul hq, ratio, div_lt_iff₀ hq', ← Nat.cast_mul, Nat.cast_lt]

/-- The exponent at which a value is rounded: it leaves 53 bits, or is the least there is. -/
structure IsBottom (x : ℚ) (e : Int) : Prop where
  least : -1074 ≤ e
  lt : x < 2 ^ (e + 53)
  le : e = -1074 ∨ 2 ^ (e + 52) ≤ x

theorem isBottom_max (hl : 2 ^ (k + 52) ≤ x) (hu : x < 2 ^ (k + 53)) :
    IsBottom x (max k (-1074)) := by
  rcases le_total (-1074) k with hk | hk
  · rw [max_eq_left hk]
    exact ⟨hk, hu, Or.inr hl⟩
  · rw [max_eq_right hk]
    refine ⟨le_rfl, hu.trans_le ?_, Or.inl rfl⟩
    exact zpow_le_zpow_right₀ one_le_two (by omega)

theorem IsBottom.le_of_le (h : IsBottom x e) {y : ℚ} (hxy : x ≤ y) {e' : Int} (h' : IsBottom y e') :
    e ≤ e' := by
  rcases h.le with rfl | hl
  · exact h'.least
  · have := (zpow_lt_zpow_iff_right₀ (one_lt_two : (1 : ℚ) < 2)).1 ((hl.trans hxy).trans_lt h'.lt)
    omega

theorem IsBottom.unique (h : IsBottom x e) {e' : Int} (h' : IsBottom x e') : e = e' :=
  le_antisymm (h.le_of_le le_rfl h') (h'.le_of_le le_rfl h)

theorem two_zpow_add_53 (e : Int) : (2 : ℚ) ^ (e + 53) = 2 * normalCode * 2 ^ e := by
  rw [add_comm, zpow_add₀ two_ne_zero]
  norm_num [normalCode]

theorem two_zpow_add_52 (e : Int) : (2 : ℚ) ^ (e + 52) = normalCode * 2 ^ e := by
  rw [add_comm, zpow_add₀ two_ne_zero]
  norm_num [normalCode]

theorem le_log2 {n : Nat} (hn : n ≠ 0) : (2 : ℚ) ^ (n.log2 : Int) ≤ n := by
  rw [zpow_natCast]
  exact_mod_cast Nat.log2_self_le hn

theorem lt_log2 (n : Nat) : (n : ℚ) < 2 ^ ((n.log2 : Int) + 1) := by
  have h : n < 2 ^ (n.log2 + 1) := Nat.lt_log2_self
  exact_mod_cast h

theorem le_div_log2 (hn : num ≠ 0) (hd : den ≠ 0) :
    (2 : ℚ) ^ ((num.log2 : Int) - (den.log2 + 1)) ≤ num / den := by
  rw [zpow_sub₀ two_ne_zero]
  exact div_le_div₀ (Nat.cast_nonneg _) (le_log2 hn) (by positivity) (lt_log2 den).le

theorem div_lt_log2 (hd : den ≠ 0) :
    (num : ℚ) / den < 2 ^ ((num.log2 : Int) + 1 - den.log2) := by
  rw [zpow_sub₀ two_ne_zero]
  exact div_lt_div₀ (lt_log2 num) (le_log2 hd) (by positivity) (by positivity)

/-- Whether a quotient has more than 53 bits at an exponent. -/
theorem test_iff (hd : den ≠ 0) :
    (divPow 2 num den k).1 / (divPow 2 num den k).2 < 2 * normalCode ↔
      (num : ℚ) / den < 2 ^ (k + 53) := by
  rw [div_lt_iff_ratio (divPow_pos two_pos (Nat.pos_of_ne_zero hd)), ratio_divPow, Nat.cast_two,
    div_lt_iff₀ (by positivity), two_zpow_add_53]
  norm_num

theorem isBottom_bottomExponent (hn : num ≠ 0) (hd : den ≠ 0) :
    IsBottom (num / den) (bottomExponent num den) := by
  have hl := le_div_log2 hn hd
  have hu : (num : ℚ) / den < _ := div_lt_log2 hd
  unfold bottomExponent
  dsimp only
  split
  · rename_i hlt
    exact isBottom_max (hl.trans_eq' (by congr 1; ring)) ((test_iff hd).1 hlt)
  · rename_i hlt
    rw [test_iff hd, not_lt] at hlt
    exact isBottom_max (hlt.trans_eq' (by congr 1; ring)) (hu.trans_eq (by congr 1; ring))

theorem nearestCode_eq (hn : num ≠ 0) (hd : den ≠ 0) (he : IsBottom (num / den) e) :
    nearestCode num den =
      min ((e + 1074).toNat * normalCode +
        Tie.even.roundDiv (divPow 2 num den e).1 (divPow 2 num den e).2) infinityCode := by
  rw [nearestCode, if_neg hn, (isBottom_bottomExponent hn hd).unique he]

theorem nearestCode_zero (den : Nat) : nearestCode 0 den = 0 := if_pos rfl

theorem roundDiv_le_of_ratio (tie : Tie) {p q : Nat × Nat} (hp : 0 < p.2) (hq : 0 < q.2)
    (h : ratio p ≤ ratio q) : tie.roundDiv p.1 p.2 ≤ tie.roundDiv q.1 q.2 := by
  rw [ratio, ratio, div_le_div_iff₀ (Nat.cast_pos.2 hp) (Nat.cast_pos.2 hq)] at h
  exact tie.roundDiv_mono hp hq (by exact_mod_cast h)

theorem roundDiv_near_ratio (tie : Tie) {q : Nat × Nat} (hq : 0 < q.2) {n : Nat}
    (hl : n - 1 / 2 < ratio q) (hu : ratio q < n + 1 / 2) : tie.roundDiv q.1 q.2 = n := by
  have hq' : (0 : ℚ) < q.2 := Nat.cast_pos.2 hq
  rw [ratio, lt_div_iff₀ hq'] at hl
  rw [ratio, div_lt_iff₀ hq'] at hu
  apply tie.roundDiv_near
  · have : (2 * (n * q.2) : ℚ) < 2 * q.1 + q.2 := by linarith
    exact_mod_cast this
  · have : (2 * q.1 : ℚ) < 2 * (n * q.2) + q.2 := by linarith
    exact_mod_cast this

/-- The quotient at the bottom has 53 bits, or the exponent is the least there is. -/
theorem IsBottom.full (hd : den ≠ 0) (he : IsBottom (num / den) e) :
    e = -1074 ∨ normalCode ≤ Tie.even.roundDiv (divPow 2 num den e).1 (divPow 2 num den e).2 := by
  have hpos : 0 < (divPow 2 num den e).2 := divPow_pos two_pos (Nat.pos_of_ne_zero hd)
  refine he.le.imp_right fun hle => Tie.even.le_roundDiv ?_
  rw [← not_lt, div_lt_iff_ratio hpos, not_lt, ratio_divPow, Nat.cast_two,
    le_div_iff₀ (by positivity)]
  exact (two_zpow_add_52 e).symm.trans_le hle

theorem IsBottom.roundDiv_le (hd : den ≠ 0) (he : IsBottom (num / den) e) :
    Tie.even.roundDiv (divPow 2 num den e).1 (divPow 2 num den e).2 ≤ 2 * normalCode := by
  have hlt := (test_iff hd).2 he.lt
  rcases Tie.even.roundDiv_eq (divPow 2 num den e).1 (divPow 2 num den e).2 with hr | hr <;> omega

/-- A larger quotient has no smaller code. -/
theorem nearestCode_mono {num' den' : Nat} (hd : den ≠ 0) (hd' : den' ≠ 0)
    (h : (num : ℚ) / den ≤ num' / den') : nearestCode num den ≤ nearestCode num' den' := by
  by_cases hn : num = 0
  · rw [hn, nearestCode_zero]
    exact Nat.zero_le _
  have hpos : (0 : ℚ) < num / den := by positivity
  have hn' : num' ≠ 0 := by
    rintro rfl
    rw [Nat.cast_zero, zero_div] at h
    exact absurd hpos (not_lt.2 h)
  have he := isBottom_bottomExponent hn hd
  have he' := isBottom_bottomExponent hn' hd'
  rw [nearestCode_eq hn hd he, nearestCode_eq hn' hd' he']
  apply min_le_min_right
  rcases (he.le_of_le h he').eq_or_lt with heq | hlt
  · rw [← heq]
    apply Nat.add_le_add_left
    apply roundDiv_le_of_ratio _ (divPow_pos two_pos (Nat.pos_of_ne_zero hd))
      (divPow_pos two_pos (Nat.pos_of_ne_zero hd'))
    rw [ratio_divPow, ratio_divPow]
    gcongr
  · -- In the next binade even the least quotient has more than the largest one here.
    have hlow := he.roundDiv_le hd
    have hleast := he.least
    rcases he'.full hd' with hb | hfull
    · omega
    · unfold normalCode at *
      omega

/-- What is less than half a unit from a multiple of the unit at the bottom has its code. -/
theorem nearestCode_near {m : Nat} (hn : num ≠ 0) (hd : den ≠ 0) (he : IsBottom (num / den) e)
    (hl : (m - 1 / 2) * 2 ^ e < (num : ℚ) / den) (hu : (num : ℚ) / den < (m + 1 / 2) * 2 ^ e) :
    nearestCode num den = min ((e + 1074).toNat * normalCode + m) infinityCode := by
  have hpow : (0 : ℚ) < 2 ^ e := by positivity
  rw [nearestCode_eq hn hd he,
    roundDiv_near_ratio _ (divPow_pos two_pos (Nat.pos_of_ne_zero hd)) (n := m)]
  · rwa [ratio_divPow, Nat.cast_two, lt_div_iff₀ hpow]
  · rwa [ratio_divPow, Nat.cast_two, div_lt_iff₀ hpow]

/-- From two to the power 1024 on, values are nearest to infinity. -/
theorem nearestCode_large (hd : den ≠ 0) (h : (2 : ℚ) ^ (1024 : Int) ≤ num / den) :
    nearestCode num den = infinityCode := by
  have hn : num ≠ 0 := by
    rintro rfl
    rw [Nat.cast_zero, zero_div] at h
    exact absurd h (not_le.2 (by positivity))
  have he := isBottom_bottomExponent hn hd
  have hlow := (zpow_lt_zpow_iff_right₀ (one_lt_two : (1 : ℚ) < 2)).1 (h.trans_lt he.lt)
  have hfull := (he.full hd).resolve_left (by omega)
  rw [nearestCode_eq hn hd he, min_eq_right]
  unfold infinityCode normalCode at *
  omega

/-- Below half the least value, values are nearest to zero. -/
theorem nearestCode_small (hd : den ≠ 0) (h : (num : ℚ) / den < 2 ^ (-1075 : Int)) :
    nearestCode num den = 0 := by
  by_cases hn : num = 0
  · rw [hn, nearestCode_zero]
  have hhalf : (2 : ℚ) ^ (-1075 : Int) = 1 / 2 * 2 ^ (-1074 : Int) := by
    rw [show (-1075 : Int) = -1 + -1074 by rfl, zpow_add₀ two_ne_zero]
    norm_num
  have hbottom : IsBottom ((num : ℚ) / den) (-1074) :=
    ⟨le_rfl, h.trans_le (zpow_le_zpow_right₀ one_le_two (by norm_num)), Or.inl rfl⟩
  have hpos : (0 : ℚ) ≤ num / den := by positivity
  have hunit : (0 : ℚ) < 2 ^ (-1074 : Int) := by positivity
  rw [hhalf] at h
  rw [nearestCode_near (m := 0) hn hd hbottom]
  · rfl
  · rw [Nat.cast_zero]
    linarith
  · rw [Nat.cast_zero, zero_add]
    exact h

end Double

end NumericSteps
