import NumericSteps.Proofs.Decimal.Value

namespace NumericSteps.Decimal

open Double

section Magnitude

variable {num den : Nat} {k : Int}

theorem belowPower_iff (hd : den ≠ 0) :
    belowPower num den k = true ↔ (num : ℚ) / den < 10 ^ k := by
  have hpos : (0 : ℚ) < (divPow 10 num den k).2 :=
    Nat.cast_pos.2 (divPow_pos (by norm_num) (Nat.pos_of_ne_zero hd))
  have hratio : ratio (divPow 10 num den k) < 1 ↔ (num : ℚ) / den < 10 ^ k := by
    rw [ratio_divPow, div_lt_one (by positivity)]
    norm_num
  rw [← hratio, ratio, div_lt_one hpos, Nat.cast_lt]
  exact decide_eq_true_iff

theorem raise_spec (hd : den ≠ 0) (steps : Nat) (hl : (10 : ℚ) ^ (k - 1) ≤ num / den)
    (hu : (num : ℚ) / den < 10 ^ (k + steps)) :
    (10 : ℚ) ^ (raise num den steps k - 1) ≤ num / den ∧
      (num : ℚ) / den < 10 ^ raise num den steps k := by
  induction steps generalizing k with
  | zero =>
    rw [Nat.cast_zero, add_zero] at hu
    exact ⟨hl, hu⟩
  | succ steps ih =>
    unfold raise
    split
    · rename_i hbelow
      exact ⟨hl, (belowPower_iff hd).1 hbelow⟩
    · rename_i hbelow
      rw [belowPower_iff hd, not_lt] at hbelow
      apply ih
      · rwa [add_sub_cancel_right]
      · rwa [add_assoc, add_comm 1, ← Nat.cast_succ]

/-- The estimate from the binary logarithm is at most three too low. -/
theorem magnitude_spec (hn : num ≠ 0) (hd : den ≠ 0) (hl : (2 : ℚ) ^ (-1074 : Int) ≤ num / den)
    (hu : (num : ℚ) / den < 2 ^ (1024 : Int)) :
    (10 : ℚ) ^ (magnitude num den - 1) ≤ num / den ∧ (num : ℚ) / den < 10 ^ magnitude num den := by
  have hlow := le_div_log2 hn hd
  have hhigh : (num : ℚ) / den < _ := div_lt_log2 hd
  have hmin := (zpow_lt_zpow_iff_right₀ (one_lt_two : (1 : ℚ) < 2)).1 (hl.trans_lt hhigh)
  have hmax := (zpow_lt_zpow_iff_right₀ (one_lt_two : (1 : ℚ) < 2)).1 (hlow.trans_lt hu)
  rw [magnitude, Int.fdiv_eq_ediv_of_nonneg _ (by norm_num)]
  apply raise_spec hd
  · refine hlow.trans' (ten_zpow_le_two_zpow ?_ ?_) <;> omega
  · refine hhigh.trans_le (two_zpow_le_ten_zpow ?_ ?_) <;> omega

end Magnitude

section Value

variable {c : Nat}

theorem value_pos (c : Nat) : (value c).2 ≠ 0 := (divPow_pos two_pos one_pos).ne'

theorem ratio_value (c : Nat) : ratio (value c) = (exact c).number := by
  rw [value, ratio_divPow, number_exact]
  simp [zpow_neg]

theorem le_number_exact (hz : c ≠ 0) : (2 : ℚ) ^ (-1074 : Int) ≤ (exact c).number := by
  have hone : (1 : ℚ) ≤ mantissa c := by exact_mod_cast mantissa_pos hz
  rw [number_exact]
  calc (2 : ℚ) ^ (-1074 : Int) ≤ 2 ^ Double.exponent c :=
        zpow_le_zpow_right₀ one_le_two (exponent_least c)
    _ ≤ mantissa c * 2 ^ Double.exponent c := le_mul_of_one_le_left (by positivity) hone

theorem number_exact_lt (hc : c < infinityCode) : (exact c).number < 2 ^ (1024 : Int) := by
  have hm : (mantissa c : ℚ) < 2 * normalCode := by exact_mod_cast mantissa_lt c
  have he : Double.exponent c + 53 ≤ 1024 := by
    unfold infinityCode normalCode at hc
    unfold Double.exponent normalCode
    split <;> omega
  rw [number_exact]
  calc (mantissa c : ℚ) * 2 ^ Double.exponent c < 2 * normalCode * 2 ^ Double.exponent c :=
        mul_lt_mul_of_pos_right hm (by positivity)
    _ = 2 ^ (Double.exponent c + 53) := (two_zpow_add_53 _).symm
    _ ≤ 2 ^ (1024 : Int) := zpow_le_zpow_right₀ one_le_two he

/-- The least power of ten above the value of a code. -/
def top (c : Nat) : Int := magnitude (value c).1 (value c).2

theorem top_spec (hz : c ≠ 0) (hc : c < infinityCode) :
    (10 : ℚ) ^ (top c - 1) ≤ (exact c).number ∧ (exact c).number < 10 ^ top c := by
  have hl := le_number_exact hz
  have hu := number_exact_lt hc
  rw [← ratio_value] at hl hu ⊢
  have hn : (value c).1 ≠ 0 := by
    intro hn
    rw [ratio, hn, Nat.cast_zero, zero_div] at hl
    exact absurd hl (not_le.2 (by positivity))
  exact magnitude_spec hn (value_pos c) hl hu

end Value

section Grid

variable {c : Nat} {k : Int} {tie : Tie} {d : Decimal}

theorem neighbour_ne_none_iff {num den : Nat} : neighbour tie c k num den ≠ none ↔
    nearest ⟨num / den, k⟩ = c ∨ nearest ⟨num / den + 1, k⟩ = c := by
  unfold neighbour
  split <;> simp_all

theorem bounds_of_neighbour {num den : Nat} (h : neighbour tie c k num den = some d) :
    d.exponent = k ∧ d.digits ≤ num / den + 1 := by
  unfold neighbour at h
  split at h
  · cases h
    refine ⟨rfl, ?_⟩
    dsimp only
    rcases tie.roundDiv_eq num den with hr | hr <;> omega
  · cases h
    exact ⟨rfl, Nat.le_succ _⟩
  · cases h
    exact ⟨rfl, le_rfl⟩
  · cases h

/-- The multiple of a power of ten next below the value of a code. -/
def cut (c : Nat) (k : Int) : Nat :=
  (divPow 10 (value c).1 (value c).2 k).1 / (divPow 10 (value c).1 (value c).2 k).2

theorem cut_lt_iff {n : Nat} : cut c k < n ↔ (exact c).number < number ⟨n, k⟩ := by
  have hpos : 0 < (divPow 10 (value c).1 (value c).2 k).2 :=
    divPow_pos (by norm_num) (Nat.pos_of_ne_zero (value_pos c))
  have hratio : ratio (divPow 10 (value c).1 (value c).2 k) = (exact c).number / 10 ^ k := by
    rw [ratio_divPow, ← ratio_value, ratio]
    norm_num
  rw [cut, div_lt_iff_ratio hpos, hratio, div_lt_iff₀ (by positivity)]
  rfl

theorem number_cut_le : number ⟨cut c k, k⟩ ≤ (exact c).number := by
  rw [← not_lt, ← cut_lt_iff]
  exact lt_irrefl _

theorem lt_number_cut : (exact c).number < number ⟨cut c k + 1, k⟩ :=
  cut_lt_iff.1 (Nat.lt_succ_self _)

theorem number_le_number {n m : Nat} (h : n ≤ m) : number ⟨n, k⟩ ≤ number ⟨m, k⟩ := by
  unfold number
  gcongr

theorem number_ten_pow (n : Nat) (k : Int) : number ⟨10 ^ n, k⟩ = 10 ^ (n + k) := by
  rw [number, Nat.cast_pow, ← zpow_natCast, Nat.cast_ofNat, ← zpow_add₀ (by norm_num)]

/-- If any multiple of a power of ten reads back as a code, one next to the value of the code does. -/
theorem onGrid_ne_none {j : Nat} (hc : c < infinityCode) (hj : nearest ⟨j, k⟩ = c) :
    onGrid tie c k ≠ none := by
  have hexact := nearest_exact hc
  apply neighbour_ne_none_iff.2
  rcases Nat.lt_or_ge (cut c k) j with hlt | hge
  · exact Or.inr (nearest_of_between hexact hj lt_number_cut.le (number_le_number hlt))
  · exact Or.inl (nearest_of_between hj hexact (number_le_number hge) number_cut_le)

/-- A decimal with few digits that reads back as a code leads to one on the grid of as many digits. -/
theorem exists_multiple {m : Nat} (hz : c ≠ 0) (hc : c < infinityCode) (hd : d.nearest = c)
    (hm : 0 < m) (hlt : d.digits < 10 ^ m) (hk : k + m ≤ top c) : ∃ j, nearest ⟨j, k⟩ = c := by
  rcases le_or_gt k d.exponent with hle | hgt
  · obtain ⟨n, hn⟩ := Int.eq_ofNat_of_zero_le (sub_nonneg.2 hle)
    refine ⟨d.digits * 10 ^ n, (nearest_congr ?_).trans hd⟩
    have he : d.exponent = n + k := by omega
    rw [number, number, he, zpow_add₀ (by norm_num), zpow_natCast]
    push_cast
    ring
  · -- The decimal is below the power of ten of the first digit, which lies on the grid.
    refine ⟨10 ^ (m - 1), nearest_of_between hd (nearest_exact hc) ?_ ?_⟩
    · rw [number_ten_pow]
      calc d.number ≤ 10 ^ m * 10 ^ d.exponent :=
            mul_le_mul_of_nonneg_right (by exact_mod_cast hlt.le) (by positivity)
        _ = 10 ^ (m + d.exponent) := by rw [zpow_add₀ (by norm_num), zpow_natCast]
        _ ≤ 10 ^ ((m - 1 : Nat) + k) := zpow_le_zpow_right₀ (by norm_num) (by omega)
    · rw [number_ten_pow]
      exact (zpow_le_zpow_right₀ (by norm_num) (by omega)).trans (top_spec hz hc).1

/-- Seventeen digits are enough: that grid is finer than the doubles are. -/
theorem exists_multiple_17 (hz : c ≠ 0) (hc : c < infinityCode) (hk : k + 17 ≤ top c) :
    ∃ j, nearest ⟨j, k⟩ = c := by
  have hpow : (0 : ℚ) < 2 ^ Double.exponent c := by positivity
  have hgrid : 10 ^ 16 * (10 : ℚ) ^ k ≤ mantissa c * 2 ^ Double.exponent c := by
    rw [← number_exact]
    calc (10 : ℚ) ^ 16 * 10 ^ k = 10 ^ (16 + k) := by rw [zpow_add₀ (by norm_num)]; rfl
      _ ≤ 10 ^ (top c - 1) := zpow_le_zpow_right₀ (by norm_num) (by omega)
      _ ≤ (exact c).number := (top_spec hz hc).1
  have hfine : (10 : ℚ) ^ k < (margin c + 1 / 2) * 2 ^ Double.exponent c := by
    have hm : (mantissa c : ℚ) < 10 ^ 16 * (margin c + 1 / 2) := by
      unfold margin
      split
      · rename_i hm
        rw [hm.1]
        norm_num [normalCode]
      · have hlt : (mantissa c : ℚ) < 2 * normalCode := by exact_mod_cast mantissa_lt c
        refine hlt.trans ?_
        norm_num [normalCode]
    nlinarith
  have hlow := number_cut_le (c := c) (k := k)
  have hhigh := lt_number_cut (c := c) (k := k)
  have hnext : number ⟨cut c k + 1, k⟩ = number ⟨cut c k, k⟩ + 10 ^ k := by
    unfold number
    push_cast
    ring
  rw [number_exact] at hlow hhigh
  have hmargin := (margin_bounds c).1
  by_cases hnear : (mantissa c - margin c) * 2 ^ Double.exponent c < number ⟨cut c k, k⟩
  · refine ⟨cut c k, nearest_around hc hnear ?_⟩
    nlinarith
  · refine ⟨cut c k + 1, nearest_around hc ?_ ?_⟩
    · nlinarith
    · rw [hnext]
      nlinarith

end Grid

section Search

theorem findSome?_range {β : Type} {f : Nat → Option β} {n : Nat} {b : β}
    (h : (List.range n).findSome? f = some b) : ∃ i < n, f i = some b ∧ ∀ j < i, f j = none := by
  induction n with
  | zero => cases h
  | succ n ih =>
    rw [List.range_succ, List.findSome?_append] at h
    cases hn : (List.range n).findSome? f with
    | some a =>
      rw [hn, Option.some_or] at h
      obtain ⟨i, hi, hf⟩ := ih (hn.trans h)
      exact ⟨i, Nat.lt_succ_of_lt hi, hf⟩
    | none =>
      rw [hn, Option.none_or, List.findSome?_singleton] at h
      refine ⟨n, Nat.lt_succ_self n, h, fun j hj => ?_⟩
      exact List.findSome?_eq_none_iff.1 hn j (List.mem_range.2 hj)

variable {c : Nat} (tie : Tie)

/-- The search ends on the first grid on which the code is met. -/
theorem shortest_spec (hz : c ≠ 0) (hc : c < infinityCode) :
    ∃ n : Nat, n < 17 ∧ onGrid tie c (top c - n - 1) = some (shortest tie c) ∧
      ∀ m < n, onGrid tie c (top c - m - 1) = none := by
  obtain ⟨j, hj⟩ := exists_multiple_17 hz hc (k := top c - 16 - 1) (by omega)
  cases hs : shortest? tie c with
  | none =>
    exact absurd (List.findSome?_eq_none_iff.1 hs 16 (by simp)) (onGrid_ne_none hc hj)
  | some d =>
    have hd : shortest tie c = d := by rw [shortest, hs, Option.getD_some]
    rw [hd]
    exact findSome?_range hs

end Search

section Trim

variable {d d' : Decimal}

theorem trimCore_ends (fuel : Nat) (h : d.digits < 2 ^ fuel) :
    (trimCore fuel d).digits = 0 ∨ (trimCore fuel d).digits % 10 ≠ 0 := by
  induction fuel generalizing d with
  | zero => exact Or.inl (Nat.lt_one_iff.1 h)
  | succ fuel ih =>
    unfold trimCore
    split
    · apply ih
      rw [Nat.pow_succ] at h
      dsimp only
      omega
    · omega

/-- Digits without a zero at the end are the least there are for a number. -/
theorem digits_le_of_ends (hd : d.digits = 0 ∨ d.digits % 10 ≠ 0) (h : d.number = d'.number) :
    d.digits ≤ d'.digits := by
  have hscale {a b : Decimal} (he : a.exponent ≤ b.exponent) (hab : a.number = b.number) :
      a.digits = b.digits * 10 ^ (b.exponent - a.exponent).toNat := by
    obtain ⟨n, hn⟩ := Int.eq_ofNat_of_zero_le (sub_nonneg.2 he)
    have hb : b.exponent = n + a.exponent := by omega
    have hpow : (10 : ℚ) ^ a.exponent ≠ 0 := by positivity
    rw [number, number, hb, zpow_add₀ (by norm_num), ← mul_assoc, mul_left_inj' hpow] at hab
    rw [hn, Int.toNat_natCast]
    exact_mod_cast hab
  rcases lt_or_ge d.exponent d'.exponent with hlt | hge
  · -- A lower exponent would leave a zero at the end.
    obtain ⟨n, hn⟩ := Nat.exists_eq_succ_of_ne_zero (n := (d'.exponent - d.exponent).toNat) (by omega)
    have hdigits := hscale hlt.le h
    rw [hn, Nat.pow_succ, ← Nat.mul_assoc] at hdigits
    omega
  · rw [hscale hge h.symm]
    exact Nat.le_mul_of_pos_right _ (by positivity)

theorem digits_trim_le (h : d.number = d'.number) : d.trim.digits ≤ d'.digits :=
  digits_le_of_ends (trimCore_ends _ Nat.lt_log2_self) ((number_trimCore _ d).trans h)

theorem length_le_iff {n : Nat} (hn : 0 < n) : d.digitChars.length ≤ n ↔ d.digits < 10 ^ n :=
  Nat.length_toDigits_le_iff (by norm_num) hn

end Trim

/-- A decimal that reads back as a code, with the fewest digits. -/
structure IsShortest (c : Nat) (d : Decimal) : Prop where
  nearest : d.nearest = c
  fewest : ∀ d' : Decimal, d'.nearest = c → d.trim.digitChars.length ≤ d'.digitChars.length

theorem isShortest_zero : IsShortest 0 ⟨0, 0⟩ := ⟨rfl, fun d' _ => digitChars_length_pos d'⟩

section Chosen

variable {c : Nat} (tie : Tie)

theorem isShortest_shortest (hz : c ≠ 0) (hc : c < infinityCode) : IsShortest c (shortest tie c) := by
  refine ⟨nearest_shortest_eq tie hc, fun d hd => ?_⟩
  have hpos := digitChars_length_pos d
  obtain ⟨n, -, hgrid, hnone⟩ := shortest_spec tie hz hc
  obtain ⟨hexp, hdigits⟩ := bounds_of_neighbour hgrid
  have hfirst : n + 1 ≤ d.digitChars.length := by
    by_contra hlt
    obtain ⟨j, hj⟩ := exists_multiple (k := top c - (d.digitChars.length - 1 : Nat) - 1) hz hc hd hpos
      ((length_le_iff hpos).1 le_rfl) (by omega)
    exact onGrid_ne_none hc hj (hnone _ (by omega))
  refine le_trans ?_ hfirst
  rw [length_le_iff (Nat.succ_pos n)]
  have hpower : number ⟨10 ^ (n + 1), top c - n - 1⟩ = 10 ^ top c := by
    rw [number_ten_pow]
    congr 1
    push_cast
    ring
  have hcut : cut c (top c - n - 1) < 10 ^ (n + 1) := by
    rw [cut_lt_iff, hpower]
    exact (top_spec hz hc).2
  rcases (hdigits.trans hcut : (shortest tie c).digits ≤ _).eq_or_lt with heq | hlt
  · -- What is rounded up to the next power of ten has one digit.
    have hone : (shortest tie c).number = number ⟨1, top c⟩ := by
      rw [number, heq, hexp]
      exact hpower.trans (by simp [number])
    exact (digits_trim_le hone).trans_lt (Nat.one_lt_pow (by omega) (by norm_num))
  · exact (digits_trim_le rfl).trans_lt hlt

/-- Where a power of ten is written as such, the chosen decimals from there on are those of the codes
from its own on. -/
theorem le_lead_shortest_iff {k : Int} (hz : c ≠ 0) (hc : c < infinityCode)
    (hk : (shortest tie (nearest ⟨1, k⟩)).number = 10 ^ k) :
    k ≤ (shortest tie c).trim.lead ↔ nearest ⟨1, k⟩ ≤ c := by
  have hback := nearest_shortest_eq tie hc
  have hone : number ⟨1, k⟩ = 10 ^ k := by simp [number]
  have hdigits : (shortest tie c).trim.digits ≠ 0 := by
    intro h
    rw [← nearest_trim, Decimal.nearest, if_pos h] at hback
    exact hz hback.symm
  rw [le_lead_iff hdigits, trim, number_trimCore]
  constructor
  · intro hle
    rw [← hone] at hle
    exact hback ▸ nearest_mono hle
  · intro hle
    by_contra hlt
    have hge : c ≤ nearest ⟨1, k⟩ := by
      rw [not_le, ← hone] at hlt
      exact hback ▸ nearest_mono hlt.le
    rw [le_antisymm hle hge] at hk
    exact hlt hk.ge

end Chosen

end NumericSteps.Decimal
