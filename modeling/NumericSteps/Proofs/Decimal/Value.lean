import NumericSteps.Decimal.Notation
import NumericSteps.Proofs.Double.Halfway

namespace NumericSteps.Decimal

open Double

/-- The number a decimal stands for. -/
def number (d : Decimal) : ℚ := d.digits * 10 ^ d.exponent

theorem ratio_scaled (d : Decimal) : ratio (divPow 10 d.digits 1 (-d.exponent)) = d.number := by
  rw [ratio_divPow, number]
  simp [zpow_neg]

theorem scaled_pos (d : Decimal) : (divPow 10 d.digits 1 (-d.exponent)).2 ≠ 0 :=
  (divPow_pos (by norm_num) one_pos).ne'

section Powers

variable {k l : Int}

theorem zpow_le_zpow_of_pow_le {a b : ℚ} (ha : 1 ≤ a) (hb : 0 < b) {m n : Nat} (hn : n ≠ 0)
    (hbase : a ^ m ≤ b ^ n) (hl : 0 ≤ l) (h : n * k ≤ m * l) : a ^ k ≤ b ^ l := by
  have hpos : 0 < a := one_pos.trans_le ha
  apply le_of_pow_le_pow_left₀ hn (by positivity)
  calc (a ^ k) ^ n = a ^ (n * k) := by rw [← zpow_natCast, ← zpow_mul, mul_comm]
    _ ≤ a ^ (m * l) := zpow_le_zpow_right₀ ha h
    _ = (a ^ m) ^ l := by rw [zpow_mul, zpow_natCast]
    _ ≤ (b ^ n) ^ l := zpow_le_zpow_left₀ hl (by positivity) hbase
    _ = (b ^ l) ^ n := by rw [← zpow_natCast, ← zpow_natCast, ← zpow_mul, ← zpow_mul, mul_comm]

/-- The logarithm of two to the base ten lies between 59 / 196 and 28 / 93. -/
theorem ten_zpow_le_two_zpow (hl : 196 * k ≤ 59 * l) (hu : 93 * k ≤ 28 * l) :
    (10 : ℚ) ^ k ≤ 2 ^ l := by
  rcases le_total 0 l with h | h
  · exact zpow_le_zpow_of_pow_le (m := 59) (n := 196) (by norm_num) two_pos (by norm_num)
      (by norm_num) h hl
  · have hneg : (2 : ℚ) ^ (-l) ≤ 10 ^ (-k) :=
      zpow_le_zpow_of_pow_le (m := 93) (n := 28) one_le_two (by norm_num) (by norm_num)
        (by norm_num) (by omega) (by push_cast; omega)
    rw [zpow_neg, zpow_neg] at hneg
    exact (inv_le_inv₀ (by positivity) (by positivity)).1 hneg

theorem two_zpow_le_ten_zpow (hl : 59 * l ≤ 196 * k) (hu : 28 * l ≤ 93 * k) :
    (2 : ℚ) ^ l ≤ 10 ^ k := by
  have hneg : (10 : ℚ) ^ (-k) ≤ 2 ^ (-l) := ten_zpow_le_two_zpow (by omega) (by omega)
  rw [zpow_neg, zpow_neg] at hneg
  exact (inv_le_inv₀ (by positivity) (by positivity)).1 hneg

end Powers

theorem large_of_exponent {d : Decimal} (hd : d.digits ≠ 0) (he : 400 < d.exponent) :
    (2 : ℚ) ^ (1024 : Int) ≤ d.number := by
  have hone : (1 : ℚ) ≤ d.digits := by
    exact_mod_cast Nat.one_le_iff_ne_zero.2 hd
  calc (2 : ℚ) ^ (1024 : Int) ≤ 10 ^ d.exponent := two_zpow_le_ten_zpow (by omega) (by omega)
    _ ≤ d.digits * 10 ^ d.exponent := le_mul_of_one_le_left (by positivity) hone

/-- Three bits are less than a digit. -/
theorem digits_lt (n : Nat) : (n : ℚ) < 10 ^ ((n.log2 / 3 + 1 : Nat) : Int) := by
  have hlog : n < 2 ^ (n.log2 + 1) := Nat.lt_log2_self
  have hpow : 2 ^ (n.log2 + 1) ≤ 10 ^ (n.log2 / 3 + 1) := by
    calc 2 ^ (n.log2 + 1) ≤ 2 ^ (3 * (n.log2 / 3 + 1)) := Nat.pow_le_pow_right two_pos (by omega)
      _ = 8 ^ (n.log2 / 3 + 1) := pow_mul 2 3 _
      _ ≤ 10 ^ (n.log2 / 3 + 1) := Nat.pow_le_pow_left (by norm_num) _
  exact_mod_cast hlog.trans_le hpow

theorem small_of_exponent {d : Decimal} (he : d.exponent + d.digits.log2 / 3 + 1 < -400) :
    d.number < 2 ^ (-1075 : Int) := by
  calc d.number < 10 ^ ((d.digits.log2 / 3 + 1 : Nat) : Int) * 10 ^ d.exponent :=
        mul_lt_mul_of_pos_right (digits_lt d.digits) (by positivity)
    _ = 10 ^ (((d.digits.log2 / 3 + 1 : Nat) : Int) + d.exponent) :=
        (zpow_add₀ (by norm_num) _ _).symm
    _ ≤ 2 ^ (-1075 : Int) := ten_zpow_le_two_zpow (by omega) (by omega)

/-- The exponents that are decided without a power would lead to the same code with it. -/
theorem nearest_eq (d : Decimal) :
    d.nearest =
      nearestCode (divPow 10 d.digits 1 (-d.exponent)).1 (divPow 10 d.digits 1 (-d.exponent)).2 := by
  have hr := ratio_scaled d
  have hp := scaled_pos d
  unfold nearest
  split
  · rename_i hz
    have hn : (divPow 10 d.digits 1 (-d.exponent)).1 = 0 := by
      unfold divPow
      split <;> simp [hz]
    rw [hn, nearestCode_zero]
  · rename_i hz
    split
    · rename_i he
      exact (nearestCode_large hp (hr.symm ▸ large_of_exponent hz he : _ ≤ ratio _)).symm
    · split
      · rename_i he
        exact (nearestCode_small hp (hr.symm ▸ small_of_exponent he : ratio _ < _)).symm
      · rfl

/-- A larger number has no smaller code. -/
theorem nearest_mono {d d' : Decimal} (h : d.number ≤ d'.number) : d.nearest ≤ d'.nearest := by
  rw [nearest_eq, nearest_eq]
  apply nearestCode_mono (scaled_pos d) (scaled_pos d')
  rw [← ratio_scaled d, ← ratio_scaled d'] at h
  exact h

theorem nearest_congr {d d' : Decimal} (h : d.number = d'.number) : d.nearest = d'.nearest :=
  le_antisymm (nearest_mono h.le) (nearest_mono h.ge)

/-- What lies between two decimals with a code has that code too. -/
theorem nearest_of_between {d d₁ d₂ : Decimal} {c : Nat} (h₁ : d₁.nearest = c) (h₂ : d₂.nearest = c)
    (hl : d₁.number ≤ d.number) (hu : d.number ≤ d₂.number) : d.nearest = c :=
  le_antisymm (h₂ ▸ nearest_mono hu) (h₁ ▸ nearest_mono hl)

/-- The decimal of a whole multiple of a power of two. -/
def dyadic (m : Nat) (e : Int) : Decimal :=
  if 0 ≤ e then ⟨m * Nat.pow 2 e.toNat, 0⟩ else ⟨m * Nat.pow 5 (-e).toNat, e⟩

theorem number_dyadic (m : Nat) (e : Int) : (dyadic m e).number = m * 2 ^ e := by
  unfold dyadic number
  split
  · rename_i he
    obtain ⟨k, rfl⟩ := Int.eq_ofNat_of_zero_le he
    simp
  · rename_i he
    obtain ⟨k, hk⟩ := Int.eq_ofNat_of_zero_le (a := -e) (by omega)
    obtain rfl : e = -k := by omega
    have hten : (10 : ℚ) = 5 * 2 := by norm_num
    simp [hten, mul_pow]
    field_simp

theorem number_exact (c : Nat) : (exact c).number = mantissa c * 2 ^ Double.exponent c :=
  number_dyadic (mantissa c) (Double.exponent c)

theorem nearest_exact {c : Nat} (hc : c < infinityCode) : (exact c).nearest = c := by
  rw [nearest_eq]
  apply nearestCode_value hc (scaled_pos _)
  rw [← number_exact]
  exact ratio_scaled _

/-- The decimals around the value of a finite code are nearest to the code. -/
theorem nearest_around {c : Nat} (hc : c < infinityCode) {d : Decimal}
    (hl : (mantissa c - margin c) * 2 ^ Double.exponent c < d.number)
    (hu : d.number < (mantissa c + 1 / 2) * 2 ^ Double.exponent c) : d.nearest = c := by
  rw [← ratio_scaled] at hl hu
  rw [nearest_eq]
  exact nearestCode_around hc (scaled_pos d) hl hu

theorem nearest_shortest_eq (tie : Tie) {c : Nat} (hc : c < infinityCode) :
    (shortest tie c).nearest = c := by
  rcases nearest_shortest tie c with h | h
  · exact h
  · rw [h, nearest_exact hc]

theorem number_trimCore (fuel : Nat) (d : Decimal) : (trimCore fuel d).number = d.number := by
  induction fuel generalizing d with
  | zero => rfl
  | succ fuel ih =>
    unfold trimCore
    split
    · rename_i h
      have hdig : (d.digits : ℚ) = (d.digits / 10 : Nat) * 10 := by
        exact_mod_cast (Nat.div_mul_cancel (Nat.dvd_of_mod_eq_zero h.2)).symm
      rw [ih, number, number, hdig, zpow_add_one₀ (by norm_num)]
      ring
    · rfl

theorem nearest_trim (d : Decimal) : d.trim.nearest = d.nearest :=
  nearest_congr (number_trimCore _ d)

section Lead

variable {d : Decimal}

theorem digitChars_length_pos (d : Decimal) : 0 < d.digitChars.length :=
  List.length_pos_iff.2 Nat.toDigits_ne_nil

/-- A number lies between the power of ten of its first digit and the next. -/
theorem ten_pow_lead_le (hd : d.digits ≠ 0) : (10 : ℚ) ^ d.lead ≤ d.number := by
  have hlen := digitChars_length_pos d
  have hdigits : 10 ^ (d.digitChars.length - 1) ≤ d.digits := by
    by_cases hone : d.digitChars.length = 1
    · rw [hone]
      exact Nat.one_le_iff_ne_zero.2 hd
    · by_contra hlt
      have hle : d.digitChars.length ≤ d.digitChars.length - 1 :=
        (Nat.length_toDigits_le_iff (by norm_num) (by omega)).2 (not_le.1 hlt)
      omega
  have hcast : (10 : ℚ) ^ (d.digitChars.length - 1) ≤ d.digits := by exact_mod_cast hdigits
  have hlead : d.lead = ((d.digitChars.length - 1 : Nat) : Int) + d.exponent := by
    unfold lead
    omega
  rw [hlead, zpow_add₀ (by norm_num), zpow_natCast, number]
  exact mul_le_mul_of_nonneg_right hcast (by positivity)

theorem number_lt_ten_pow (d : Decimal) : d.number < 10 ^ (d.lead + 1) := by
  have hlen := digitChars_length_pos d
  have hdigits : d.digits < 10 ^ d.digitChars.length :=
    (Nat.length_toDigits_le_iff (by norm_num) hlen).1 le_rfl
  have hcast : (d.digits : ℚ) < 10 ^ d.digitChars.length := by exact_mod_cast hdigits
  have hlead : d.lead + 1 = (d.digitChars.length : Int) + d.exponent := by
    unfold lead
    omega
  rw [hlead, zpow_add₀ (by norm_num), zpow_natCast, number]
  exact mul_lt_mul_of_pos_right hcast (by positivity)

theorem le_lead_iff (hd : d.digits ≠ 0) {k : Int} : k ≤ d.lead ↔ (10 : ℚ) ^ k ≤ d.number := by
  constructor
  · intro hk
    exact (zpow_le_zpow_right₀ (by norm_num) hk).trans (ten_pow_lead_le hd)
  · intro hk
    have hlt := hk.trans_lt (number_lt_ten_pow d)
    rw [zpow_lt_zpow_iff_right₀ (by norm_num)] at hlt
    omega

/-- What is near to a double that is neither zero nor infinity has a moderate first digit. -/
theorem lead_bounds (hd : d.digits ≠ 0) (hz : d.nearest ≠ 0) (hc : d.nearest < infinityCode) :
    -400 ≤ d.lead ∧ d.lead < 400 := by
  rw [nearest_eq] at hz hc
  have hr := ratio_scaled d
  have hp := scaled_pos d
  constructor
  · by_contra hlow
    have hsmall : d.number < 2 ^ (-1075 : Int) := by
      calc d.number < 10 ^ (d.lead + 1) := number_lt_ten_pow d
        _ ≤ 2 ^ (-1075 : Int) := ten_zpow_le_two_zpow (by omega) (by omega)
    exact hz (nearestCode_small hp (hr.symm ▸ hsmall : ratio _ < _))
  · by_contra hhigh
    have hlarge : (2 : ℚ) ^ (1024 : Int) ≤ d.number := by
      calc (2 : ℚ) ^ (1024 : Int) ≤ 10 ^ d.lead := two_zpow_le_ten_zpow (by omega) (by omega)
        _ ≤ d.number := ten_pow_lead_le hd
    exact hc.ne (nearestCode_large hp (hr.symm ▸ hlarge : _ ≤ ratio _))

end Lead

end NumericSteps.Decimal
