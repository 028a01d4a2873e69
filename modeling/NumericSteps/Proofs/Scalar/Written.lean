import NumericSteps.Proofs.Decimal.Shortest
import NumericSteps.Proofs.Double.Magnitude
import NumericSteps.Proofs.Scalar.ReadBack

namespace NumericSteps

open Decimal Double

namespace Decimal

theorem point_mem_positional {suffix : List Char} (hs : '.' ∈ suffix) (ds : List Char) (point : Int) :
    '.' ∈ positional suffix ds point := by
  unfold positional
  split
  · simp
  · split
    · simp [hs]
    · simp

theorem e_not_mem_positional {suffix : List Char} (hs : 'e' ∉ suffix) {ds : List Char}
    (hd : ∀ c ∈ ds, c.isDigit = true) (point : Int) : 'e' ∉ positional suffix ds point := by
  have hds : 'e' ∉ ds := fun h => absurd (hd 'e' h) (by decide)
  have hzeros (k : Nat) : 'e' ∉ zeros k := fun h => absurd (Numeral.digit_of_zeros h) (by decide)
  unfold positional
  split
  · simp [hds, hzeros]
  · split
    · simp [hds, hzeros, hs]
    · simp only [List.mem_append, List.mem_cons, not_or]
      exact ⟨fun h => hds (List.mem_of_mem_take h), by decide, fun h => hds (List.mem_of_mem_drop h)⟩

theorem e_mem_scientific (sgn ds : List Char) (e : Int) : 'e' ∈ scientific sgn ds e := by
  simp [scientific]

end Decimal

namespace Scalar

open Text

theorem point_or_e_mem_decimal (d : Decimal) : '.' ∈ layout.decimal d ∨ 'e' ∈ layout.decimal d := by
  unfold Notation.decimal
  dsimp only
  split
  · exact Or.inl (point_mem_positional (by decide) _ _)
  · exact Or.inr (e_mem_scientific _ _ _)

theorem e_mem_decimal_iff (d : Decimal) :
    'e' ∈ layout.decimal d ↔ d.trim.lead < -4 ∨ 16 ≤ d.trim.lead := by
  have hform : d.trim.lead < -4 ∨ 16 ≤ d.trim.lead ↔ ¬ (-4 ≤ d.trim.lead ∧ d.trim.lead < 16) := by
    omega
  rw [hform]
  unfold Notation.decimal
  dsimp only
  split
  · rename_i h
    have hsuffix : 'e' ∉ layout.wholeSuffix := by decide
    exact iff_of_false (e_not_mem_positional hsuffix (Numeral.toDigits_digit _) _) (not_not.2 h)
  · rename_i h
    exact iff_of_true (e_mem_scientific _ _ _) h

variable {c : Nat}

/-- The text of a finite number is that of a decimal with the fewest digits. -/
theorem exists_shortest (hc : c < infinityCode) :
    ∃ d : Decimal, layout.magnitude c = layout.decimal d ∧ d.IsShortest c := by
  unfold Notation.magnitude
  rw [if_neg hc.ne]
  split
  · rename_i hz
    exact ⟨⟨0, 0⟩, rfl, hz ▸ isShortest_zero⟩
  · rename_i hz
    exact ⟨shortest layout.tie c, rfl, isShortest_shortest layout.tie hz hc⟩

/-- The points at which the form changes are met exactly, since both are written with one digit. -/
theorem e_mem_magnitude_iff (hc : c < infinityCode) :
    'e' ∈ layout.magnitude c ↔ 0 < c ∧ c < nearest ⟨1, -4⟩ ∨ nearest ⟨1, 16⟩ ≤ c := by
  have hlow : shortest .up (nearest ⟨1, -4⟩) = ⟨1, -4⟩ := by decide +kernel
  have hhigh : shortest .up (nearest ⟨1, 16⟩) = ⟨1, 16⟩ := by decide +kernel
  unfold Notation.magnitude
  rw [if_neg hc.ne]
  split
  · rename_i hz
    rw [e_mem_decimal_iff, hz]
    decide +kernel
  · rename_i hz
    have hl := le_lead_shortest_iff layout.tie (k := -4) hz hc (by rw [layout, hlow]; simp [number])
    have hh := le_lead_shortest_iff layout.tie (k := 16) hz hc (by rw [layout, hhigh]; simp [number])
    rw [e_mem_decimal_iff, ← not_le, hl, hh]
    omega

/-- An exponent is written for the very small and the very large numbers. -/
theorem e_mem_chars_iff (x : Float) : 'e' ∈ chars x ↔
    x.isFinite = true ∧ (0 < x.abs ∧ x.abs < 1e-4 ∨ 1e16 ≤ x.abs) := by
  have hsign : 'e' ∉ if isNegative x then ['-'] else [] := by split <;> decide
  unfold chars Notation.write
  rw [isFinite_iff]
  split
  · rename_i hnan
    exact iff_of_false (by decide) fun h => lt_asymm h.1 ((isNaN_iff x).1 hnan)
  · rename_i hnan
    have hnum : x.isNaN = false := Bool.not_eq_true _ ▸ hnan
    rw [List.mem_append, or_iff_right hsign]
    rcases (code_le hnum).eq_or_lt with hc | hc
    · rw [hc]
      exact iff_of_false (by decide) fun h => lt_irrefl _ h.1
    · have hzero : (0 : Float).isNaN = false ∧ (0 : Float).abs = 0 ∧ code 0 = 0 := by decide +kernel
      have hl : (1e-4 : Float).isNaN = false ∧ (1e-4 : Float).abs = 1e-4 ∧
          code 1e-4 = nearest ⟨1, -4⟩ := by decide +kernel
      have hh : (1e16 : Float).isNaN = false ∧ (1e16 : Float).abs = 1e16 ∧
          code 1e16 = nearest ⟨1, 16⟩ := by decide +kernel
      have hpos := abs_lt_abs_iff hzero.1 hnum
      have hlow := abs_lt_abs_iff hnum hl.1
      have hhigh := abs_le_abs_iff hh.1 hnum
      rw [hzero.2.1, hzero.2.2] at hpos
      rw [hl.2.1, hl.2.2] at hlow
      rw [hh.2.1, hh.2.2] at hhigh
      rw [e_mem_magnitude_iff hc, hpos, hlow, hhigh]
      exact (and_iff_right hc).symm

/-- The word that is written for a finite number is its sign and a decimal with the fewest digits. -/
theorem chars_of_finite {x : Float} (h : x.isFinite = true) : ∃ d : Decimal, d.IsShortest (code x) ∧
    chars x = (if isNegative x then ['-'] else []) ++ layout.decimal d := by
  have hc : code x < infinityCode := (isFinite_iff x).1 h
  have hnum : ¬ x.isNaN = true := fun hnan => lt_asymm hc ((isNaN_iff x).1 hnan)
  obtain ⟨d, hd, hshort⟩ := exists_shortest hc
  refine ⟨d, hshort, ?_⟩
  rw [chars, Notation.write, if_neg hnum, hd]

/-- What is written for a double reads back as the same bits, or as no number if it was none. It is a line
with one word on it, and for a finite number that word has the fewest digits that read back and a point or
an exponent. -/
theorem file_reads_back {bits : UInt64} {x : Float} (hx : Float.ofBits bits = x) :
    ∃ w, line x = w ++ ['\n'] ∧ w ≠ [] ∧ (∀ c ∈ w, isBlank c = false) ∧
      (x.isFinite = true → ('.' ∈ w ∨ 'e' ∈ w) ∧ ∃ d : Decimal, d.IsShortest (code x) ∧
        w = (if isNegative x then ['-'] else []) ++ layout.decimal d) ∧
      ('e' ∈ w ↔ x.isFinite = true ∧ (0 < x.abs ∧ x.abs < 1e-4 ∨ 1e16 ≤ x.abs)) ∧
      ∃ y, (decode (encode (line x))).map ofText = some (.ok y) ∧
        if x.isNaN then y.isNaN = true else y.toBits = bits := by
  have hback : (decode (encode (line x))).map ofText = some (.ok x) := by
    rw [decode_encode, Option.map_some, ofText_line]
  refine ⟨chars x, rfl, chars_ne_nil x, fun c hc => (visible_chars x c hc).not_blank, ?_,
    e_mem_chars_iff x, x, hback, ?_⟩
  · intro hfinite
    obtain ⟨d, hd, hw⟩ := chars_of_finite hfinite
    refine ⟨?_, d, hd, hw⟩
    rw [hw, List.mem_append, List.mem_append]
    exact (point_or_e_mem_decimal d).imp Or.inr Or.inr
  · split
    · assumption
    · rename_i hnum
      rw [Bool.not_eq_true, ← hx] at hnum
      rw [← hx, toBits_ofBits hnum]

/-- The number below the first point of change needs sixteen digits. -/
theorem file_reads_back_below :
    line (Float.ofBits 0x3f1a36e2eb1c432c) = "9.999999999999999e-5\n".toList ∧
      (decode (encode "9.999999999999999e-5\n".toList)).map ofText =
        some (.ok (Float.ofBits 0x3f1a36e2eb1c432c)) := by
  have hline : line (Float.ofBits 0x3f1a36e2eb1c432c) = "9.999999999999999e-5\n".toList := by
    decide +kernel
  have hnum : (Float.ofBits 0x3f1a36e2eb1c432c).isNaN = false := by decide +kernel
  obtain ⟨-, -, -, -, -, -, y, hy, hbits⟩ :=
    file_reads_back (rfl : Float.ofBits 0x3f1a36e2eb1c432c = Float.ofBits 0x3f1a36e2eb1c432c)
  rw [hnum] at hbits
  have hsame : y = Float.ofBits 0x3f1a36e2eb1c432c := by
    rw [← ofBits_toBits y, hbits]
  rw [hline, hsame] at hy
  exact ⟨hline, hy⟩

end Scalar

end NumericSteps
