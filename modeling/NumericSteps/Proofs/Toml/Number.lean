import NumericSteps.Proofs.Json.Spelling
import NumericSteps.Toml.Read
import NumericSteps.Toml.Write

namespace NumericSteps.Toml

open Decimal Double
open Json (IsDigits IsWhole)

/-- A sign if there is one, and digits on both sides of a point, with no zero in front of others. -/
inductive Pointed : List Char → Prop
  | positive {u v : List Char} : IsWhole u → IsDigits v → Pointed (u ++ '.' :: v)
  | negative {u v : List Char} : IsWhole u → IsDigits v → Pointed ('-' :: (u ++ '.' :: v))

variable {u v w rest : List Char} {x : Float}

section Writing

theorem standard_layout : layout.Standard := ⟨Or.inr rfl, Or.inl rfl⟩

/-- A double is written positionally, as its first digit is neither far in front of the point nor far
behind it. -/
theorem decimal_parts {d : Decimal} (hd : d.digits ≠ 0) (hz : d.nearest ≠ 0)
    (hc : d.nearest < infinityCode) :
    ∃ u v, layout.decimal d = u ++ '.' :: v ∧ IsWhole u ∧ IsDigits v := by
  have hdigits : IsDigits d.trim.digitChars := Json.isDigits_toDigits d.trim.digits
  have htrim := Json.digits_trim_ne_zero hd
  have hlead : d.trim.digitChars.head? ≠ some '0' := Json.head_toDigits htrim
  rw [← nearest_trim] at hz hc
  have hlies : layout.lowest ≤ d.trim.lead ∧ d.trim.lead < layout.highest :=
    lead_bounds htrim hz hc
  unfold Notation.decimal
  dsimp only
  rw [if_pos hlies]
  exact Json.positional_parts hdigits hlead _

theorem magnitude_parts {c : Nat} (hc : c < infinityCode) :
    ∃ u v, layout.magnitude c = u ++ '.' :: v ∧ IsWhole u ∧ IsDigits v := by
  unfold Notation.magnitude
  rw [if_neg hc.ne]
  split
  · exact ⟨['0'], ['0'], by decide, ⟨Json.isDigits_zero, Or.inl rfl⟩, Json.isDigits_zero⟩
  · rename_i hz
    have hnearest := nearest_shortest_eq layout.tie hc
    refine decimal_parts ?_ (fun h => hz (hnearest.symm.trans h)) (hnearest.trans_lt hc)
    intro hd
    rw [nearest, if_pos hd] at hnearest
    exact hz hnearest.symm

theorem pointed_writeFloat (hx : x.isFinite = true) : Pointed (writeFloat x) := by
  have hc := (isFinite_iff x).1 hx
  have hnan : ¬ x.isNaN = true := by
    rw [isNaN_iff]
    omega
  obtain ⟨u, v, he, hu, hv⟩ := magnitude_parts hc
  unfold writeFloat Notation.write
  rw [if_neg hnan, he]
  cases isNegative x with
  | false => exact .positive hu hv
  | true => exact .negative hu hv

end Writing

section Words

theorem isWordChar_of_digit {c : Char} (h : c.isDigit = true) : isWordChar c = true := by
  simp [isWordChar, Char.isAlphanum, h]

theorem Pointed.word (h : Pointed w) : ∀ c ∈ w, isWordChar c = true := by
  have hparts {u v : List Char} (hu : IsWhole u) (hv : IsDigits v) :
      ∀ c ∈ u ++ '.' :: v, isWordChar c = true := by
    rw [List.forall_mem_append, List.forall_mem_cons]
    exact ⟨fun c hc => isWordChar_of_digit (hu.digits.digit c hc), rfl,
      fun c hc => isWordChar_of_digit (hv.digit c hc)⟩
  cases h with
  | positive hu hv => exact hparts hu hv
  | negative hu hv => exact List.forall_mem_cons.2 ⟨rfl, hparts hu hv⟩

theorem IsDigits.not_mem {c : Char} (h : IsDigits v) (hc : c.isDigit = false) : c ∉ v := by
  intro hm
  rw [h.digit c hm] at hc
  cases hc

/-- Nothing but digits and the point stands behind the sign. -/
theorem not_mem_parts {c : Char} (hu : IsWhole u) (hv : IsDigits v) (hc : c.isDigit = false)
    (hp : c ≠ '.') : c ∉ u ++ '.' :: v := by
  simp [IsDigits.not_mem hu.digits hc, IsDigits.not_mem hv hc, hp]

theorem Pointed.not_mem {c : Char} (h : Pointed w) (hc : c.isDigit = false) (hp : c ≠ '.')
    (hm : c ≠ '-') : c ∉ w := by
  cases h with
  | positive hu hv => exact not_mem_parts hu hv hc hp
  | negative hu hv =>
    rw [List.mem_cons, not_or]
    exact ⟨hm, not_mem_parts hu hv hc hp⟩

/-- A number starts with none of the characters that have a meaning of their own. -/
theorem Pointed.head (h : Pointed w) :
    ∃ x xs, w = x :: xs ∧ ∀ c, c.isDigit = false → c ≠ '.' → c ≠ '-' → x ≠ c := by
  have hnil : w ≠ [] := by cases h <;> simp
  obtain ⟨x, xs, rfl⟩ := List.exists_cons_of_ne_nil hnil
  exact ⟨x, xs, rfl, fun c hc hp hm he => h.not_mem hc hp hm (he ▸ List.mem_cons_self)⟩

theorem Pointed.hyphen (h : Pointed w) : '-' ∉ w.tail := by
  cases h with
  | positive hu hv =>
    exact fun hm => not_mem_parts hu hv rfl (by decide) (List.mem_of_mem_tail hm)
  | negative hu hv => exact not_mem_parts hu hv rfl (by decide)

theorem isDate_hyphen (h : isDate w = true) : '-' ∈ w.tail := by
  unfold isDate at h
  split at h
  · simp
  · cases h

theorem afterTime_colon {t : List Char} (h : afterTime w = some t) : ':' ∈ w := by
  unfold afterTime at h
  split at h
  · simp
  · cases h

/-- A date has hyphens behind its year, and a time of day has colons. -/
theorem isMoment_marks (h : isMoment w = true) : '-' ∈ w.tail ∨ ':' ∈ w := by
  rw [isMoment, Bool.or_eq_true, Bool.or_eq_true] at h
  rcases h with (hdate | htime) | hboth
  · exact Or.inl (isDate_hyphen hdate)
  · rw [isTime, beq_iff_eq] at htime
    exact Or.inr (afterTime_colon htime)
  · unfold isDateTime at hboth
    split at hboth
    · rw [Bool.and_eq_true, Bool.and_eq_true] at hboth
      have hdate := isDate_hyphen hboth.1.1
      rw [← List.drop_one, List.drop_take, List.drop_one] at hdate
      exact Or.inl (List.mem_of_mem_take hdate)
    · cases hboth

theorem Pointed.isMoment (h : Pointed w) : isMoment w = false := by
  rw [Bool.eq_false_iff]
  intro hm
  rcases isMoment_marks hm with hyphen | colon
  · exact h.hyphen hyphen
  · exact h.not_mem rfl (by decide) (by decide) colon

end Words

section Reading

theorem digits_eq (hv : IsDigits v) : digits v = some v := by
  have hcut : Text.cut '_' v = [v] := Text.cut_of_not_mem '_' v (IsDigits.not_mem hv rfl)
  have hall : v.all Char.isDigit = true := List.all_eq_true.2 hv.digit
  simp [digits, groups, hcut, hv.ne_nil, hall]

theorem wholeDigits_eq (hu : IsWhole u) : wholeDigits u = some u := by
  unfold wholeDigits
  rw [digits_eq hu.digits]
  rcases hu.lead with rfl | hl
  · rfl
  · split
    · rename_i h
      exact h.symm
    · rename_i h
      cases h
      simp at hl
    · rfl

theorem wholeDigits_pointed (hu : IsWhole u) (hv : IsDigits v) : wholeDigits (u ++ '.' :: v) = none := by
  have hcut : Text.cut '_' (u ++ '.' :: v) = [u ++ '.' :: v] :=
    Text.cut_of_not_mem '_' _ (not_mem_parts hu hv rfl (by decide))
  have hdigits : digits (u ++ '.' :: v) = none := by simp [digits, groups, hcut]
  rw [wholeDigits, hdigits]

theorem sign_pointed (hu : IsWhole u) :
    Numeral.sign (u ++ '.' :: v) = (false, u ++ '.' :: v) := by
  obtain ⟨c, cs, rfl⟩ := List.exists_cons_of_ne_nil hu.digits.ne_nil
  exact Numeral.sign_of_digit (hu.digits.digit c List.mem_cons_self) _

/-- A number with a point is no integer. -/
theorem Pointed.integer (h : Pointed w) : integer? w = none := by
  unfold integer?
  split
  · exact absurd (by simp) (h.not_mem (c := 'x') rfl (by decide) (by decide))
  · exact absurd (by simp) (h.not_mem (c := 'o') rfl (by decide) (by decide))
  · exact absurd (by simp) (h.not_mem (c := 'b') rfl (by decide) (by decide))
  · cases h with
    | positive hu hv => simp [decimalInteger, sign_pointed hu, wholeDigits_pointed hu hv]
    | negative hu hv => simp [decimalInteger, Numeral.sign, wholeDigits_pointed hu hv]

theorem decimalFloat_pointed (b : Bool) (hu : IsWhole u) (hv : IsDigits v) :
    decimalFloat b (u ++ '.' :: v) =
      some (.decimal b ⟨Numeral.natural (u ++ v), -v.length⟩) := by
  have hpower : ∀ c ∈ u ++ '.' :: v, (!isPower c) = true := by
    intro c hc
    have he : c ≠ 'e' := fun he => not_mem_parts hu hv rfl (by decide) (he ▸ hc)
    have hE : c ≠ 'E' := fun he => not_mem_parts hu hv rfl (by decide) (he ▸ hc)
    simp [isPower, he, hE]
  have hpoint : ∀ c ∈ u, decide (c ≠ '.') = true := by
    intro c hc
    have hne : c ≠ '.' := fun he => IsDigits.not_mem hu.digits rfl (he ▸ hc)
    simp [hne]
  have hmantissa : (u ++ '.' :: v).takeWhile (fun c => !isPower c) = u ++ '.' :: v :=
    List.takeWhile_eq_self_iff.2 hpower
  have hnone : (u ++ '.' :: v).dropWhile (fun c => !isPower c) = [] :=
    List.dropWhile_eq_nil_iff.2 hpower
  have hwhole : (u ++ '.' :: v).takeWhile (· ≠ '.') = u := by
    rw [List.takeWhile_append_of_pos hpoint]
    simp
  have hpart : (u ++ '.' :: v).dropWhile (· ≠ '.') = '.' :: v := by
    rw [List.dropWhile_append_of_pos hpoint]
    simp
  unfold decimalFloat
  dsimp only
  rw [hmantissa, hnone, hwhole, hpart]
  simp [wholeDigits_eq hu, fraction?, digits_eq hv, power?]

theorem read_pointed (hu : IsWhole u) (hv : IsDigits v) :
    Numeral.read (u ++ '.' :: v) =
        some (Numeral.Reading.decimal false ⟨Numeral.natural (u ++ v), -v.length⟩).float ∧
      Numeral.read ('-' :: (u ++ '.' :: v)) =
        some (Numeral.Reading.decimal true ⟨Numeral.natural (u ++ v), -v.length⟩).float := by
  have hm : Numeral.magnitude (u ++ '.' :: v) = some ⟨Numeral.natural (u ++ v), -v.length⟩ := by
    have hm := Numeral.magnitude_point (t := []) hu.digits.digit hv.digit (by simp [Numeral.Ends])
      (by simp [hu.digits.ne_nil])
    rw [List.append_nil, Numeral.tail, Option.map_some, zero_sub] at hm
    exact hm
  obtain ⟨c, cs, rfl⟩ := List.exists_cons_of_ne_nil hu.digits.ne_nil
  obtain ⟨hpos, hneg⟩ :=
    Numeral.reading_of_digit (hu.digits.digit c List.mem_cons_self) (cs ++ '.' :: v)
  rw [← List.cons_append, hm] at hpos hneg
  constructor
  · rw [Numeral.read, hpos]
    rfl
  · rw [Numeral.read, hneg]
    rfl

theorem pointed_ne_name (hu : IsWhole u) (hv : IsDigits v) :
    u ++ '.' :: v ≠ ['i', 'n', 'f'] ∧ u ++ '.' :: v ≠ ['n', 'a', 'n'] := by
  have hn : 'n' ∉ u ++ '.' :: v := not_mem_parts hu hv rfl (by decide)
  constructor
  all_goals
    intro he
    rw [he] at hn
    simp at hn

/-- A number with a point is the double it is for any reader of numbers, unless that is infinite. -/
theorem Pointed.float (h : Pointed w) (hr : Numeral.read w = some x) (hx : x.isFinite = true) :
    float? w = some x := by
  have hinf : x.isInf = false := isInf_of_finite hx
  cases h with
  | positive hu hv =>
    rw [(read_pointed hu hv).1] at hr
    obtain rfl := Option.some.inj hr
    obtain ⟨hne, hne'⟩ := pointed_ne_name hu hv
    unfold float?
    rw [sign_pointed hu]
    simp [hne, hne', decimalFloat_pointed false hu hv, hinf]
  | negative hu hv =>
    rw [(read_pointed hu hv).2] at hr
    obtain rfl := Option.some.inj hr
    obtain ⟨hne, hne'⟩ := pointed_ne_name hu hv
    unfold float?
    simp [Numeral.sign, hne, hne', decimalFloat_pointed true hu hv]

theorem Pointed.wordValue (h : Pointed w) (hr : Numeral.read w = some x) (hx : x.isFinite = true) :
    wordValue w = some (.float x) := by
  have htrue : w ≠ ['t', 'r', 'u', 'e'] := by
    rintro rfl
    exact h.not_mem (c := 'e') rfl (by decide) (by decide) (by decide)
  have hfalse : w ≠ ['f', 'a', 'l', 's', 'e'] := by
    rintro rfl
    exact h.not_mem (c := 'e') rfl (by decide) (by decide) (by decide)
  simp [Toml.wordValue, htrue, hfalse, h.isMoment, h.integer, h.float hr hx]

/-- A finite number reads back from the line on which it ends. -/
theorem word_writeFloat (hx : x.isFinite = true) (rest : List Char) :
    word (writeFloat x ++ '\n' :: rest) = some (.float x, '\n' :: rest) := by
  have hp := pointed_writeFloat hx
  have hread : Numeral.read (writeFloat x) = some x :=
    layout.read_write standard_layout ((isFinite_iff x).1 hx)
  have hword : (writeFloat x ++ '\n' :: rest).takeWhile isWordChar = writeFloat x := by
    rw [List.takeWhile_append_of_pos hp.word, List.takeWhile_cons_of_neg (by decide), List.append_nil]
  have hrest : (writeFloat x ++ '\n' :: rest).dropWhile isWordChar = '\n' :: rest := by
    rw [List.dropWhile_append_of_pos hp.word, List.dropWhile_cons_of_neg (by decide)]
  have hdate : isDate (writeFloat x) = false := by
    have hmoment := hp.isMoment
    rw [isMoment, Bool.or_eq_false_iff, Bool.or_eq_false_iff] at hmoment
    exact hmoment.1.1
  unfold word
  dsimp only
  rw [hword, hrest, hp.wordValue hread hx, hdate]
  rfl

end Reading

end NumericSteps.Toml
