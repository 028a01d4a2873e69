import NumericSteps.Decimal.Numeral
import NumericSteps.Proofs.Decimal.Value
import NumericSteps.Proofs.Double.Bits
import NumericSteps.Scalar

namespace NumericSteps

open Decimal Double

namespace Numeral

/-- Characters that are no digits, or none at all, in front. -/
def Ends (cs : List Char) : Prop := ∀ c ∈ cs.head?, c.isDigit = false

theorem takeWhile_digits {ds rest : List Char} (hd : ∀ c ∈ ds, c.isDigit = true) (hr : Ends rest) :
    (ds ++ rest).takeWhile Char.isDigit = ds := by
  rw [List.takeWhile_append_of_pos hd]
  cases rest with
  | nil => simp
  | cons c cs => simp [hr c rfl]

theorem dropWhile_digits {ds rest : List Char} (hd : ∀ c ∈ ds, c.isDigit = true) (hr : Ends rest) :
    (ds ++ rest).dropWhile Char.isDigit = rest := by
  rw [List.dropWhile_append_of_pos hd]
  cases rest with
  | nil => rfl
  | cons c cs => simp [hr c rfl]

variable {u v t : List Char}

theorem magnitude_point (hw : ∀ c ∈ u, c.isDigit = true) (hp : ∀ c ∈ v, c.isDigit = true)
    (hr : Ends t) (hne : u ++ v ≠ []) :
    magnitude (u ++ '.' :: (v ++ t)) =
      (tail t).map fun e => ⟨natural (u ++ v), e - v.length⟩ := by
  have hpoint : Ends ('.' :: (v ++ t)) := by simp [Ends]
  unfold magnitude
  rw [takeWhile_digits hw hpoint, dropWhile_digits hw hpoint]
  simp only [fraction, takeWhile_digits hp hr, dropWhile_digits hp hr, if_neg hne]

theorem magnitude_whole (hw : ∀ c ∈ u, c.isDigit = true) (hr : Ends t)
    (hpoint : t.head? ≠ some '.') (hne : u ≠ []) :
    magnitude (u ++ t) = (tail t).map fun e => ⟨natural u, e⟩ := by
  have hf : fraction t = ([], t) := by
    unfold fraction
    split
    · simp at hpoint
    · rfl
  unfold magnitude
  rw [takeWhile_digits hw hr, dropWhile_digits hw hr, hf]
  simp [hne]

theorem sign_of_digit {c : Char} (hc : c.isDigit = true) (cs : List Char) :
    sign (c :: cs) = (false, c :: cs) := by
  unfold sign
  split
  · rename_i h
    cases h
    cases hc
  · rename_i h
    cases h
    cases hc
  · rfl

theorem natural_toDigits (n : Nat) : natural (Nat.toDigits 10 n) = n :=
  Nat.ofDigitChars_ten_toDigits

theorem toDigits_digit (n : Nat) : ∀ c ∈ Nat.toDigits 10 n, c.isDigit = true :=
  fun _ => Nat.isDigit_of_mem_toDigits (by decide) le_rfl

theorem tail_exponentText (sgn : List Char) (hs : sgn = [] ∨ sgn = ['+']) (e : Int) :
    tail ('e' :: exponentText sgn e) = some e := by
  obtain ⟨c, cs, hcs⟩ := List.exists_cons_of_ne_nil (Nat.toDigits_ne_nil (n := e.natAbs) (b := 10))
  have hd : ∀ x ∈ c :: cs, x.isDigit = true := hcs ▸ toDigits_digit e.natAbs
  have hn : natural (c :: cs) = e.natAbs := by rw [← hcs, natural_toDigits]
  have hc : c.isDigit = true := hd c List.mem_cons_self
  have hall : (c :: cs).all Char.isDigit = true := List.all_eq_true.2 hd
  unfold exponentText
  rw [hcs]
  by_cases he : e < 0
  · simp only [tail, he, if_true, List.cons_append, List.nil_append, sign, hall, hn]
    simpa using congrArg Neg.neg (abs_of_neg he)
  · have hsign : sign (sgn ++ c :: cs) = (false, c :: cs) := by
      rcases hs with rfl | rfl
      · exact sign_of_digit hc cs
      · rfl
    simp only [tail, he, if_false, hsign, hall, hn]
    simpa using not_lt.1 he

theorem natural_zeros_append (k : Nat) (ds : List Char) : natural (zeros k ++ ds) = natural ds := by
  simp [natural, zeros, Nat.ofDigitChars_append]

theorem natural_append_zeros (k : Nat) (ds : List Char) :
    natural (ds ++ zeros k) = natural ds * 10 ^ k := by
  simp [natural, zeros, Nat.ofDigitChars_append, Nat.mul_comm]

theorem digit_of_zeros {k : Nat} {c : Char} (hc : c ∈ zeros k) : c.isDigit = true := by
  rw [(List.mem_replicate.1 hc).2]
  rfl

variable {ds : List Char}

theorem magnitude_zeros_append (hd : ∀ c ∈ ds, c.isDigit = true) (k : Nat) :
    ∃ d, magnitude ('0' :: '.' :: (zeros k ++ ds)) = some d ∧
      d.number = natural ds * 10 ^ (-(k + ds.length) : Int) := by
  have hpart : ∀ c ∈ zeros k ++ ds, c.isDigit = true := by
    intro c hc
    exact (List.mem_append.1 hc).elim digit_of_zeros (hd c)
  have hm := magnitude_point (u := ['0']) (t := []) (List.forall_mem_singleton.2 rfl) hpart
    (by simp [Ends]) (by simp)
  rw [List.append_nil] at hm
  have hn : natural (['0'] ++ (zeros k ++ ds)) = natural ds := natural_zeros_append (k + 1) ds
  refine ⟨_, hm, ?_⟩
  rw [Decimal.number, hn]
  simp [zeros]

theorem magnitude_append_zeros {suffix : List Char} (hs : suffix = [] ∨ suffix = ['.', '0'])
    (hd : ∀ c ∈ ds, c.isDigit = true) (hne : ds ≠ []) (k : Nat) :
    ∃ d, magnitude (ds ++ zeros k ++ suffix) = some d ∧ d.number = natural ds * 10 ^ (k : Int) := by
  have hwhole : ∀ c ∈ ds ++ zeros k, c.isDigit = true := by
    intro c hc
    exact (List.mem_append.1 hc).elim (hd c) digit_of_zeros
  rcases hs with rfl | rfl
  · have hm := magnitude_whole (t := []) hwhole (by simp [Ends]) (by simp) (by simp [hne])
    refine ⟨_, hm, ?_⟩
    simp [Decimal.number, natural_append_zeros]
  · have hm := magnitude_point (v := ['0']) (t := []) hwhole (List.forall_mem_singleton.2 rfl)
      (by simp [Ends]) (by simp [hne])
    have hn : natural (ds ++ zeros k ++ ['0']) = natural ds * 10 ^ k * 10 ^ 1 := by
      rw [← natural_append_zeros, ← natural_append_zeros]
      rfl
    refine ⟨_, hm, ?_⟩
    rw [Decimal.number, hn]
    simp

/-- The value of digits with a point after so many of them. -/
theorem magnitude_positional {suffix : List Char} (hs : suffix = [] ∨ suffix = ['.', '0'])
    (hd : ∀ c ∈ ds, c.isDigit = true) (hne : ds ≠ []) (point : Int) :
    ∃ d, magnitude (positional suffix ds point) = some d ∧
      d.number = natural ds * 10 ^ (point - ds.length) := by
  unfold positional
  split
  · rename_i hp
    have hpow : point - ds.length = -((-point).toNat + ds.length : Int) := by omega
    rw [hpow]
    exact magnitude_zeros_append hd _
  · split
    · rename_i hp hlen
      have hpow : point - ds.length = (point.toNat - ds.length : Nat) := by omega
      rw [hpow]
      exact magnitude_append_zeros hs hd hne _
    · rename_i hp hlen
      have hm := magnitude_point (t := []) (fun c hc => hd c (List.mem_of_mem_take hc))
        (fun c hc => hd c (List.mem_of_mem_drop hc)) (by simp [Ends])
        (by rwa [List.take_append_drop point.toNat ds])
      rw [List.append_nil] at hm
      refine ⟨_, hm, ?_⟩
      rw [Decimal.number, List.take_append_drop]
      congr 2
      simp
      omega

theorem magnitude_scientific {sgn : List Char} (hs : sgn = [] ∨ sgn = ['+'])
    (hd : ∀ c ∈ ds, c.isDigit = true) (hne : ds ≠ []) (e : Int) :
    magnitude (scientific sgn ds e) = some ⟨natural ds, e - (ds.length - 1)⟩ := by
  have he : Ends ('e' :: exponentText sgn e) := by simp [Ends]
  obtain ⟨c, cs, rfl⟩ := List.exists_cons_of_ne_nil hne
  have hc : ∀ x ∈ [c], x.isDigit = true := by simpa using hd c List.mem_cons_self
  have hcs : ∀ x ∈ cs, x.isDigit = true := fun x hx => hd x (List.mem_cons_of_mem _ hx)
  unfold scientific
  cases cs with
  | nil =>
    have hm := magnitude_whole hc he (by simp) (by simp)
    rw [tail_exponentText sgn hs] at hm
    simpa using hm
  | cons x xs =>
    have hm := magnitude_point hc hcs he (by simp)
    rw [tail_exponentText sgn hs] at hm
    simpa using hm

theorem lower_ne {c : Char} (hc : c.isDigit = true) (cs : List Char) {x : Char} (xs : List Char)
    (hx : x.isDigit = false) : lower (c :: cs) ≠ x :: xs := by
  intro h
  have hlow : c.toLower = x := (List.cons.inj h).1
  have hsame : c.toLower = c := by
    have hle : c.val ≤ '9'.val := by
      rw [Char.isDigit, Bool.and_eq_true, decide_eq_true_iff, decide_eq_true_iff] at hc
      exact hc.2
    have hlt : '9'.val < 'A'.val := by decide
    exact dif_neg fun h => absurd (UInt32.lt_of_le_of_lt hle hlt) (UInt32.not_lt.2 h.1)
  rw [← hlow, hsame, hc] at hx
  cases hx

/-- A text that starts with a digit is read as a decimal. -/
theorem reading_of_digit {c : Char} (hc : c.isDigit = true) (cs : List Char) :
    reading (c :: cs) = (magnitude (c :: cs)).map (.decimal false) ∧
      reading ('-' :: c :: cs) = (magnitude (c :: cs)).map (.decimal true) := by
  have hnan := lower_ne hc cs ['a', 'n'] (x := 'n') rfl
  have hinf := lower_ne hc cs ['n', 'f'] (x := 'i') rfl
  have hinfinity := lower_ne hc cs ['n', 'f', 'i', 'n', 'i', 't', 'y'] (x := 'i') rfl
  constructor
  · simp [reading, sign_of_digit hc, hnan, hinf, hinfinity]
  · simp [reading, sign, hnan, hinf, hinfinity]

end Numeral

namespace Decimal

open Numeral

theorem digitChars_ne_nil (d : Decimal) : d.digitChars ≠ [] := Nat.toDigits_ne_nil

theorem number_digitChars (d : Decimal) :
    (natural d.digitChars : ℚ) * 10 ^ (d.lead + 1 - d.digitChars.length) = d.number := by
  rw [number, digitChars, natural_toDigits]
  congr 2
  unfold lead digitChars
  omega

/-- The first character is a digit. -/
theorem positional_head (suffix : List Char) {ds : List Char} (hd : ∀ c ∈ ds, c.isDigit = true)
    (hne : ds ≠ []) (point : Int) :
    ∃ c cs, positional suffix ds point = c :: cs ∧ c.isDigit = true := by
  obtain ⟨c, cs, rfl⟩ := List.exists_cons_of_ne_nil hne
  have hc := hd c List.mem_cons_self
  unfold positional
  split
  · exact ⟨'0', _, rfl, rfl⟩
  · split
    · exact ⟨c, _, rfl, hc⟩
    · obtain ⟨k, hk⟩ := Nat.exists_eq_succ_of_ne_zero (n := point.toNat) (by omega)
      rw [hk]
      exact ⟨c, _, rfl, hc⟩

theorem scientific_head (sgn : List Char) {ds : List Char} (hd : ∀ c ∈ ds, c.isDigit = true)
    (hne : ds ≠ []) (e : Int) :
    ∃ c cs, scientific sgn ds e = c :: cs ∧ c.isDigit = true := by
  obtain ⟨c, cs, rfl⟩ := List.exists_cons_of_ne_nil hne
  exact ⟨c, _, rfl, hd c List.mem_cons_self⟩

end Decimal

namespace Notation

open Numeral

/-- A notation whose texts of finite numbers are numerals. -/
structure Standard (n : Notation) : Prop where
  suffix : n.wholeSuffix = [] ∨ n.wholeSuffix = ['.', '0']
  sign : n.exponentSign = [] ∨ n.exponentSign = ['+']

theorem magnitude_decimal {n : Notation} (hn : n.Standard) (d : Decimal) :
    ∃ r, Numeral.magnitude (n.decimal d) = some r ∧ r.nearest = d.nearest := by
  have hd := toDigits_digit d.trim.digits
  have hne := digitChars_ne_nil d.trim
  unfold Notation.decimal
  dsimp only
  split
  · obtain ⟨r, hm, hr⟩ := magnitude_positional hn.suffix hd hne (d.trim.lead + 1)
    refine ⟨r, hm, ?_⟩
    rw [← nearest_trim d]
    exact nearest_congr (hr.trans (number_digitChars d.trim))
  · refine ⟨_, magnitude_scientific hn.sign hd hne d.trim.lead, ?_⟩
    rw [← nearest_trim d]
    apply nearest_congr
    rw [← number_digitChars d.trim, number]
    congr 2
    simp only [digitChars]
    ring

theorem decimal_head (n : Notation) (d : Decimal) :
    ∃ c cs, n.decimal d = c :: cs ∧ c.isDigit = true := by
  have hd := toDigits_digit d.trim.digits
  have hne := digitChars_ne_nil d.trim
  unfold Notation.decimal
  dsimp only
  split
  · exact positional_head _ hd hne _
  · exact scientific_head _ hd hne _

/-- The text of a finite code is that of a decimal which is nearest to the code. -/
theorem exists_decimal (n : Notation) {c : Nat} (hc : c < infinityCode) :
    ∃ d : Decimal, n.magnitude c = n.decimal d ∧ d.nearest = c := by
  unfold Notation.magnitude
  rw [if_neg hc.ne]
  split
  · rename_i hz
    exact ⟨⟨0, 0⟩, rfl, hz.symm⟩
  · exact ⟨shortest n.tie c, rfl, nearest_shortest_eq n.tie hc⟩

theorem read_write {n : Notation} (hn : n.Standard) {x : Float} (hx : code x < infinityCode) :
    Numeral.read (n.write x) = some x := by
  have hnan : ¬ x.isNaN = true := by
    rw [isNaN_iff]
    omega
  obtain ⟨d, hd, hc⟩ := n.exists_decimal hx
  obtain ⟨c, cs, hcs, hdigit⟩ := n.decimal_head d
  obtain ⟨r, hm, hr⟩ := magnitude_decimal hn d
  obtain ⟨hpos, hneg⟩ := reading_of_digit hdigit cs
  rw [hcs] at hm
  have hback := ofCode_code x
  unfold Notation.write
  rw [if_neg hnan, hd, hcs]
  cases hs : isNegative x with
  | false =>
    rw [hs] at hback
    simp [Numeral.read, hpos, hm, Reading.float, hr, hc, hback]
  | true =>
    rw [hs] at hback
    simp [Numeral.read, hneg, hm, Reading.float, hr, hc, hback]

end Notation

namespace Scalar

theorem standard_layout : layout.Standard := ⟨Or.inr rfl, Or.inl rfl⟩

/-- Every number reads back, the infinities and the one that is no number too. -/
theorem read_chars (x : Float) : Numeral.read (chars x) = some x := by
  rcases lt_trichotomy (code x) infinityCode with hx | hx | hx
  · exact layout.read_write standard_layout hx
  · have hnan : ¬ x.isNaN = true := by
      rw [isNaN_iff]
      omega
    have hback := ofCode_code x
    rw [hx] at hback
    unfold chars Notation.write Notation.magnitude
    rw [if_neg hnan, if_pos hx]
    cases hs : isNegative x with
    | false =>
      rw [hs] at hback
      exact congrArg some hback
    | true =>
      rw [hs] at hback
      exact congrArg some hback
  · have hnan := (isNaN_iff x).2 hx
    rw [chars, Notation.write, if_pos hnan, eq_nan hnan]
    rfl

end Scalar

end NumericSteps
