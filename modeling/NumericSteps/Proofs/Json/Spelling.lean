import NumericSteps.Json.Decode
import NumericSteps.Json.Write
import NumericSteps.Proofs.Decimal.ReadBack

namespace NumericSteps.Json

open Decimal Double

/-- Nothing in front that would be read as more of a number. -/
def Stops (rest : List Char) : Prop :=
  ∀ c ∈ rest.head?, c.isDigit = false ∧ c ≠ '.' ∧ c ≠ 'e' ∧ c ≠ 'E'

theorem stops_nil : Stops [] := by simp [Stops]

theorem Stops.ends {rest : List Char} (h : Stops rest) : Numeral.Ends rest := fun c hc => (h c hc).1

/-- No character is a control character. -/
def Printed (cs : List Char) : Prop := ∀ c ∈ cs, 0x20 ≤ c.toNat

theorem printed_nil : Printed [] := List.forall_mem_nil _

theorem printed_cons {c : Char} {cs : List Char} :
    Printed (c :: cs) ↔ 0x20 ≤ c.toNat ∧ Printed cs := List.forall_mem_cons

theorem printed_append {xs ys : List Char} : Printed (xs ++ ys) ↔ Printed xs ∧ Printed ys :=
  List.forall_mem_append

/-- Digits, one at least. -/
structure IsDigits (ds : List Char) : Prop where
  ne_nil : ds ≠ []
  digit : ∀ c ∈ ds, c.isDigit = true

/-- Digits with no zero in front of others. -/
structure IsWhole (ds : List Char) : Prop where
  digits : IsDigits ds
  lead : ds = ['0'] ∨ ds.head? ≠ some '0'

def IsFraction (cs : List Char) : Prop := cs = [] ∨ ∃ ds, cs = '.' :: ds ∧ IsDigits ds

def IsExponent (cs : List Char) : Prop :=
  cs = [] ∨ ∃ sgn ds, cs = 'e' :: (sgn ++ ds) ∧ (sgn = ['-'] ∨ sgn = ['+']) ∧ IsDigits ds

/-- A number without its sign. -/
inductive Spelled : List Char → Prop
  | of {whole part power : List Char} :
      IsWhole whole → IsFraction part → IsExponent power → Spelled (whole ++ part ++ power)

variable {cs ds rest : List Char}

section Reading

theorem digits1_append (hd : IsDigits ds) (hr : Numeral.Ends rest) :
    digits1 (ds ++ rest) = some (ds, rest) := by
  unfold digits1
  rw [Numeral.takeWhile_digits hd.digit hr, Numeral.dropWhile_digits hd.digit hr]
  obtain ⟨c, cs, rfl⟩ := List.exists_cons_of_ne_nil hd.ne_nil
  rfl

theorem wholePart_append (hd : IsWhole ds) (hr : Numeral.Ends rest) :
    wholePart (ds ++ rest) = some (ds, rest) := by
  unfold wholePart
  rw [digits1_append hd.digits hr]
  rcases hd.lead with rfl | hl
  · rfl
  · split
    · rename_i h
      cases h
      rfl
    · rename_i h
      cases h
      simp at hl
    · rfl

theorem fractionPart_append (hp : IsFraction cs) (hr : Numeral.Ends rest)
    (hdot : rest.head? ≠ some '.') : fractionPart (cs ++ rest) = some (cs, rest) := by
  rcases hp with rfl | ⟨ds, rfl, hd⟩
  · rw [List.nil_append]
    unfold fractionPart
    split
    · simp at hdot
    · rfl
  · simp [fractionPart, digits1_append hd hr]

theorem exponentPart_append (hp : IsExponent cs) (hr : Stops rest) :
    exponentPart (cs ++ rest) = some (cs, rest) := by
  rcases hp with rfl | ⟨sgn, ds, rfl, hs, hd⟩
  · cases rest with
    | nil => rfl
    | cons c cs =>
      obtain ⟨-, -, he, hE⟩ := hr c rfl
      simp [exponentPart, he, hE]
  · have hdigits := digits1_append hd hr.ends
    have hsign : exponentSign (sgn ++ (ds ++ rest)) = (sgn, ds ++ rest) := by
      rcases hs with rfl | rfl <;> rfl
    simp [exponentPart, hsign, hdigits]

theorem IsExponent.ends_append (hp : IsExponent cs) (hr : Stops rest) :
    Numeral.Ends (cs ++ rest) ∧ (cs ++ rest).head? ≠ some '.' := by
  rcases hp with rfl | ⟨sgn, ds, rfl, -⟩
  · refine ⟨hr.ends, fun hc => ?_⟩
    exact (hr '.' hc).2.1 rfl
  · simp [Numeral.Ends]

theorem IsFraction.ends_append (hp : IsFraction cs) (hr : Numeral.Ends rest) :
    Numeral.Ends (cs ++ rest) := by
  rcases hp with rfl | ⟨ds, rfl, -⟩
  · exact hr
  · simp [Numeral.Ends]

theorem Spelled.unsigned_append (h : Spelled cs) (hr : Stops rest) :
    unsigned (cs ++ rest) = some (cs, rest) := by
  obtain ⟨hwhole, hpart, hpower⟩ := h
  obtain ⟨hends, hdot⟩ := hpower.ends_append hr
  unfold unsigned
  rw [List.append_assoc, List.append_assoc, wholePart_append hwhole (hpart.ends_append hends)]
  simp only [Option.bind_eq_bind, Option.bind_some, fractionPart_append hpart hends hdot,
    exponentPart_append hpower hr, Option.pure_def, List.append_assoc]

theorem Spelled.head (h : Spelled cs) : ∃ c tail, cs = c :: tail ∧ c.isDigit = true := by
  obtain ⟨hwhole, -, -⟩ := h
  obtain ⟨c, tail, rfl⟩ := List.exists_cons_of_ne_nil hwhole.digits.ne_nil
  exact ⟨c, _, rfl, hwhole.digits.digit c List.mem_cons_self⟩

theorem Spelled.printed (h : Spelled cs) : Printed cs := by
  have hdigits {ds : List Char} (hd : ∀ c ∈ ds, c.isDigit = true) : Printed ds := by
    intro c hc
    have h := hd c hc
    rw [Char.isDigit, Bool.and_eq_true, decide_eq_true_iff, decide_eq_true_iff] at h
    have hl : 48 ≤ c.toNat := h.1
    omega
  obtain ⟨hwhole, hpart, hpower⟩ := h
  refine printed_append.2 ⟨printed_append.2 ⟨hdigits hwhole.digits.digit, ?_⟩, ?_⟩
  · rcases hpart with rfl | ⟨ds, rfl, hd⟩
    · exact printed_nil
    · exact printed_cons.2 ⟨by decide, hdigits hd.digit⟩
  · rcases hpower with rfl | ⟨sgn, ds, rfl, hs, hd⟩
    · exact printed_nil
    · refine printed_cons.2 ⟨by decide, printed_append.2 ⟨?_, hdigits hd.digit⟩⟩
      rcases hs with rfl | rfl <;> exact printed_cons.2 ⟨by decide, printed_nil⟩

theorem Spelled.numberSpelling_append (h : Spelled cs) (hr : Stops rest) :
    numberSpelling (cs ++ rest) = some (cs, rest) ∧
      numberSpelling ('-' :: cs ++ rest) = some ('-' :: cs, rest) := by
  have hread := h.unsigned_append hr
  constructor
  · obtain ⟨c, tail, rfl, hc⟩ := h.head
    unfold numberSpelling
    split
    · rename_i he
      rw [(List.cons.inj he).1] at hc
      cases hc
    · exact hread
  · simp only [List.cons_append, numberSpelling, hread, Option.map_some]

end Reading

section Writing

/-- A positive number has no zero in front. -/
theorem head_toDigits {n : Nat} (hn : n ≠ 0) : (Nat.toDigits 10 n).head? ≠ some '0' := by
  induction n using Nat.strongRecOn with
  | ind n ih =>
    by_cases hlt : n < 10
    · rw [Nat.toDigits_of_lt_base hlt]
      interval_cases n
      · exact absurd rfl hn
      all_goals decide
    · rw [Nat.toDigits_of_base_le (by norm_num) (by omega)]
      obtain ⟨c, cs, hcs⟩ := List.exists_cons_of_ne_nil (Nat.toDigits_ne_nil (n := n / 10) (b := 10))
      have hrec := ih (n / 10) (by omega) (by omega)
      rw [hcs] at hrec ⊢
      exact hrec

theorem isDigits_toDigits (n : Nat) : IsDigits (Nat.toDigits 10 n) :=
  ⟨Nat.toDigits_ne_nil, Numeral.toDigits_digit n⟩

theorem isDigits_zero : IsDigits ['0'] := isDigits_toDigits 0

theorem isWhole_writeNat (n : Nat) : IsWhole (writeNat n) := by
  refine ⟨isDigits_toDigits n, ?_⟩
  by_cases hn : n = 0
  · subst hn
    exact Or.inl rfl
  · exact Or.inr (head_toDigits hn)

theorem spelled_writeNat (n : Nat) : Spelled (writeNat n) := by
  have h := Spelled.of (isWhole_writeNat n) (Or.inl rfl) (Or.inl rfl)
  rwa [List.append_nil, List.append_nil] at h

/-- Digits on both sides of a point, and no zero in front of others. -/
theorem positional_parts (hd : IsDigits ds) (hl : ds.head? ≠ some '0') (point : Int) :
    ∃ u v, positional ['.', '0'] ds point = u ++ '.' :: v ∧ IsWhole u ∧ IsDigits v := by
  obtain ⟨c, cs, rfl⟩ := List.exists_cons_of_ne_nil hd.ne_nil
  have hzeros (k : Nat) : ∀ x ∈ zeros k, x.isDigit = true := fun x hx => Numeral.digit_of_zeros hx
  unfold positional
  split
  · have hpart : IsDigits (zeros (-point).toNat ++ c :: cs) :=
      ⟨by simp, fun x hx => (List.mem_append.1 hx).elim (hzeros _ x) (hd.digit x)⟩
    exact ⟨['0'], _, rfl, ⟨isDigits_zero, Or.inl rfl⟩, hpart⟩
  · split
    · have hwhole : IsDigits (c :: cs ++ zeros (point.toNat - (c :: cs).length)) :=
        ⟨by simp, fun x hx => (List.mem_append.1 hx).elim (hd.digit x) (hzeros _ x)⟩
      exact ⟨_, ['0'], rfl, ⟨hwhole, Or.inr hl⟩, isDigits_zero⟩
    · rename_i hpos hlen
      have hpart : IsDigits ((c :: cs).drop point.toNat) :=
        ⟨by simp at hlen ⊢; omega, fun x hx => hd.digit x (List.mem_of_mem_drop hx)⟩
      obtain ⟨k, hk⟩ := Nat.exists_eq_succ_of_ne_zero (n := point.toNat) (by omega)
      rw [hk] at hpart ⊢
      have hwhole : IsDigits (c :: cs.take k) :=
        ⟨by simp, fun x hx => hd.digit x (List.mem_of_mem_take (i := k + 1) hx)⟩
      exact ⟨_, _, rfl, ⟨hwhole, Or.inr hl⟩, hpart⟩

theorem spelled_positional (hd : IsDigits ds) (hl : ds.head? ≠ some '0') (point : Int) :
    Spelled (positional ['.', '0'] ds point) := by
  obtain ⟨u, v, he, hu, hv⟩ := positional_parts hd hl point
  have h := Spelled.of hu (Or.inr ⟨v, rfl, hv⟩) (Or.inl rfl)
  rwa [List.append_nil, ← he] at h

theorem spelled_scientific (hd : IsDigits ds) (hl : ds.head? ≠ some '0') (e : Int) :
    Spelled (scientific ['+'] ds e) := by
  obtain ⟨c, cs, rfl⟩ := List.exists_cons_of_ne_nil hd.ne_nil
  have hc : IsDigits [c] := ⟨by simp, by simpa using hd.digit c List.mem_cons_self⟩
  have hpower : IsExponent ('e' :: exponentText ['+'] e) := by
    refine Or.inr ⟨_, _, rfl, ?_, isDigits_toDigits e.natAbs⟩
    split <;> simp
  cases cs with
  | nil => exact Spelled.of ⟨hc, Or.inr hl⟩ (Or.inl rfl) hpower
  | cons x xs =>
    have hmore : IsDigits (x :: xs) := ⟨by simp, fun y hy => hd.digit y (List.mem_cons_of_mem _ hy)⟩
    exact Spelled.of ⟨hc, Or.inr hl⟩ (Or.inr ⟨_, rfl, hmore⟩) hpower

theorem digits_trim_ne_zero {d : Decimal} (hd : d.digits ≠ 0) : d.trim.digits ≠ 0 := by
  intro hz
  have hnumber : d.trim.number = d.number := number_trimCore _ d
  rw [Decimal.number, hz, Decimal.number, Nat.cast_zero, zero_mul, eq_comm, mul_eq_zero] at hnumber
  rcases hnumber with hdigits | hpower
  · exact hd (by exact_mod_cast hdigits)
  · exact absurd hpower (by positivity)

theorem spelled_decimal {d : Decimal} (hd : d.digits ≠ 0) : Spelled (layout.decimal d) := by
  have hdigits : IsDigits d.trim.digitChars := isDigits_toDigits d.trim.digits
  have hlead : d.trim.digitChars.head? ≠ some '0' := head_toDigits (digits_trim_ne_zero hd)
  unfold Notation.decimal
  dsimp only
  split
  · exact spelled_positional hdigits hlead _
  · exact spelled_scientific hdigits hlead _

theorem spelled_magnitude {c : Nat} (hc : c < infinityCode) : Spelled (layout.magnitude c) := by
  unfold Notation.magnitude
  rw [if_neg hc.ne]
  split
  · have hzero : layout.decimal ⟨0, 0⟩ = ['0'] ++ ['.', '0'] ++ [] := by decide
    rw [hzero]
    exact Spelled.of ⟨isDigits_zero, Or.inl rfl⟩ (Or.inr ⟨['0'], rfl, isDigits_zero⟩) (Or.inl rfl)
  · rename_i hz
    apply spelled_decimal
    intro hd
    have hnearest := nearest_shortest_eq layout.tie hc
    rw [nearest, if_pos hd] at hnearest
    exact hz hnearest.symm

end Writing

end NumericSteps.Json
