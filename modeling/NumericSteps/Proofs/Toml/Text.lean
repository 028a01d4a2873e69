import NumericSteps.Toml.Text
import NumericSteps.Toml.Write
import Mathlib.Tactic

namespace NumericSteps.Toml

variable {c mark : Char} {cs t rest : List Char}

section Characters

theorem isOpen_of_not_control (h : isControl c = false) (hn : c ≠ '\n') : isOpen c = true := by
  simp only [isControl, Bool.or_eq_false_iff, Bool.and_eq_false_iff, decide_eq_false_iff_not,
    bne_eq_false_iff_eq, beq_eq_false_iff_ne] at h
  simp only [isOpen, Bool.or_eq_true, beq_iff_eq, Bool.and_eq_true, decide_eq_true_iff, bne_iff_ne]
  by_cases ht : c = '\t'
  · exact Or.inl ht
  · refine Or.inr ⟨?_, h.2⟩
    rcases h.1 with (hlow | htab) | hfeed
    · omega
    · exact absurd htab ht
    · exact absurd hfeed hn

/-- The controls are written with four digits, which stand for them. -/
theorem hexChar_upperHex (h : c.toNat < 0x20 ∨ c.toNat = 0x7f) :
    ∃ x y z w, upperHex c.toNat = [x, y, z, w] ∧ hexChar [x, y, z, w] = some c := by
  have hall : ∀ n < 0x80, n < 0x20 ∨ n = 0x7f →
      (upperHex n).length = 4 ∧ hexChar (upperHex n) = some (Char.ofNat n) := by decide
  obtain ⟨hlen, hchar⟩ := hall c.toNat (by omega) h
  obtain ⟨x, y, z, w, hd⟩ := List.length_eq_four.1 hlen
  refine ⟨x, y, z, w, hd, ?_⟩
  rw [← hd, hchar, Char.ofNat_toNat]

end Characters

section Quoted

/-- A character that stands for itself between quotes. -/
structure Plain (c : Char) : Prop where
  opens : isOpen c = true
  quote : c ≠ '"'
  slash : c ≠ '\\'
  feed : c ≠ '\n'
  turn : c ≠ '\r'

/-- A character other than a quote and a line feed is an escape of one letter, the number of a
control, or stands for itself. -/
theorem escapedChar_cases (hq : c ≠ '"') (hn : c ≠ '\n') :
    (∃ x, escapedChar c = ['\\', x] ∧ simpleEscape x = some c) ∨
      (∃ x y z w, escapedChar c = ['\\', 'u', x, y, z, w] ∧ hexChar [x, y, z, w] = some c) ∨
      escapedChar c = [c] ∧ Plain c := by
  unfold escapedChar
  split_ifs with hb ht hf hr hs hc
  · exact Or.inl ⟨'b', rfl, by rw [hb]; rfl⟩
  · exact Or.inl ⟨'t', rfl, by rw [ht]; rfl⟩
  · exact Or.inl ⟨'f', rfl, by rw [hf]; rfl⟩
  · exact Or.inl ⟨'r', rfl, by rw [hr]; rfl⟩
  · exact Or.inl ⟨'\\', rfl, by rw [hs]; rfl⟩
  · obtain ⟨x, y, z, w, hd, hx⟩ := hexChar_upperHex hc
    exact Or.inr (Or.inl ⟨x, y, z, w, by rw [hd], hx⟩)
  · have hcontrol : isControl c = false := by
      simp only [isControl, Bool.or_eq_false_iff, Bool.and_eq_false_iff, decide_eq_false_iff_not,
        beq_eq_false_iff_ne]
      exact ⟨Or.inl (Or.inl fun h => hc (Or.inl h)), fun h => hc (Or.inr h)⟩
    exact Or.inr (Or.inr ⟨rfl, isOpen_of_not_control hcontrol hn, hq, hs, hn, hr⟩)

/-- So it starts with none of the characters that have a meaning there. -/
theorem escapedChar_head (hq : c ≠ '"') (hn : c ≠ '\n') :
    ∃ x xs, escapedChar c = x :: xs ∧ x ≠ '"' ∧ x ≠ '\n' ∧ x ≠ '\r' := by
  rcases escapedChar_cases hq hn with ⟨x, he, -⟩ | ⟨x, y, z, w, he, -⟩ | ⟨he, hc⟩
  · exact ⟨'\\', _, he, by decide⟩
  · exact ⟨'\\', _, he, by decide⟩
  · exact ⟨c, [], he, hc.quote, hc.feed, hc.turn⟩

theorem quotedBody_plain (h : Plain c) (t : List Char) :
    quotedBody (c :: t) = before (some c) (quotedBody t) := by
  have hopen := h.opens
  have hquote := h.quote
  have hslash := h.slash
  rw [quotedBody.eq_def]
  split <;> simp_all

theorem quotedBody_escape {x : Char} (h : simpleEscape x = some c) (t : List Char) :
    quotedBody ('\\' :: x :: t) = before (some c) (quotedBody t) := by
  unfold simpleEscape at h
  split_ifs at h
  all_goals
    subst x
    cases h
    rfl

theorem quotedBody_quotedChar (c : Char) (t : List Char) :
    quotedBody (quotedChar c ++ t) = before (some c) (quotedBody t) := by
  unfold quotedChar
  split_ifs with hq hn
  · exact quotedBody_escape (by rw [hq]; rfl) t
  · exact quotedBody_escape (by rw [hn]; rfl) t
  · rcases escapedChar_cases hq hn with ⟨x, he, hx⟩ | ⟨x, y, z, w, he, hx⟩ | ⟨he, hc⟩
    · rw [he]
      exact quotedBody_escape hx t
    · rw [he, ← hx]
      rfl
    · rw [he]
      exact quotedBody_plain hc t

/-- Whatever a text holds, it can be written between quotes. -/
theorem quotedBody_append (cs rest : List Char) :
    quotedBody (cs.flatMap quotedChar ++ '"' :: rest) = some (cs, rest) := by
  induction cs with
  | nil => rfl
  | cons c cs ih =>
    rw [List.flatMap_cons, List.append_assoc, quotedBody_quotedChar, ih]
    rfl

end Quoted

section Literal

theorem literalBody_append (h : ∀ c ∈ cs, isOpen c = true) (ha : '\'' ∉ cs) (rest : List Char) :
    literalBody (cs ++ '\'' :: rest) = some (cs, rest) := by
  induction cs with
  | nil => rfl
  | cons c cs ih =>
    rw [List.forall_mem_cons] at h
    rw [List.mem_cons, not_or] at ha
    rw [List.cons_append, literalBody, if_neg (Ne.symm ha.1), if_pos h.1, ih h.2 ha.2]
    rfl

end Literal

section Closing

theorem closing_none {a : Char} (h : a ≠ mark) (t : List Char) : closing mark (a :: t) = ([], a :: t) := by
  cases t <;> simp [closing, h]

theorem closing_one {a : Char} (h : a ≠ mark) (t : List Char) :
    closing mark (mark :: a :: t) = ([mark], a :: t) := by
  simp [closing, h]

theorem closing_two (t : List Char) : closing mark (mark :: mark :: t) = ([mark, mark], t) := by
  simp [closing]

end Closing

section LongQuoted

theorem longQuotedBody_plain (h : Plain c) (t : List Char) :
    longQuotedBody false (c :: t) = before (some c) (longQuotedBody false t) := by
  have hopen := h.opens
  have hquote := h.quote
  have hslash := h.slash
  have hturn := h.turn
  rw [longQuotedBody.eq_def]
  split <;> simp_all

theorem longQuotedBody_feed (t : List Char) :
    longQuotedBody false ('\n' :: t) = before (some '\n') (longQuotedBody false t) := rfl

theorem longQuotedBody_escape {x : Char} (h : simpleEscape x = some c) (t : List Char) :
    longQuotedBody false ('\\' :: x :: t) = before (some c) (longQuotedBody false t) := by
  unfold simpleEscape at h
  split_ifs at h
  all_goals
    subst x
    cases h
    rfl

theorem longQuotedBody_escapedChar (hq : c ≠ '"') (hn : c ≠ '\n') (t : List Char) :
    longQuotedBody false (escapedChar c ++ t) = before (some c) (longQuotedBody false t) := by
  rcases escapedChar_cases hq hn with ⟨x, he, hx⟩ | ⟨x, y, z, w, he, hx⟩ | ⟨he, hc⟩
  · rw [he]
    exact longQuotedBody_escape hx t
  · rw [he, ← hx]
    rfl
  · rw [he]
    exact longQuotedBody_plain hc t

/-- A quote that is not followed by two more is part of the text. -/
theorem longQuotedBody_quote (h : ∀ u, t ≠ '"' :: '"' :: u) :
    longQuotedBody false ('"' :: t) = before (some '"') (longQuotedBody false t) := by
  rw [longQuotedBody.eq_def]
  split <;> simp_all
  rename_i hmatch
  rw [← hmatch.1]
  rfl

/-- Only a quote is written as a quote, and no third one in a row. -/
theorem longQuotedChars_eq_quote {run : Nat} {u : List Char}
    (h : longQuotedChars run (c :: cs) ++ t = '"' :: u) :
    c = '"' ∧ run < 2 ∧ longQuotedChars (run + 1) cs ++ t = u := by
  unfold longQuotedChars at h
  split_ifs at h with hq hrun hn
  · exact ⟨hq, hrun, (List.cons.inj h).2⟩
  · cases h
  · cases h
  · obtain ⟨x, xs, he, hx, -⟩ := escapedChar_head hq hn
    rw [he] at h
    exact absurd (List.cons.inj h).1 hx

/-- After a quote, two more follow only at the end of the text or before its last quote. -/
theorem longQuotedChars_eq_quotes {run : Nat} {u : List Char}
    (h : longQuotedChars (run + 1) cs ++ t = '"' :: '"' :: u) : cs = [] ∨ cs = ['"'] ∧ run = 0 := by
  cases cs with
  | nil => exact Or.inl rfl
  | cons c cs =>
    obtain ⟨rfl, hrun, h⟩ := longQuotedChars_eq_quote h
    cases cs with
    | nil => exact Or.inr ⟨rfl, by omega⟩
    | cons c' cs =>
      obtain ⟨-, hrun', -⟩ := longQuotedChars_eq_quote h
      omega

/-- Whatever a text holds, it can be written between three quotes. The induction is on the text, of which
the quotes at its end are read together with those that close it. -/
theorem longQuotedBody_append (run : Nat) (cs rest : List Char) :
    longQuotedBody false (longQuotedChars run cs ++ (longQuote ++ '\n' :: rest)) =
      some (cs, '\n' :: rest) := by
  induction cs generalizing run with
  | nil =>
    rw [longQuotedChars]
    exact congrArg some (closing_none (by decide) rest)
  | cons c cs ih =>
    unfold longQuotedChars
    split_ifs with hq hrun hn
    · subst hq
      rw [List.cons_append]
      by_cases hend : cs = [] ∨ cs = ['"'] ∧ run = 0
      · rcases hend with rfl | ⟨rfl, rfl⟩
        · rw [longQuotedChars]
          exact congrArg some (closing_one (by decide) rest)
        · exact congrArg some (closing_two ('\n' :: rest))
      · have hnot : ∀ u, longQuotedChars (run + 1) cs ++ (longQuote ++ '\n' :: rest) ≠ '"' :: '"' :: u :=
          fun u hu => hend (longQuotedChars_eq_quotes hu)
        rw [longQuotedBody_quote hnot, ih]
        rfl
    · subst hq
      rw [List.cons_append, List.cons_append, longQuotedBody_escape (x := '"') rfl, ih]
      rfl
    · subst hn
      rw [List.cons_append, longQuotedBody_feed, ih]
      rfl
    · rw [List.append_assoc, longQuotedBody_escapedChar hq hn, ih]
      rfl

end LongQuoted

section LongLiteral

theorem le_longestRun (mark : Char) (run : Nat) (cs : List Char) : run ≤ longestRun mark run cs := by
  induction cs generalizing run with
  | nil => exact le_rfl
  | cons c cs ih =>
    rw [longestRun]
    split_ifs
    · exact (Nat.le_succ run).trans (ih (run + 1))
    · exact le_max_left _ _

theorem not_mem_of_longestRun {run : Nat} (h : longestRun mark run cs = 0) : mark ∉ cs := by
  induction cs generalizing run with
  | nil => simp
  | cons c cs ih =>
    rw [longestRun] at h
    split_ifs at h with hc
    · have := le_longestRun mark (run + 1) cs
      omega
    · rw [Nat.max_eq_zero_iff] at h
      simp [Ne.symm hc, ih h.2]

theorem longLiteralBody_apostrophe (h : ∀ u, t ≠ '\'' :: '\'' :: u) :
    longLiteralBody ('\'' :: t) = before (some '\'') (longLiteralBody t) := by
  rw [longLiteralBody.eq_def]
  split <;> simp_all
  rename_i hmatch
  rw [← hmatch.1]
  rfl

theorem longLiteralBody_cons (hc : isControl c = false) (ha : c ≠ '\'') (t : List Char) :
    longLiteralBody (c :: t) = before (some c) (longLiteralBody t) := by
  have hopen : c = '\n' ∨ isOpen c = true := by
    by_cases hn : c = '\n'
    · exact Or.inl hn
    · exact Or.inr (isOpen_of_not_control hc hn)
  have hturn : c ≠ '\r' := by
    rintro rfl
    cases hc
  rw [longLiteralBody.eq_def]
  split
  all_goals simp_all
  intro hn hclosed
  exact absurd hclosed (by simp [hopen.resolve_left hn])

/-- After an apostrophe, two more follow only at the end of the text or before its last one. -/
theorem eq_of_two_apostrophes {run : Nat} {u : List Char} (hr : longestRun '\'' (run + 1) cs ≤ 2)
    (h : cs ++ t = '\'' :: '\'' :: u) : cs = [] ∨ cs = ['\''] := by
  rcases cs with _ | ⟨c, _ | ⟨c', cs⟩⟩
  · exact Or.inl rfl
  · exact Or.inr (by rw [(List.cons.inj h).1])
  · cases h
    have := le_longestRun '\'' (run + 1 + 1 + 1) cs
    simp only [longestRun, if_true] at hr
    omega

theorem longLiteralBody_append {run : Nat} (h : ∀ c ∈ cs, isControl c = false)
    (hr : longestRun '\'' run cs ≤ 2) (rest : List Char) :
    longLiteralBody (cs ++ (longApostrophe ++ '\n' :: rest)) = some (cs, '\n' :: rest) := by
  induction cs generalizing run with
  | nil => exact congrArg some (closing_none (by decide) rest)
  | cons c cs ih =>
    rw [List.forall_mem_cons] at h
    rw [longestRun] at hr
    split_ifs at hr with hc
    · subst hc
      rw [List.cons_append]
      by_cases hend : cs = [] ∨ cs = ['\'']
      · rcases hend with rfl | rfl
        · exact congrArg some (closing_one (by decide) rest)
        · exact congrArg some (closing_two ('\n' :: rest))
      · rw [longLiteralBody_apostrophe (fun u hu => hend (eq_of_two_apostrophes hr hu)), ih h.2 hr]
        rfl
    · rw [List.cons_append, longLiteralBody_cons h.1 hc, ih h.2 ((le_max_right _ _).trans hr)]
      rfl

end LongLiteral

section Forms

/-- A text without escapes has no controls, and fits between its marks. -/
theorem of_form_literal (h : form cs = .literal) :
    (∀ c ∈ cs, isControl c = false) ∧ '\'' ∉ cs ∧ '\n' ∉ cs := by
  unfold form at h
  dsimp only at h
  split_ifs at h with h₁ h₂
  simp only [Bool.and_eq_true, Bool.not_eq_true', decide_eq_true_iff, List.any_eq_false,
    Bool.not_eq_true, List.contains_eq_mem, decide_eq_false_iff_not] at h₂
  exact ⟨h₂.1.1, not_mem_of_longestRun h₂.1.2, h₂.2⟩

theorem of_form_longLiteral (h : form cs = .longLiteral) :
    (∀ c ∈ cs, isControl c = false) ∧ longestRun '\'' 0 cs ≤ 2 := by
  unfold form at h
  dsimp only at h
  split_ifs at h with h₁ h₂ h₃ h₄
  simpa only [Bool.and_eq_true, Bool.not_eq_true', decide_eq_true_iff, List.any_eq_false,
    Bool.not_eq_true] using h₄

theorem dropFirstEnd_append (h : '\n' ∉ cs → newline? t = none) : dropFirstEnd (firstEnd cs ++ t) = t := by
  unfold firstEnd dropFirstEnd
  split_ifs with hn
  · rfl
  · rw [List.nil_append, h (by simpa using hn)]
    rfl

theorem newline?_eq_none (hn : c ≠ '\n') (hr : c ≠ '\r') (t : List Char) : newline? (c :: t) = none := by
  unfold newline?
  split <;> simp_all

theorem newline?_longQuotedChars (h : '\n' ∉ cs) :
    newline? (longQuotedChars 0 cs ++ (longQuote ++ t)) = none := by
  cases cs with
  | nil =>
    rw [longQuotedChars]
    rfl
  | cons c cs =>
    have hn : c ≠ '\n' := fun he => h (he ▸ List.mem_cons_self)
    unfold longQuotedChars
    rw [if_pos (by decide : 0 < 2), if_neg hn]
    split_ifs with hq
    · rfl
    · obtain ⟨x, xs, he, -, hfeed, hturn⟩ := escapedChar_head hq hn
      rw [he]
      exact newline?_eq_none hfeed hturn _

theorem newline?_literal (h : ∀ c ∈ cs, isControl c = false) (hn : '\n' ∉ cs) :
    newline? (cs ++ (longApostrophe ++ t)) = none := by
  cases cs with
  | nil => rfl
  | cons c cs =>
    rw [List.mem_cons, not_or] at hn
    refine newline?_eq_none (Ne.symm hn.1) ?_ _
    rintro rfl
    cases h '\r' List.mem_cons_self

theorem quotedChar_ne_quote {u : List Char} : quotedChar c ++ t ≠ '"' :: u := by
  intro h
  unfold quotedChar at h
  split_ifs at h with hq hn
  · cases h
  · cases h
  · obtain ⟨x, xs, he, hx, -⟩ := escapedChar_head hq hn
    rw [he] at h
    exact hx (List.cons.inj h).1

theorem readText_quote (h : ∀ u, t ≠ '"' :: '"' :: u) : readText ('"' :: t) = quotedBody t := by
  unfold readText
  split <;> simp_all

theorem readText_apostrophe (h : ∀ u, t ≠ '\'' :: '\'' :: u) : readText ('\'' :: t) = literalBody t := by
  unfold readText
  split <;> simp_all

theorem readText_longQuote (t : List Char) :
    readText (longQuote ++ t) = longQuotedBody false (dropFirstEnd t) := rfl

theorem readText_longApostrophe (t : List Char) :
    readText (longApostrophe ++ t) = longLiteralBody (dropFirstEnd t) := rfl

/-- A text reads back from the line on which it ends, whatever it holds. -/
theorem readText_writeText (cs rest : List Char) :
    readText (writeText cs ++ '\n' :: rest) = some (cs, '\n' :: rest) := by
  unfold writeText
  cases hform : form cs with
  | quoted =>
    have hone : ∀ u, cs.flatMap quotedChar ++ '"' :: '\n' :: rest ≠ '"' :: '"' :: u := by
      intro u
      cases cs with
      | nil => simp
      | cons c cs =>
        rw [List.flatMap_cons, List.append_assoc]
        exact quotedChar_ne_quote
    dsimp only
    rw [List.cons_append, List.append_assoc, List.singleton_append, readText_quote hone,
      quotedBody_append]
  | literal =>
    obtain ⟨hcontrol, hnone, hfeed⟩ := of_form_literal hform
    have hone : ∀ u, cs ++ '\'' :: '\n' :: rest ≠ '\'' :: '\'' :: u := by
      intro u hu
      cases cs with
      | nil => simp at hu
      | cons c cs => exact hnone (List.mem_cons.2 (Or.inl (List.cons.inj hu).1.symm))
    have hopen : ∀ c ∈ cs, isOpen c = true := fun c hc =>
      isOpen_of_not_control (hcontrol c hc) fun he => hfeed (he ▸ hc)
    dsimp only
    rw [List.cons_append, List.append_assoc, List.singleton_append, readText_apostrophe hone,
      literalBody_append hopen hnone]
  | longQuoted =>
    have hstart : dropFirstEnd (firstEnd cs ++ (longQuotedChars 0 cs ++ (longQuote ++ '\n' :: rest))) =
        longQuotedChars 0 cs ++ (longQuote ++ '\n' :: rest) :=
      dropFirstEnd_append newline?_longQuotedChars
    dsimp only
    rw [List.append_assoc, List.append_assoc, List.append_assoc, readText_longQuote, hstart,
      longQuotedBody_append]
  | longLiteral =>
    obtain ⟨hcontrol, hrun⟩ := of_form_longLiteral hform
    have hstart := dropFirstEnd_append (newline?_literal (t := '\n' :: rest) hcontrol)
    dsimp only
    rw [List.append_assoc, List.append_assoc, List.append_assoc, readText_longApostrophe, hstart,
      longLiteralBody_append hcontrol hrun]

end Forms

end NumericSteps.Toml
