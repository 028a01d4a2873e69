import NumericSteps.Proofs.Matrix.Solid

namespace NumericSteps

theorem Scalar.mapM_ofWord_ok (n : Nat) {ws : List (List Char)}
    (h : ∀ w ∈ ws, Numeral.read w ≠ none) :
    ∃ xs, ws.mapM (ofWord n) = .ok xs ∧ xs.map some = ws.map Numeral.read := by
  induction ws with
  | nil => exact ⟨[], rfl, rfl⟩
  | cons w ws ih =>
    rw [List.forall_mem_cons] at h
    obtain ⟨x, hx⟩ := Option.ne_none_iff_exists'.1 h.1
    obtain ⟨xs, hxs, hread⟩ := ih h.2
    have hw : ofWord n w = .ok x := by rw [ofWord, hx]
    refine ⟨x :: xs, ?_, ?_⟩
    · rw [List.mapM_cons, hw, hxs]
      rfl
    · rw [List.map_cons, List.map_cons, hx, hread]

theorem Scalar.mapM_ofWord_error (n : Nat) {good rest : List (List Char)} {w : List Char}
    (hgood : ∀ v ∈ good, Numeral.read v ≠ none) (hw : Numeral.read w = none) :
    (good ++ w :: rest).mapM (ofWord n) = .error (.notANumber n (String.ofList w)) := by
  have hbad : ofWord n w = .error (.notANumber n (String.ofList w)) := by rw [ofWord, hw]
  obtain ⟨xs, hxs, -⟩ := mapM_ofWord_ok n hgood
  rw [List.mapM_append, hxs, List.mapM_cons, hbad]
  rfl

namespace Matrix

open Text

variable {before ls : List Bytes} {line : Bytes} {f : Failure} {m : Matrix Float}
  {rows : List (List Float)}

section Lines

/-- The words of a line; bytes that are no text have none. -/
def lineWords (line : Bytes) : List (List Char) := ((decode line).map words).getD []

/-- Lines of text on which every word is a number, with equally many words on all that hold any. -/
structure Grammar (ls : List Bytes) : Prop where
  text : ∀ l ∈ ls, decode l ≠ none
  numbers : ∀ l ∈ ls, ∀ w ∈ lineWords l, Numeral.read w ≠ none
  widths : ∀ l ∈ ls, ∀ r ∈ ls, lineWords l ≠ [] → lineWords r ≠ [] →
    (lineWords l).length = (lineWords r).length

/-- The matrix has a row for each line with words on it, and at the place of a word its number. -/
structure Shows (ls : List Bytes) (m : Matrix Float) : Prop where
  wellFormed : m.WellFormed
  rows : m.rowList.map (·.map some) =
    ((ls.map lineWords).filter (· ≠ [])).map (·.map Numeral.read)
  none : (∀ l ∈ ls, lineWords l = []) → m = ⟨0, 0, []⟩

/-- The number of words on the first line that holds any. -/
def firstWidth (ls : List Bytes) : Option Nat :=
  (ls.map fun l => (lineWords l).length).find? (0 < ·)

/-- What a line is refused with after the lines before it. -/
inductive Offence (before : List Bytes) (line : Bytes) : Failure → Prop
  | notText : decode line = none → Offence before line (.stream .notText)
  | notANumber {good rest : List (List Char)} {w : List Char} : decode line ≠ none →
      lineWords line = good ++ w :: rest → (∀ v ∈ good, Numeral.read v ≠ none) →
      Numeral.read w = none → Offence before line (.notANumber (before.length + 1) (String.ofList w))
  | ragged {width : Nat} : decode line ≠ none → (∀ w ∈ lineWords line, Numeral.read w ≠ none) →
      lineWords line ≠ [] → firstWidth before = some width → (lineWords line).length ≠ width →
      Offence before line (.raggedRow (before.length + 1) width (lineWords line).length)

/-- No line offends after those before it. -/
def Clean (ls : List Bytes) : Prop :=
  ∀ before line after, ls = before ++ line :: after → ∀ f, ¬ Offence before line f

/-- What the first line that offends is refused with. -/
def FirstOffence (ls : List Bytes) (f : Failure) : Prop :=
  ∃ before line after, ls = before ++ line :: after ∧ Clean before ∧ Offence before line f

theorem firstWidth_append (xs ys : List Bytes) :
    firstWidth (xs ++ ys) = (firstWidth xs).or (firstWidth ys) := by
  rw [firstWidth, List.map_append, List.find?_append]
  rfl

theorem firstWidth_singleton (h : lineWords line ≠ []) :
    firstWidth [line] = some (lineWords line).length := by
  simp [firstWidth, List.length_pos_iff.2 h]

theorem firstWidth_singleton_nil (h : lineWords line = []) : firstWidth [line] = none := by
  simp [firstWidth, h]

theorem exists_of_firstWidth {width : Nat} (h : firstWidth ls = some width) :
    ∃ l ∈ ls, lineWords l ≠ [] ∧ (lineWords l).length = width := by
  obtain ⟨l, hl, rfl⟩ := List.mem_map.1 (List.mem_of_find?_eq_some h)
  have hpos : 0 < (lineWords l).length := by simpa using List.find?_some h
  exact ⟨l, hl, List.length_pos_iff.1 hpos, rfl⟩

theorem text_of_not_offence (h : ∀ f, ¬ Offence before line f) : decode line ≠ none :=
  fun hd => h _ (.notText hd)

theorem numbers_of_not_offence (h : ∀ f, ¬ Offence before line f) :
    ∀ w ∈ lineWords line, Numeral.read w ≠ none := by
  by_contra hn
  obtain ⟨good, w, rest, hsplit, hgood, hw⟩ := exists_first_not hn
  exact h _ (.notANumber (text_of_not_offence h) hsplit hgood (not_not.1 hw))

theorem width_of_not_offence (h : ∀ f, ¬ Offence before line f) (hne : lineWords line ≠ []) :
    (firstWidth before).getD (lineWords line).length = (lineWords line).length := by
  cases hw : firstWidth before with
  | none => rfl
  | some width =>
    by_contra hl
    exact h _ (.ragged (text_of_not_offence h) (numbers_of_not_offence h) hne hw (Ne.symm hl))

theorem firstWidth_of_not_offence (h : ∀ f, ¬ Offence before line f) (hne : lineWords line ≠ []) :
    firstWidth (before ++ [line]) = some (lineWords line).length := by
  have hwidth := width_of_not_offence h hne
  rw [firstWidth_append, firstWidth_singleton hne]
  cases hw : firstWidth before with
  | none => rfl
  | some width =>
    rw [hw] at hwidth
    exact congrArg some hwidth

theorem Clean.firstWidth_eq (h : Clean ls) (hl : line ∈ ls) (hne : lineWords line ≠ []) :
    firstWidth ls = some (lineWords line).length := by
  obtain ⟨before, after, rfl⟩ := List.append_of_mem hl
  have hwidth := firstWidth_of_not_offence (h before line after rfl) hne
  rw [List.append_cons, firstWidth_append, hwidth]
  rfl

theorem clean_iff_grammar : Clean ls ↔ Grammar ls := by
  constructor
  · intro h
    have honest : ∀ l ∈ ls, ∃ before, ∀ f, ¬ Offence before l f := by
      intro l hl
      obtain ⟨before, after, hsplit⟩ := List.append_of_mem hl
      exact ⟨before, h before l after hsplit⟩
    refine ⟨fun l hl => ?_, fun l hl => ?_, fun l hl r hr hln hrn => ?_⟩
    · obtain ⟨before, hb⟩ := honest l hl
      exact text_of_not_offence hb
    · obtain ⟨before, hb⟩ := honest l hl
      exact numbers_of_not_offence hb
    · have hsame := (h.firstWidth_eq hl hln).symm.trans (h.firstWidth_eq hr hrn)
      exact Option.some.inj hsame
  · rintro h before line after rfl f hf
    have hline : line ∈ before ++ line :: after := by simp
    cases hf with
    | notText hd => exact h.text line hline hd
    | notANumber _ hsplit _ hw => exact h.numbers line hline _ (by simp [hsplit]) hw
    | ragged _ _ hne hwidth hl =>
      obtain ⟨r, hr, hrn, rfl⟩ := exists_of_firstWidth hwidth
      exact hl (h.widths line hline r (List.mem_append_left _ hr) hne hrn)

theorem clean_concat : Clean (ls ++ [line]) ↔ Clean ls ∧ ∀ f, ¬ Offence ls line f := by
  constructor
  · intro h
    refine ⟨?_, h ls line [] rfl⟩
    rintro before l after rfl
    exact h before l (after ++ [line]) (by simp)
  · intro ⟨hclean, hline⟩ before l after hsplit
    rcases List.eq_nil_or_concat after with rfl | ⟨after, last, rfl⟩
    · obtain ⟨rfl, rfl⟩ : ls = before ∧ line = l := by simpa using hsplit
      exact hline
    · have hends : ls ++ [line] = (before ++ l :: after) ++ [last] := by simpa using hsplit
      exact hclean before l after (List.append_inj' hends rfl).1

/-- Lines are clean, or there is a first offence among them. -/
theorem clean_or_firstOffence (ls : List Bytes) : Clean ls ∨ ∃ f, FirstOffence ls f := by
  induction ls using List.reverseRecOn with
  | nil => exact Or.inl fun before line after h => by simp at h
  | append_singleton ls line ih =>
    rcases ih with hclean | ⟨f, before, l, after, rfl, hrest⟩
    · by_cases hline : ∃ f, Offence ls line f
      · obtain ⟨f, hf⟩ := hline
        exact Or.inr ⟨f, ls, line, [], rfl, hclean, hf⟩
      · exact Or.inl (clean_concat.2 ⟨hclean, not_exists.1 hline⟩)
    · exact Or.inr ⟨f, before, l, after ++ [line], by simp, hrest⟩

end Lines

section Reading

theorem lineValues_of_text (n : Nat) (h : decode line ≠ none) :
    lineValues n line = (lineWords line).mapM (Scalar.ofWord n) := by
  obtain ⟨cs, hcs⟩ := Option.ne_none_iff_exists'.1 h
  rw [lineValues, lineWords, hcs]
  rfl

/-- A line that offends stops the reader. -/
theorem readRows_offence (h : Offence before line f) (after : List Bytes) :
    readRows (firstWidth before) (before.length + 1) (line :: after) = .error f := by
  cases h with
  | notText hd => rw [readRows, lineValues, hd]
  | notANumber hd hsplit hgood hw =>
    rw [readRows, lineValues_of_text _ hd, hsplit, Scalar.mapM_ofWord_error _ hgood hw]
  | ragged hd hnum hne hwidth hl =>
    obtain ⟨xs, hxs, hread⟩ := Scalar.mapM_ofWord_ok (before.length + 1) hnum
    have hlen : xs.length = (lineWords line).length := by simpa using congrArg List.length hread
    rw [← hlen] at hl ⊢
    rw [readRows, lineValues_of_text _ hd, hxs, hwidth]
    cases xs with
    | nil => exact absurd hlen.symm (mt List.length_eq_zero_iff.1 hne)
    | cons x xs => exact if_neg hl

/-- A line that does not offend gives a row, or none if it is blank, and the reader goes on. -/
theorem readRows_cons (h : ∀ f, ¬ Offence before line f) :
    ∃ row : List Float, row.map some = (lineWords line).map Numeral.read ∧
      ∀ after, readRows (firstWidth before) (before.length + 1) (line :: after) =
        (readRows (firstWidth (before ++ [line])) ((before ++ [line]).length + 1) after).map
          ([row].filter (· ≠ []) ++ ·) := by
  obtain ⟨row, hrow, hread⟩ :=
    Scalar.mapM_ofWord_ok (before.length + 1) (numbers_of_not_offence h)
  have hlen : row.length = (lineWords line).length := by simpa using congrArg List.length hread
  refine ⟨row, hread, fun after => ?_⟩
  rw [readRows, lineValues_of_text _ (text_of_not_offence h), hrow, List.length_append]
  cases row with
  | nil =>
    have hblank : lineWords line = [] := List.length_eq_zero_iff.1 hlen.symm
    rw [firstWidth_append, firstWidth_singleton_nil hblank, Option.or_none]
    cases readRows (firstWidth before) (before.length + 1 + 1) after <;> rfl
  | cons x xs =>
    have hne : lineWords line ≠ [] := fun he => by simp [he] at hlen
    rw [firstWidth_of_not_offence h hne, ← hlen]
    have hwidth := width_of_not_offence h hne
    rw [← hlen] at hwidth
    dsimp only
    rw [hwidth, if_pos rfl]
    rfl

/-- Clean lines give a row for each that is not blank. -/
theorem readRows_clean (before : List Bytes) (h : Clean (before ++ ls)) :
    ∃ rows, readRows (firstWidth before) (before.length + 1) ls = .ok rows ∧
      rows.map (·.map some) = ((ls.map lineWords).filter (· ≠ [])).map (·.map Numeral.read) := by
  induction ls generalizing before with
  | nil => exact ⟨[], rfl, rfl⟩
  | cons line ls ih =>
    obtain ⟨row, hrow, hgo⟩ := readRows_cons (h before line ls rfl)
    rw [List.append_cons] at h
    obtain ⟨rows, hrows, hread⟩ := ih _ h
    refine ⟨[row].filter (· ≠ []) ++ rows, ?_, ?_⟩
    · rw [hgo, hrows]
      rfl
    · have hblank : row = [] ↔ lineWords line = [] := by
        rw [← List.map_eq_nil_iff (f := some), hrow, List.map_eq_nil_iff]
      rw [List.map_append, hread]
      by_cases hr : row = []
      · simp [hr, hblank.1 hr]
      · simp [hr, mt hblank.2 hr, hrow]

theorem readRows_firstOffence (before : List Bytes) {front after : List Bytes}
    (hclean : Clean (before ++ front)) (h : Offence (before ++ front) line f) :
    readRows (firstWidth before) (before.length + 1) (front ++ line :: after) = .error f := by
  induction front generalizing before with
  | nil =>
    rw [List.append_nil] at h
    exact readRows_offence h after
  | cons l front ih =>
    obtain ⟨row, -, hgo⟩ := readRows_cons (hclean before l front rfl)
    rw [List.append_cons] at hclean h
    rw [List.cons_append, hgo, ih _ hclean h]
    rfl

theorem readRows_error_iff : readRows none 1 ls = .error f ↔ FirstOffence ls f := by
  have herror : ∀ g, FirstOffence ls g → readRows none 1 ls = .error g := by
    rintro g ⟨before, line, after, rfl, hclean, hoffence⟩
    exact readRows_firstOffence [] hclean hoffence
  constructor
  · intro h
    rcases clean_or_firstOffence ls with hclean | ⟨g, hg⟩
    · obtain ⟨rows, hrows, -⟩ := readRows_clean [] hclean
      have hok : readRows none 1 ls = .ok rows := hrows
      rw [hok] at h
      cases h
    · have he : g = f := by simpa [h] using (herror g hg).symm
      exact he ▸ hg
  · exact herror f

theorem readRows_ok (h : readRows none 1 ls = .ok rows) : Grammar ls ∧
    rows.map (·.map some) = ((ls.map lineWords).filter (· ≠ [])).map (·.map Numeral.read) := by
  rcases clean_or_firstOffence ls with hclean | ⟨g, hg⟩
  · obtain ⟨rows', hrows, hread⟩ := readRows_clean [] hclean
    have hok : readRows none 1 ls = .ok rows' := hrows
    have he : rows' = rows := by simpa [h] using hok.symm
    exact ⟨clean_iff_grammar.1 hclean, he ▸ hread⟩
  · rw [readRows_error_iff.2 hg] at h
    cases h

/-- The rows that are read have one length, so no row is refused behind the reader. -/
theorem ofRows_of_readRows (h : readRows none 1 ls = .ok rows) :
    ∃ m, ofRows rows = .ok m ∧ Shows ls m := by
  obtain ⟨hgrammar, hread⟩ := readRows_ok h
  have hline : ∀ r ∈ rows, ∃ l ∈ ls, lineWords l ≠ [] ∧ (lineWords l).length = r.length := by
    intro r hr
    have hmem : r.map some ∈ ((ls.map lineWords).filter (· ≠ [])).map (·.map Numeral.read) :=
      hread ▸ List.mem_map_of_mem hr
    obtain ⟨ws, hws, he⟩ := List.mem_map.1 hmem
    obtain ⟨hws, hne⟩ := List.mem_filter.1 hws
    obtain ⟨l, hl, rfl⟩ := List.mem_map.1 hws
    exact ⟨l, hl, by simpa using hne, by simpa using congrArg List.length he⟩
  have hrect : ∀ r ∈ rows, ∀ t ∈ rows, r.length = t.length := by
    intro r hr t ht
    obtain ⟨l, hl, hln, hlr⟩ := hline r hr
    obtain ⟨l', hl', hln', hlt⟩ := hline t ht
    rw [← hlr, ← hlt]
    exact hgrammar.widths l hl l' hl' hln hln'
  obtain ⟨m, hm, hrows, hempty⟩ := ofRows_rectangular hrect
  refine ⟨m, hm, wellFormed_of_ofRows hm, by rw [hrows, hread], fun hblank => hempty ?_⟩
  have hnone : (ls.map lineWords).filter (· ≠ []) = [] := by
    simpa [List.filter_eq_nil_iff] using hblank
  rw [hnone] at hread
  exact List.map_eq_nil_iff.1 hread

theorem exists_readRows_iff : (∃ rows, readRows none 1 ls = .ok rows) ↔ Grammar ls := by
  constructor
  · rintro ⟨rows, h⟩
    exact (readRows_ok h).1
  · intro h
    obtain ⟨rows, hrows, -⟩ := readRows_clean [] (clean_iff_grammar.2 h)
    exact ⟨rows, hrows⟩

/-- What the reader makes of its lines: nothing fails behind them. -/
theorem ofBytes_of_readRows (bytes : Bytes) :
    (∃ m, ofBytes bytes = .ok m ∧ Shows (lines carriageReturn lineFeed bytes) m ∧
      ∃ rows, readRows none 1 (lines carriageReturn lineFeed bytes) = .ok rows) ∨
    ∃ f, ofBytes bytes = .error f ∧ readRows none 1 (lines carriageReturn lineFeed bytes) = .error f := by
  cases hread : readRows none 1 (lines carriageReturn lineFeed bytes) with
  | ok rows =>
    obtain ⟨m, hm, hshows⟩ := ofRows_of_readRows hread
    refine Or.inl ⟨m, ?_, hshows, rows, rfl⟩
    rw [ofBytes, hread]
    exact hm
  | error f =>
    refine Or.inr ⟨f, ?_, rfl⟩
    rw [ofBytes, hread]
    rfl

theorem exists_ofBytes_iff (bytes : Bytes) :
    (∃ m, ofBytes bytes = .ok m) ↔ Grammar (lines carriageReturn lineFeed bytes) := by
  rw [← exists_readRows_iff]
  rcases ofBytes_of_readRows bytes with ⟨m, hm, -, hrows⟩ | ⟨f, hf, hread⟩
  · exact ⟨fun _ => hrows, fun _ => ⟨m, hm⟩⟩
  · simp [hf, hread]

theorem shows_of_ofBytes {bytes : Bytes} (h : ofBytes bytes = .ok m) :
    Shows (lines carriageReturn lineFeed bytes) m := by
  rcases ofBytes_of_readRows bytes with ⟨m', hm', hshows, -⟩ | ⟨f, hf, -⟩
  · rw [h] at hm'
    obtain rfl : m = m' := Except.ok.inj hm'
    exact hshows
  · rw [h] at hf
    cases hf

/-- A line that is not blank is a row. -/
theorem Shows.mem_rows (h : Shows ls m) (hline : line ∈ ls) (hne : lineWords line ≠ []) :
    ∃ row ∈ m.rowList, row.map some = (lineWords line).map Numeral.read := by
  refine List.mem_map.1 ?_
  rw [h.rows]
  exact List.mem_map_of_mem (List.mem_filter.2 ⟨List.mem_map_of_mem hline, by simpa using hne⟩)

/-- A word on a line is an element of what is read. -/
theorem mem_data_of_word {bytes : Bytes} {word : List Char} {x : Float} (h : ofBytes bytes = .ok m)
    (hline : line ∈ lines carriageReturn lineFeed bytes) (hword : word ∈ lineWords line)
    (hx : Numeral.read word = some x) : x ∈ m.data := by
  have hshows := shows_of_ofBytes h
  obtain ⟨row, hmem, hvalues⟩ := hshows.mem_rows hline (List.ne_nil_of_mem hword)
  have hvalue : some x ∈ row.map some := by
    rw [hvalues, ← hx]
    exact List.mem_map_of_mem hword
  have hmember : x ∈ row := by simpa using hvalue
  rw [← flatten_cutRows hshows.wellFormed]
  exact List.mem_flatten.2 ⟨row, hmem, hmember⟩

theorem ofBytes_error_iff (bytes : Bytes) (f : Failure) :
    ofBytes bytes = .error f ↔ FirstOffence (lines carriageReturn lineFeed bytes) f := by
  rw [← readRows_error_iff]
  rcases ofBytes_of_readRows bytes with ⟨m, hm, -, rows, hrows⟩ | ⟨g, hg, hread⟩
  · simp [hm, hrows]
  · simp [hg, hread]

/-- The reader accepts exactly the grammar, with a row for each line that is not blank, and tells the
first offence of any other text. -/
theorem ofBytes_by_grammar (bytes : Bytes) :
    ∃ ls, Lined carriageReturn lineFeed bytes ls ∧
      ((∃ m, ofBytes bytes = .ok m) ↔ Grammar ls) ∧
      (∀ m, ofBytes bytes = .ok m → Shows ls m) ∧
      (∀ f, ofBytes bytes = .error f ↔ FirstOffence ls f) ∧
      ∀ rows, readRows none 1 ls = .ok rows → ∃ m, ofRows rows = .ok m := by
  refine ⟨lines carriageReturn lineFeed bytes, lined_iff.2 rfl, exists_ofBytes_iff bytes,
    fun m h => shows_of_ofBytes h, ofBytes_error_iff bytes, ?_⟩
  intro rows h
  obtain ⟨m, hm, -⟩ := ofRows_of_readRows h
  exact ⟨m, hm⟩

/-- The blank line counts, and the word that is no number comes before the third value too many. -/
theorem ofBytes_by_grammar_third_line :
    ∃ ls, Lined carriageReturn lineFeed (encode "1 2\n\n3 x 4\n5\n".toList) ls ∧
      ¬ Grammar ls ∧ FirstOffence ls (.notANumber 3 "x") := by
  have hres : ofBytes (encode "1 2\n\n3 x 4\n5\n".toList) = .error (.notANumber 3 "x") := by
    decide +kernel
  obtain ⟨ls, hlined, haccepts, -, hrefuses, -⟩ :=
    ofBytes_by_grammar (encode "1 2\n\n3 x 4\n5\n".toList)
  refine ⟨ls, hlined, fun hgrammar => ?_, (hrefuses _).1 hres⟩
  obtain ⟨m, hm⟩ := haccepts.2 hgrammar
  rw [hres] at hm
  cases hm

end Reading

end Matrix

end NumericSteps
