import NumericSteps.Proofs.Json.Spelling

namespace NumericSteps.Json

variable {cs rest : List Char} {fuel : Nat} {j : Json}

/-- The text stands for the value wherever it is read, whatever follows it, and can stand on one line. -/
structure Denotes (cs : List Char) (j : Json) : Prop where
  printed : Printed cs
  start : ∃ c tail, cs = c :: tail ∧ isSpace c = false ∧ c ≠ ']'
  value_append : ∀ {fuel : Nat} {rest : List Char}, cs.length ≤ fuel → Stops rest →
    value fuel (cs ++ rest) = some (j, rest)

theorem skip_cons {c : Char} (hc : isSpace c = false) (cs : List Char) : skip (c :: cs) = c :: cs := by
  simp [skip, hc]

/-- A text that is read by its first character spends one unit of fuel there. -/
theorem Denotes.of_cons {c : Char} {tail : List Char} (hprinted : Printed (c :: tail))
    (hspace : isSpace c = false) (hclose : c ≠ ']')
    (hvalue : ∀ {fuel : Nat} {rest : List Char}, tail.length ≤ fuel → Stops rest →
      value (fuel + 1) (c :: (tail ++ rest)) = some (j, rest)) : Denotes (c :: tail) j := by
  refine ⟨hprinted, ⟨c, tail, rfl, hspace, hclose⟩, fun {fuel rest} hfuel hrest => ?_⟩
  rw [List.length_cons] at hfuel
  obtain ⟨fuel, rfl⟩ := Nat.exists_eq_add_one_of_ne_zero (n := fuel) (by omega)
  exact hvalue (by omega) hrest

theorem Denotes.read_eq (h : Denotes cs j) : read cs = some j := by
  have hvalue : value (2 * cs.length + 2) (cs ++ []) = some (j, []) :=
    h.value_append (by omega) stops_nil
  rw [List.append_nil] at hvalue
  simp [read, hvalue, skip]

section Texts

theorem pieces_char {c : Char} (hquote : c ≠ '"') (hslash : c ≠ '\\') (hc : ¬ c.toNat < 0x20)
    (cs : List Char) : pieces (c :: cs) = (pieces cs).map fun p => (.char c :: p.1, p.2) := by
  rw [pieces, if_neg (by simp [hslash, hc]), Option.map_eq_bind]
  · rfl
  · simpa using hquote
  · simp [hslash]
  · simp [hslash]

theorem pieces_escape {c d : Char} (hd : simpleEscape d = some c) (hu : d ≠ 'u') (cs : List Char) :
    pieces ('\\' :: d :: cs) = (pieces cs).map fun p => (.char c :: p.1, p.2) := by
  rw [pieces, hd, Option.map_eq_bind]
  · rfl
  · simp [hu]

theorem hex_padHex {n : Nat} (hn : n < 0x20) :
    ∃ a b c d, padHex n = [a, b, c, d] ∧ hex4 a b c d = some n := by
  interval_cases n <;> exact ⟨_, _, _, _, rfl, rfl⟩

theorem printed_padHex {n : Nat} (hn : n < 0x20) : Printed (padHex n) := by
  interval_cases n <;> simp [Printed, padHex, Nat.toDigits, Nat.toDigitsCore, Nat.digitChar]

theorem pieces_unit {n : Nat} (hn : n < 0x20) (cs : List Char) :
    pieces ('\\' :: 'u' :: (padHex n ++ cs)) = (pieces cs).map fun p => (.unit n :: p.1, p.2) := by
  obtain ⟨a, b, c, d, hpad, hhex⟩ := hex_padHex hn
  simp only [hpad, List.cons_append, List.nil_append, pieces, hhex, Option.map_eq_bind]
  rfl

/-- A control character is no half of a surrogate pair. -/
theorem joinPieces_unit {n : Nat} (hn : n < 0x20) (ps : List Piece) :
    joinPieces (.unit n :: ps) = (joinPieces ps).map (Char.ofNat n :: ·) := by
  have hhigh : isHigh n = false := by simp [isHigh]; omega
  have hlow : isLow n = false := by simp [isLow]; omega
  rcases ps with _ | ⟨_ | m, ps⟩ <;> simp [joinPieces, hhigh, hlow]

/-- Every character is written as one piece. -/
theorem pieces_textChar (c : Char) (cs : List Char) :
    ∃ p, pieces (textChar c ++ cs) = (pieces cs).map (fun q => (p :: q.1, q.2)) ∧
      ∀ ps, joinPieces (p :: ps) = (joinPieces ps).map (c :: ·) := by
  have hescape {d : Char} (hd : simpleEscape d = some c) (hu : d ≠ 'u') :
      ∃ p, pieces ('\\' :: d :: cs) = (pieces cs).map (fun q => (p :: q.1, q.2)) ∧
        ∀ ps, joinPieces (p :: ps) = (joinPieces ps).map (c :: ·) :=
    ⟨.char c, pieces_escape hd hu cs, fun _ => rfl⟩
  unfold textChar
  split_ifs with hquote hslash hn hr ht hb hf hlow
  · exact hescape (d := '"') (by rw [hquote]; rfl) (by decide)
  · exact hescape (d := '\\') (by rw [hslash]; rfl) (by decide)
  · exact hescape (d := 'n') (by rw [hn]; rfl) (by decide)
  · exact hescape (d := 'r') (by rw [hr]; rfl) (by decide)
  · exact hescape (d := 't') (by rw [ht]; rfl) (by decide)
  · exact hescape (d := 'b') (by rw [hb]; rfl) (by decide)
  · exact hescape (d := 'f') (by rw [hf]; rfl) (by decide)
  · refine ⟨.unit c.toNat, pieces_unit hlow cs, fun ps => ?_⟩
    rw [joinPieces_unit hlow, Char.ofNat_toNat]
  · exact ⟨.char c, pieces_char hquote hslash hlow cs, fun _ => rfl⟩

theorem printed_textChar (c : Char) : Printed (textChar c) := by
  have hescape {d : Char} (hd : 0x20 ≤ d.toNat) : Printed ['\\', d] :=
    printed_cons.2 ⟨by decide, printed_cons.2 ⟨hd, printed_nil⟩⟩
  unfold textChar
  split_ifs with hquote hslash hn hr ht hb hf hlow
  iterate 7 exact hescape (by decide)
  · exact printed_cons.2 ⟨by decide, printed_cons.2 ⟨by decide, printed_padHex hlow⟩⟩
  · exact printed_cons.2 ⟨Nat.le_of_not_lt hlow, printed_nil⟩

theorem textBody_append (cs rest : List Char) :
    textBody (cs.flatMap textChar ++ '"' :: rest) = some (some cs, rest) := by
  have hpieces : ∃ ps, pieces (cs.flatMap textChar ++ '"' :: rest) = some (ps, rest) ∧
      joinPieces ps = some cs := by
    induction cs with
    | nil => exact ⟨[], rfl, rfl⟩
    | cons c cs ih =>
      obtain ⟨ps, hps, hjoin⟩ := ih
      obtain ⟨p, hp, hcons⟩ := pieces_textChar c (cs.flatMap textChar ++ '"' :: rest)
      refine ⟨p :: ps, ?_, ?_⟩
      · rw [List.flatMap_cons, List.append_assoc, hp, hps]
        rfl
      · rw [hcons, hjoin]
        rfl
  obtain ⟨ps, hps, hjoin⟩ := hpieces
  simp [textBody, hps, hjoin]

theorem writeText_append (s : String) (rest : List Char) :
    writeText s ++ rest = '"' :: (s.toList.flatMap textChar ++ '"' :: rest) := by
  simp [writeText]

theorem printed_writeText (s : String) : Printed (writeText s) := by
  have hchars : Printed (s.toList.flatMap textChar) := by
    intro d hd
    obtain ⟨c, -, hc⟩ := List.mem_flatMap.1 hd
    exact printed_textChar c d hc
  exact printed_cons.2 ⟨by decide, printed_append.2 ⟨hchars, printed_cons.2 ⟨by decide, printed_nil⟩⟩⟩

theorem denotes_text (s : String) : Denotes (writeText s) (.text (some s.toList)) := by
  refine .of_cons (printed_writeText s) rfl (by decide) fun {fuel rest} _ _ => ?_
  rw [List.append_assoc, value, skip_cons rfl]
  simp [textBody_append]

end Texts

section Plain

theorem denotes_bool (b : Bool) : Denotes (writeBool b) (.bool b) := by
  cases b with
  | false =>
    refine .of_cons (by simp [Printed]) rfl (by decide) fun _ _ => ?_
    simp [value, skip_cons, isSpace, keyword]
  | true =>
    refine .of_cons (by simp [Printed]) rfl (by decide) fun _ _ => ?_
    simp [value, skip_cons, isSpace, keyword]

theorem denotes_null : Denotes ['n', 'u', 'l', 'l'] .null := by
  refine .of_cons (by simp [Printed]) rfl (by decide) fun _ _ => ?_
  simp [value, skip_cons, isSpace, keyword]

/-- What a digit or a minus is not. -/
theorem number_start {c : Char} (hc : c.isDigit = true ∨ c = '-') :
    isSpace c = false ∧ c ∉ ['"', '[', ']', '\x7b', 'n', 't', 'f'] := by
  rcases hc with hc | rfl
  · constructor
    · by_contra hspace
      simp only [isSpace, Bool.not_eq_false, Bool.or_eq_true, beq_iff_eq] at hspace
      rcases hspace with ((rfl | rfl) | rfl) | rfl <;> cases hc
    · simp only [List.mem_cons, List.not_mem_nil, or_false, not_or]
      refine ⟨?_, ?_, ?_, ?_, ?_, ?_, ?_⟩ <;> rintro rfl <;> cases hc
  · decide

/-- What starts like a number and is spelled like one is a number. -/
theorem denotes_spelling (hprinted : Printed cs)
    (hstart : ∃ c tail, cs = c :: tail ∧ (c.isDigit = true ∨ c = '-'))
    (hread : ∀ {rest : List Char}, Stops rest → numberSpelling (cs ++ rest) = some (cs, rest)) :
    Denotes cs (.number cs) := by
  obtain ⟨c, tail, rfl, hc⟩ := hstart
  obtain ⟨hspace, hother⟩ := number_start hc
  simp only [List.mem_cons, List.not_mem_nil, or_false, not_or] at hother
  obtain ⟨hquote, hopen, hclose, hbrace, hn, ht, hf⟩ := hother
  refine .of_cons hprinted hspace hclose fun {fuel rest} _ hrest => ?_
  rw [value, skip_cons hspace]
  split
  · rename_i he
    cases he
  · rename_i he
    exact absurd (List.cons.inj he).1 hquote
  · rename_i he
    exact absurd (List.cons.inj he).1 hopen
  · rename_i he
    cases he
    rw [if_neg hbrace, if_neg hn, if_neg ht, if_neg hf, ← List.cons_append, hread hrest]
    rfl

theorem denotes_nat (n : Nat) : Denotes (writeNat n) (.number (writeNat n)) := by
  have hspelled := spelled_writeNat n
  obtain ⟨c, tail, hcs, hc⟩ := hspelled.head
  exact denotes_spelling hspelled.printed ⟨c, tail, hcs, Or.inl hc⟩
    fun hr => (hspelled.numberSpelling_append hr).1

/-- What the text of a double is read as. -/
def ofFloat (x : Float) : Json := if x.isFinite then .number (writeNumber x) else .null

theorem denotes_number (x : Float) : Denotes (writeNumber x) (ofFloat x) := by
  unfold writeNumber ofFloat
  by_cases hx : x.isFinite = true
  · have hcode := (Double.isFinite_iff x).1 hx
    have hspelled := spelled_magnitude hcode
    obtain ⟨c, tail, hcs, hc⟩ := hspelled.head
    have hnan : ¬ x.isNaN = true := by
      rw [Double.isNaN_iff]
      omega
    simp only [writeNumber, hx, if_true]
    rw [Notation.write, if_neg hnan]
    cases Double.isNegative x with
    | false =>
      exact denotes_spelling hspelled.printed ⟨c, tail, hcs, Or.inl hc⟩
        fun hr => (hspelled.numberSpelling_append hr).1
    | true =>
      exact denotes_spelling (printed_cons.2 ⟨by decide, hspelled.printed⟩) ⟨'-', _, rfl, Or.inr rfl⟩
        fun hr => (hspelled.numberSpelling_append hr).2
  · rw [if_neg hx, if_neg hx]
    exact denotes_null

end Plain

section Composed

/-- A key with the text of its value. -/
def memberText (m : String × List Char) : List Char := writeText m.1 ++ ':' :: m.2

theorem writeObject_eq (ms : List (String × List Char)) :
    writeObject ms = '\x7b' :: (commas (ms.map memberText) ++ ['\x7d']) := rfl

/-- The members with these names and values, in order. -/
def keyed (names : List String) (js : List Json) : List (Option (List Char) × Json) :=
  List.zipWith (fun n j => (some n.toList, j)) names js

theorem stops_comma (cs : List Char) : Stops (',' :: cs) := by simp [Stops]

theorem stops_brace (cs : List Char) : Stops ('\x7d' :: cs) := by simp [Stops]

theorem stops_bracket (cs : List Char) : Stops (']' :: cs) := by simp [Stops]

theorem commas_cons_cons (x y : List Char) (xs : List (List Char)) :
    commas (x :: y :: xs) = x ++ ',' :: commas (y :: xs) := by
  rw [commas, List.intercalate_cons_cons, List.append_assoc]
  rfl

theorem commas_singleton (x : List Char) : commas [x] = x := by simp [commas]

/-- What stands between commas starts as its first piece does. -/
theorem commas_cons_start (c : Char) (tail : List Char) (xs : List (List Char)) :
    ∃ more, commas ((c :: tail) :: xs) = c :: more := by
  cases xs with
  | nil => exact ⟨tail, commas_singleton _⟩
  | cons y ys => exact ⟨_, by rw [commas_cons_cons]; rfl⟩

theorem printed_commas {xs : List (List Char)} (h : ∀ x ∈ xs, Printed x) : Printed (commas xs) := by
  induction xs with
  | nil => exact printed_nil
  | cons x xs ih =>
    obtain ⟨hx, hrest⟩ := List.forall_mem_cons.1 h
    cases xs with
    | nil => rwa [commas_singleton]
    | cons y ys =>
      rw [commas_cons_cons]
      exact printed_append.2 ⟨hx, printed_cons.2 ⟨by decide, ih hrest⟩⟩

theorem items_comma {x : List Char} (h : Denotes x j) (hf : x.length ≤ fuel) (more : List Char) :
    items (fuel + 1) (x ++ ',' :: more) = (items fuel more).map fun p => (j :: p.1, p.2) := by
  rw [items, h.value_append hf (stops_comma more)]
  simp [skip_cons, isSpace]

theorem items_bracket {x : List Char} (h : Denotes x j) (hf : x.length ≤ fuel) (rest : List Char) :
    items (fuel + 1) (x ++ ']' :: rest) = some ([j], rest) := by
  rw [items, h.value_append hf (stops_bracket rest)]
  simp [skip_cons, isSpace]

theorem items_append {x : List Char} {xs : List (List Char)} {js : List Json}
    (h : List.Forall₂ Denotes (x :: xs) js) (hf : (commas (x :: xs)).length < fuel) :
    items fuel (commas (x :: xs) ++ ']' :: rest) = some (js, rest) := by
  induction xs generalizing x js fuel with
  | nil =>
    obtain ⟨j, js, hx, hnil, rfl⟩ := List.forall₂_cons_left_iff.1 h
    rw [List.forall₂_nil_left_iff.1 hnil]
    obtain ⟨fuel, rfl⟩ := Nat.exists_eq_add_one_of_ne_zero (n := fuel) (by omega)
    rw [commas_singleton] at hf ⊢
    exact items_bracket hx (by omega) rest
  | cons y ys ih =>
    obtain ⟨j, js, hx, hrest, rfl⟩ := List.forall₂_cons_left_iff.1 h
    obtain ⟨fuel, rfl⟩ := Nat.exists_eq_add_one_of_ne_zero (n := fuel) (by omega)
    rw [commas_cons_cons] at hf ⊢
    rw [List.length_append, List.length_cons] at hf
    have hmore : items fuel (commas (y :: ys) ++ ']' :: rest) = some (js, rest) :=
      ih hrest (by omega)
    rw [List.append_assoc, List.cons_append, items_comma hx (by omega), hmore]
    rfl

theorem denotes_array {xs : List (List Char)} {js : List Json} (h : List.Forall₂ Denotes xs js) :
    Denotes (writeArray xs) (.array js) := by
  have hprinted : Printed (commas xs) :=
    printed_commas ((List.forall₂_and_left _ _).1 (h.imp fun _ _ hj => ⟨hj.printed, hj⟩)).1
  refine .of_cons (printed_cons.2 ⟨by decide, printed_append.2 ⟨hprinted, by simp [Printed]⟩⟩) rfl
    (by decide) fun {fuel rest} hf _ => ?_
  rw [List.length_append, List.length_singleton] at hf
  rw [List.append_assoc, List.singleton_append, value, skip_cons rfl]
  cases xs with
  | nil =>
    rw [List.forall₂_nil_left_iff.1 h]
    simp [commas, skip_cons, isSpace]
  | cons x xs =>
    obtain ⟨c, more, hc, hspace, hclose⟩ : ∃ c more, commas (x :: xs) = c :: more ∧
        isSpace c = false ∧ c ≠ ']' := by
      obtain ⟨j, js, hx, -, -⟩ := List.forall₂_cons_left_iff.1 h
      obtain ⟨c, tail, rfl, hc⟩ := hx.start
      obtain ⟨more, hmore⟩ := commas_cons_start c tail xs
      exact ⟨c, more, hmore, hc⟩
    have hitems : items fuel (commas (x :: xs) ++ ']' :: rest) = some (js, rest) :=
      items_append h (by omega)
    rw [hc, List.cons_append] at hitems ⊢
    simp only [skip_cons hspace]
    split
    · rename_i he
      exact absurd (List.cons.inj he).1 hclose
    · rw [hitems]
      rfl

theorem members_comma {m : String × List Char} (h : Denotes m.2 j) (hf : m.2.length ≤ fuel)
    (more : List Char) : members (fuel + 1) (memberText m ++ ',' :: more) =
      (members fuel more).map fun p => ((some m.1.toList, j) :: p.1, p.2) := by
  rw [memberText, List.append_assoc, List.cons_append, writeText_append, members, skip_cons rfl]
  simp [textBody_append, skip_cons, isSpace, h.value_append hf (stops_comma more)]

theorem members_brace {m : String × List Char} (h : Denotes m.2 j) (hf : m.2.length ≤ fuel)
    (rest : List Char) : members (fuel + 1) (memberText m ++ '\x7d' :: rest) =
      some ([(some m.1.toList, j)], rest) := by
  rw [memberText, List.append_assoc, List.cons_append, writeText_append, members, skip_cons rfl]
  simp [textBody_append, skip_cons, isSpace, h.value_append hf (stops_brace rest)]

theorem members_append {m : String × List Char} {ms : List (String × List Char)} {js : List Json}
    (h : List.Forall₂ (fun m j => Denotes m.2 j) (m :: ms) js)
    (hf : (commas ((m :: ms).map memberText)).length < fuel) :
    members fuel (commas ((m :: ms).map memberText) ++ '\x7d' :: rest) =
      some (keyed ((m :: ms).map Prod.fst) js, rest) := by
  have hlength (m : String × List Char) : m.2.length < (memberText m).length := by
    simp [memberText]
    omega
  induction ms generalizing m js fuel with
  | nil =>
    obtain ⟨j, js, hm, hnil, rfl⟩ := List.forall₂_cons_left_iff.1 h
    rw [List.forall₂_nil_left_iff.1 hnil]
    obtain ⟨fuel, rfl⟩ := Nat.exists_eq_add_one_of_ne_zero (n := fuel) (by omega)
    rw [List.map_singleton, commas_singleton] at hf ⊢
    have := hlength m
    exact members_brace hm (by omega) rest
  | cons n ms ih =>
    obtain ⟨j, js, hm, hrest, rfl⟩ := List.forall₂_cons_left_iff.1 h
    obtain ⟨fuel, rfl⟩ := Nat.exists_eq_add_one_of_ne_zero (n := fuel) (by omega)
    rw [List.map_cons, List.map_cons, commas_cons_cons] at hf ⊢
    rw [List.length_append, List.length_cons] at hf
    have := hlength m
    have hmore : members fuel (commas (memberText n :: ms.map memberText) ++ '\x7d' :: rest) =
        some (keyed (n.1 :: ms.map Prod.fst) js, rest) :=
      ih hrest (by rw [List.map_cons]; omega)
    rw [List.append_assoc, List.cons_append, members_comma hm (by omega), hmore]
    rfl

theorem denotes_object {ms : List (String × List Char)} {js : List Json}
    (h : List.Forall₂ (fun m j => Denotes m.2 j) ms js) :
    Denotes (writeObject ms) (.object (keyed (ms.map Prod.fst) js)) := by
  have hvalues : ∀ m ∈ ms, Printed m.2 :=
    ((List.forall₂_and_left _ _).1 (h.imp fun _ _ hj => ⟨hj.printed, hj⟩)).1
  have hprinted : Printed (commas (ms.map memberText)) := printed_commas fun x hx => by
    obtain ⟨m, hm, rfl⟩ := List.mem_map.1 hx
    exact printed_append.2 ⟨printed_writeText m.1, printed_cons.2 ⟨by decide, hvalues m hm⟩⟩
  rw [writeObject_eq]
  refine .of_cons (printed_cons.2 ⟨by decide, printed_append.2 ⟨hprinted, by simp [Printed]⟩⟩) rfl
    (by decide) fun {fuel rest} hf _ => ?_
  rw [List.length_append, List.length_singleton] at hf
  rw [List.append_assoc, List.singleton_append, value, skip_cons rfl]
  cases ms with
  | nil =>
    rw [List.forall₂_nil_left_iff.1 h]
    simp [commas, skip_cons, isSpace, keyed]
  | cons m ms =>
    obtain ⟨more, hmore⟩ : ∃ more, commas ((m :: ms).map memberText) = '"' :: more :=
      commas_cons_start _ _ _
    have hmembers : members fuel (commas ((m :: ms).map memberText) ++ '\x7d' :: rest) =
        some (keyed ((m :: ms).map Prod.fst) js, rest) :=
      members_append h (by omega)
    rw [hmore, List.cons_append] at hmembers ⊢
    simp [skip_cons (show isSpace '"' = false from rfl), hmembers]

end Composed

section Taken

theorem keyed_cons (n : String) (names : List String) (j : Json) (js : List Json) :
    keyed (n :: names) (j :: js) = (some n.toList, j) :: keyed names js := rfl

theorem named_eq (m n : String) (j : Json) : named n (some m.toList, j) = decide (m = n) := by
  by_cases h : m = n <;> simp [named, h, String.toList_inj]

theorem mem_keyed {names : List String} {js : List Json} {m : Option (List Char) × Json}
    (hm : m ∈ keyed names js) : ∃ n ∈ names, m = (some n.toList, m.2) := by
  induction names generalizing js with
  | nil => cases hm
  | cons n names ih =>
    cases js with
    | nil => cases hm
    | cons j js =>
      rw [keyed_cons, List.mem_cons] at hm
      rcases hm with rfl | hm
      · exact ⟨n, List.mem_cons_self, rfl⟩
      · obtain ⟨k, hk, he⟩ := ih hm
        exact ⟨k, List.mem_cons_of_mem _ hk, he⟩

/-- Under a name that stands once there is one value. -/
theorem filter_keyed {names : List String} {js : List Json} (hnames : names.Nodup)
    (hlength : js.length = names.length) :
    names.map (fun n => (keyed names js).filter (named n)) =
      (keyed names js).map fun m => [m] := by
  induction names generalizing js with
  | nil => rfl
  | cons n names ih =>
    obtain ⟨hn, hrest⟩ := List.nodup_cons.1 hnames
    cases js with
    | nil => cases hlength
    | cons j js =>
      have hnone : ∀ m ∈ keyed names js, ¬ named n m = true := by
        intro m hm
        obtain ⟨k, hk, he⟩ := mem_keyed hm
        rw [he, named_eq, decide_eq_true_eq]
        rintro rfl
        exact hn hk
      have hothers : names.map (fun m => (keyed (n :: names) (j :: js)).filter (named m)) =
          names.map fun m => (keyed names js).filter (named m) := by
        refine List.map_congr_left fun m hm => ?_
        have hne : n ≠ m := fun h => hn (h ▸ hm)
        simp [keyed_cons, named_eq, hne]
      rw [List.map_cons, hothers, ih hrest (by simpa using hlength), keyed_cons, List.map_cons,
        List.filter_cons_of_pos (by simp [named_eq]), List.filter_eq_nil_iff.2 hnone]

theorem map_snd_keyed {names : List String} {js : List Json} (hlength : js.length = names.length) :
    (keyed names js).map Prod.snd = js := by
  induction names generalizing js with
  | nil => rw [List.length_eq_zero_iff.1 hlength]; rfl
  | cons n names ih =>
    cases js with
    | nil => cases hlength
    | cons j js => simp [keyed_cons, ih (by simpa using hlength)]

/-- The fields of an object with every name once are its values. -/
theorem record_object {names : List String} {js : List Json} (hnames : names.Nodup)
    (hlength : js.length = names.length) :
    record names (.object (keyed names js)) = some (js.map some) := by
  have hfilter := filter_keyed hnames hlength
  have hkeys : ∀ m ∈ keyed names js, m.1.isSome = true := by
    intro m hm
    obtain ⟨n, -, he⟩ := mem_keyed hm
    rw [he]
    rfl
  have honce : ∀ n ∈ names, ((keyed names js).filter (named n)).length ≤ 1 := by
    intro n hn
    have hmem := hfilter ▸ List.mem_map_of_mem (f := fun n => (keyed names js).filter (named n)) hn
    obtain ⟨m, -, he⟩ := List.mem_map.1 hmem
    rw [← he]
    rfl
  have hvalues : names.map (fun n => ((keyed names js).find? (named n)).map Prod.snd) =
      js.map some := by
    calc names.map (fun n => ((keyed names js).find? (named n)).map Prod.snd)
        = (names.map fun n => (keyed names js).filter (named n)).map
            fun ms => ms.head?.map Prod.snd := by simp [Function.comp_def, List.head?_filter]
      _ = ((keyed names js).map Prod.snd).map some := by
          rw [hfilter]
          simp [Function.comp_def]
      _ = js.map some := by rw [map_snd_keyed hlength]
  rw [record, if_pos ⟨List.all_eq_true.2 hkeys, List.all_eq_true.2 fun n hn => by
    simpa using honce n hn⟩, hvalues]

/-- Digits fit as long as the number does. -/
theorem takeDigits_of_lt {s : Nat} {ds : List Char} (h : Nat.ofDigitChars 10 ds s < wordLimit) :
    takeDigits s ds = (Nat.ofDigitChars 10 ds s, 0) := by
  have hgrows (s : Nat) (ds : List Char) : s ≤ Nat.ofDigitChars 10 ds s := by
    induction ds generalizing s with
    | nil => exact le_rfl
    | cons d ds ih =>
      rw [Nat.ofDigitChars_cons]
      exact le_trans (by omega) (ih _)
  induction ds generalizing s with
  | nil => rfl
  | cons d ds ih =>
    rw [Nat.ofDigitChars_cons, Nat.mul_comm] at h ⊢
    have hnext := hgrows (s * 10 + (d.toNat - '0'.toNat)) ds
    rw [takeDigits, if_pos (by omega)]
    exact ih h

theorem toNat_writeNat {n : Nat} (hn : n < wordLimit) : toNat (.number (writeNat n)) = some n := by
  obtain ⟨hne, hdigit⟩ := isDigits_toDigits n
  have hsign : (writeNat n).head? ≠ some '-' := by
    intro h
    have := hdigit '-' (List.mem_of_mem_head? h)
    cases this
  have hwhole : wholeDigits (writeNat n) = writeNat n :=
    List.takeWhile_eq_self_iff.2 fun c hc => hdigit c hc
  have hall : isWhole (writeNat n) = true := List.all_eq_true.2 hdigit
  have hvalue : Nat.ofDigitChars 10 (writeNat n) 0 = n := Nat.ofDigitChars_ten_toDigits
  have htake : takeDigits 0 (writeNat n) = (n, 0) := by
    rw [takeDigits_of_lt (by rw [hvalue]; exact hn), hvalue]
  simp [toNat, ofSpelling, hsign, hwhole, hall, htake, integerNumber]

theorem toText_writeText (s : String) : toText (.text (some s.toList)) = some s := by
  simp [toText]

/-- What is read where a double was written. -/
def reread (x : Float) : Option Float := (read (writeNumber x)).bind toFloat

/-- The text of a double reads back as that double. -/
def Exact (x : Float) : Prop := reread x = some x

instance (x : Float) : Decidable (Exact x) := inferInstanceAs (Decidable (_ = _))

theorem toFloat_ofFloat (x : Float) : (ofFloat x).toFloat = reread x := by
  rw [reread, (denotes_number x).read_eq, Option.bind_some]

/-- NaN and the infinities do not read back. -/
theorem reread_of_not_finite {x : Float} (h : x.isFinite = false) : reread x = none := by
  rw [← toFloat_ofFloat, ofFloat, h]
  rfl

theorem Exact.isFinite {x : Float} (h : Exact x) : x.isFinite = true := by
  by_contra hx
  rw [Exact, reread_of_not_finite (by simpa using hx)] at h
  cases h

/-- A double or nothing is read as nothing where no number was written. -/
theorem toOption_ofFloat (x : Float) :
    toOption toFloat (ofFloat x) = if x.isFinite then (reread x).map some else some none := by
  rw [← toFloat_ofFloat, ofFloat]
  cases x.isFinite <;> rfl

end Taken

end NumericSteps.Json
