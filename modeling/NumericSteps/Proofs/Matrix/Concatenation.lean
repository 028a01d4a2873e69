import NumericSteps.Proofs.Matrix.Grammar

namespace NumericSteps.Matrix

open Text

variable {α : Type} {ls xs ys : List Bytes} {a b m : Matrix Float}

section Lines

theorem firstWidth_eq_none_iff : firstWidth ls = none ↔ ∀ l ∈ ls, lineWords l = [] := by
  simp [firstWidth, List.find?_eq_none]

theorem Grammar.mono (h : Grammar ls) (hsub : ∀ l ∈ xs, l ∈ ls) : Grammar xs where
  text l hl := h.text l (hsub l hl)
  numbers l hl := h.numbers l (hsub l hl)
  widths l hl r hr := h.widths l (hsub l hl) r (hsub r hr)

/-- What is behind lines of the grammar has to be of the grammar itself, and as wide. -/
theorem grammar_append : Grammar (xs ++ ys) ↔
    Grammar xs ∧ Grammar ys ∧ ∀ v ∈ firstWidth xs, ∀ w ∈ firstWidth ys, v = w := by
  constructor
  · intro h
    have hxs : Grammar xs := h.mono fun l hl => List.mem_append_left _ hl
    have hys : Grammar ys := h.mono fun l hl => List.mem_append_right _ hl
    refine ⟨hxs, hys, fun v hv w hw => ?_⟩
    obtain ⟨l, hl, hln, rfl⟩ := exists_of_firstWidth hv
    obtain ⟨r, hr, hrn, rfl⟩ := exists_of_firstWidth hw
    exact h.widths l (List.mem_append_left _ hl) r (List.mem_append_right _ hr) hln hrn
  · rintro ⟨hxs, hys, hwidth⟩
    have hcross : ∀ l ∈ xs, ∀ r ∈ ys, lineWords l ≠ [] → lineWords r ≠ [] →
        (lineWords l).length = (lineWords r).length := fun l hl r hr hln hrn =>
      hwidth _ ((clean_iff_grammar.2 hxs).firstWidth_eq hl hln) _
        ((clean_iff_grammar.2 hys).firstWidth_eq hr hrn)
    refine ⟨fun l hl => ?_, fun l hl => ?_, fun l hl r hr hln hrn => ?_⟩
    · rcases List.mem_append.1 hl with hl | hl
      · exact hxs.text l hl
      · exact hys.text l hl
    · rcases List.mem_append.1 hl with hl | hl
      · exact hxs.numbers l hl
      · exact hys.numbers l hl
    · rcases List.mem_append.1 hl with hl | hl <;> rcases List.mem_append.1 hr with hr | hr
      · exact hxs.widths l hl r hr hln hrn
      · exact hcross l hl r hr hln hrn
      · exact (hcross r hr l hl hrn hln).symm
      · exact hys.widths l hl r hr hln hrn

theorem FirstOffence.append {f : Failure} (h : FirstOffence xs f) (ys : List Bytes) :
    FirstOffence (xs ++ ys) f := by
  obtain ⟨before, line, after, rfl, hclean, hoffence⟩ := h
  exact ⟨before, line, after ++ ys, by simp, hclean, hoffence⟩

/-- The number of the first line that is not blank. -/
def firstFilled (ls : List Bytes) : Nat := ls.findIdx (fun l => lineWords l ≠ []) + 1

theorem firstFilled_append {blanks after : List Bytes} {line : Bytes}
    (hblank : ∀ l ∈ blanks, lineWords l = []) (hline : lineWords line ≠ []) :
    firstFilled (blanks ++ line :: after) = blanks.length + 1 := by
  have hskip : blanks.findIdx (fun l => lineWords l ≠ []) = blanks.length :=
    List.findIdx_eq_length.2 fun l hl => by simp [hblank l hl]
  rw [firstFilled, List.findIdx_append, if_neg (by omega), List.findIdx_cons]
  simp [hline]

/-- Lines that are not all blank start with the blank ones in front of the first other. -/
theorem exists_first_filled {width : Nat} (h : firstWidth ls = some width) :
    ∃ blanks line after, ls = blanks ++ line :: after ∧ (∀ l ∈ blanks, lineWords l = []) ∧
      lineWords line ≠ [] ∧ (lineWords line).length = width := by
  obtain ⟨hpos, front, back, hsplit, hfront⟩ := List.find?_eq_some_iff_append.1 h
  obtain ⟨blanks, rest, rfl, rfl, hrest⟩ := List.map_eq_append_iff.1 hsplit
  obtain ⟨line, after, rfl, rfl, rfl⟩ := List.map_eq_cons_iff.1 hrest
  refine ⟨blanks, line, after, rfl, fun l hl => ?_, ?_, rfl⟩
  · simpa using hfront _ (List.mem_map_of_mem hl)
  · have hlength : 0 < (lineWords line).length := by simpa using hpos
    exact List.length_pos_iff.1 hlength

end Lines

section Stacking

/-- The rows of one matrix above those of another, where one of them may have none. -/
def stack (a b : Matrix α) : Matrix α := ⟨a.rows + b.rows, max a.cols b.cols, a.data ++ b.data⟩

/-- The rows of the matrices have one length. -/
def Stackable (a b : Matrix α) : Prop :=
  a.shape = (0, 0) ∨ b.shape = (0, 0) ∨ a.cols = b.cols

instance (a b : Matrix α) : Decidable (Stackable a b) := inferInstanceAs (Decidable (_ ∨ _ ∨ _))

theorem eq_empty_of_shape {m : Matrix α} (h : m.WellFormed) (hs : m.shape = (0, 0)) :
    m = ⟨0, 0, []⟩ := by
  obtain ⟨rows, cols, data⟩ := m
  obtain ⟨rfl, rfl⟩ : rows = 0 ∧ cols = 0 := by simpa [shape] using hs
  have hlength : data.length = 0 := by simpa [WellFormed] using h
  rw [List.length_eq_zero_iff.1 hlength]

/-- Rows of one length, cut from values that lie one behind the other. -/
theorem cutRows_append {width k n : Nat} {us vs : List α} (h : us.length = k * width) :
    cutRows width (k + n) (us ++ vs) = cutRows width k us ++ cutRows width n vs := by
  induction k generalizing us with
  | zero =>
    have hnil : us = [] := by simpa using h
    rw [hnil, Nat.zero_add]
    rfl
  | succ k ih =>
    rw [Nat.succ_mul] at h
    have hfront : width ≤ us.length := by omega
    have hrest : (us.drop width).length = k * width := by
      rw [List.length_drop]
      omega
    rw [Nat.succ_add, cutRows, cutRows, List.take_append_of_le_length hfront,
      List.drop_append_of_le_length hfront, ih hrest, List.cons_append]

theorem rowList_stack {a b : Matrix α} (ha : a.WellFormed) (hb : b.WellFormed)
    (h : Stackable a b) : (a.stack b).rowList = a.rowList ++ b.rowList := by
  rcases h with hempty | hempty | hcols
  · rw [eq_empty_of_shape ha hempty]
    simp [stack, rowList, cutRows]
  · rw [eq_empty_of_shape hb hempty]
    simp [stack, rowList, cutRows]
  · have hwidth : max a.cols b.cols = a.cols := by rw [hcols, Nat.max_self]
    rw [rowList, rowList, rowList, stack, hwidth, ← hcols]
    exact cutRows_append ha

theorem Solid.stack {a b : Matrix α} (ha : a.Solid) (hb : b.Solid) (h : Stackable a b) :
    (a.stack b).Solid := by
  have hwa : a.data.length = a.rows * a.cols := ha.wellFormed
  have hwb : b.data.length = b.rows * b.cols := hb.wellFormed
  have hea := ha.empty
  have heb := hb.empty
  refine ⟨?_, ?_⟩
  · change (a.data ++ b.data).length = (a.rows + b.rows) * max a.cols b.cols
    rw [List.length_append, hwa, hwb, Nat.add_mul]
    rcases h with hempty | hempty | hcols
    · rw [eq_empty_of_shape ha.wellFormed hempty]
      simp
    · rw [eq_empty_of_shape hb.wellFormed hempty]
      simp
    · rw [hcols, Nat.max_self]
  · change a.rows + b.rows = 0 ↔ max a.cols b.cols = 0
    omega

/-- What is written in rows alone is known by them. -/
theorem Solid.eq_of_rowList {a b : Matrix α} (ha : a.Solid) (hb : b.Solid)
    (h : a.rowList = b.rowList) : a = b := by
  have hsame : ofRows b.rowList = .ok a := h ▸ ofRows_rowList ha
  rw [ofRows_rowList hb] at hsame
  exact (Except.ok.inj hsame).symm

end Stacking

section Reading

/-- What has been read from blank lines has neither rows nor columns; otherwise its columns are the
words on the first line that is not blank. -/
theorem firstWidth_cases (h : Shows ls m) :
    firstWidth ls = none ∧ m = ⟨0, 0, []⟩ ∨ firstWidth ls = some m.cols ∧ 0 < m.rows := by
  cases hw : firstWidth ls with
  | none => exact Or.inl ⟨rfl, h.none (firstWidth_eq_none_iff.1 hw)⟩
  | some width =>
    obtain ⟨l, hl, hne, rfl⟩ := exists_of_firstWidth hw
    obtain ⟨row, hrow, hvalues⟩ := h.mem_rows hl hne
    have hlength : row.length = (lineWords l).length := by
      simpa using congrArg List.length hvalues
    have hcols : row.length = m.cols := length_of_mem_cutRows h.wellFormed row hrow
    have hrows : 0 < m.rowList.length := List.length_pos_of_mem hrow
    rw [rowList, length_cutRows] at hrows
    exact Or.inr ⟨by rw [← hlength, hcols], hrows⟩

theorem stackable_iff (ha : Shows xs a) (hb : Shows ys b) :
    Stackable a b ↔ ∀ v ∈ firstWidth xs, ∀ w ∈ firstWidth ys, v = w := by
  rcases firstWidth_cases ha with ⟨hxs, rfl⟩ | ⟨hxs, hrowsa⟩
  · simp [Stackable, shape, hxs]
  · rcases firstWidth_cases hb with ⟨hys, rfl⟩ | ⟨hys, hrowsb⟩
    · simp [Stackable, shape, hys]
    · have hna : a.rows ≠ 0 := by omega
      have hnb : b.rows ≠ 0 := by omega
      simp [Stackable, shape, hxs, hys, hna, hnb]

/-- The rows of the lines behind follow those of the lines in front. -/
theorem rowList_append {c : Matrix Float} (hc : Shows (xs ++ ys) c) (ha : Shows xs a)
    (hb : Shows ys b) : c.rowList = a.rowList ++ b.rowList := by
  have hmap : c.rowList.map (·.map some) = (a.rowList ++ b.rowList).map (·.map some) := by
    rw [hc.rows, List.map_append, List.map_append, ha.rows, hb.rows, List.filter_append,
      List.map_append]
  have hinj : Function.Injective (List.map (some : Float → Option Float)) :=
    List.map_injective_iff.2 (Option.some_injective _)
  exact List.map_injective_iff.2 hinj hmap

/-- The first line behind that is not blank is ragged if it is wider or narrower than those in
front. -/
theorem firstOffence_ragged (hxs : Grammar xs) (hys : Grammar ys) {v w : Nat}
    (hv : firstWidth xs = some v) (hw : firstWidth ys = some w) (hne : v ≠ w) :
    FirstOffence (xs ++ ys) (.raggedRow (xs.length + firstFilled ys) v w) := by
  obtain ⟨blanks, line, after, rfl, hblank, hline, rfl⟩ := exists_first_filled hw
  obtain ⟨hblanks, hrest, -⟩ := grammar_append.1 hys
  have hnone : firstWidth blanks = none := firstWidth_eq_none_iff.2 hblank
  have hfront : Grammar (xs ++ blanks) :=
    grammar_append.2 ⟨hxs, hblanks, fun _ _ k hk => by simp [hnone] at hk⟩
  have hwidth : firstWidth (xs ++ blanks) = some v := by
    rw [firstWidth_append, hv]
    rfl
  have hoffence := Offence.ragged (hrest.text line List.mem_cons_self)
    (hrest.numbers line List.mem_cons_self) hline hwidth hne.symm
  rw [List.length_append, Nat.add_assoc, ← firstFilled_append hblank hline] at hoffence
  exact ⟨xs ++ blanks, line, after, by simp, clean_iff_grammar.2 hfront, hoffence⟩

section Texts

variable {p s : Bytes} (hlines : lines carriageReturn lineFeed (p ++ s) =
  lines carriageReturn lineFeed p ++ lines carriageReturn lineFeed s)

include hlines

/-- A text that is refused is not made good by one in front of it. -/
theorem not_ok_of_error {f : Failure} (hf : ofBytes s = .error f) (c : Matrix Float) :
    ofBytes (p ++ s) ≠ .ok c := by
  intro hc
  have hgrammar := (exists_ofBytes_iff (p ++ s)).1 ⟨c, hc⟩
  rw [hlines] at hgrammar
  obtain ⟨b, hb⟩ := (exists_ofBytes_iff s).2 (grammar_append.1 hgrammar).2.1
  rw [hf] at hb
  cases hb

theorem ofBytes_stack (ha : ofBytes p = .ok a) (hb : ofBytes s = .ok b)
    (h : Stackable a b) : ofBytes (p ++ s) = .ok (a.stack b) := by
  have hshowsa := shows_of_ofBytes ha
  have hshowsb := shows_of_ofBytes hb
  have hgrammar : Grammar (lines carriageReturn lineFeed (p ++ s)) := by
    rw [hlines]
    exact grammar_append.2 ⟨(exists_ofBytes_iff p).1 ⟨a, ha⟩, (exists_ofBytes_iff s).1 ⟨b, hb⟩,
      (stackable_iff hshowsa hshowsb).1 h⟩
  obtain ⟨c, hc⟩ := (exists_ofBytes_iff (p ++ s)).2 hgrammar
  have hshows := shows_of_ofBytes hc
  rw [hlines] at hshows
  have hsolid := (solid_of_ofBytes ha).stack (solid_of_ofBytes hb) h
  have hrows : c.rowList = (a.stack b).rowList := by
    rw [rowList_stack hshowsa.wellFormed hshowsb.wellFormed h,
      rowList_append hshows hshowsa hshowsb]
  rw [hc, (solid_of_ofBytes hc).eq_of_rowList hsolid hrows]

theorem ofBytes_ragged (ha : ofBytes p = .ok a) (hb : ofBytes s = .ok b)
    (h : ¬ Stackable a b) : ofBytes (p ++ s) = .error (.raggedRow
      ((lines carriageReturn lineFeed p).length + firstFilled (lines carriageReturn lineFeed s))
      a.cols b.cols) := by
  rw [ofBytes_error_iff, hlines]
  have hxs := (exists_ofBytes_iff p).1 ⟨a, ha⟩
  have hys := (exists_ofBytes_iff s).1 ⟨b, hb⟩
  have hwide : a.cols ≠ b.cols := fun he => h (Or.inr (Or.inr he))
  rcases firstWidth_cases (shows_of_ofBytes ha) with ⟨-, rfl⟩ | ⟨hv, -⟩
  · exact absurd (Or.inl rfl) h
  · rcases firstWidth_cases (shows_of_ofBytes hb) with ⟨-, rfl⟩ | ⟨hw, -⟩
    · exact absurd (Or.inr (Or.inl rfl)) h
    · exact firstOffence_ragged hxs hys hv hw hwide

end Texts

/-- A text behind one whose last line is ended. An offence in the first text stays what it was, and
one in the second is not made good. Of two matrices the rows follow each other, unless both have rows
and not of one length: then the first row behind is ragged. -/
theorem ofBytes_append {p : Bytes} (h : p = [] ∨ p.getLast? = some lineFeed) (s : Bytes) :
    (∀ f, ofBytes p = .error f → ofBytes (p ++ s) = .error f) ∧
    (∀ a f, ofBytes p = .ok a → ofBytes s = .error f → ∃ g, ofBytes (p ++ s) = .error g) ∧
    ∀ a b, ofBytes p = .ok a → ofBytes s = .ok b →
      (Stackable a b →
        ofBytes (p ++ s) = .ok (a.stack b) ∧ (a.stack b).rowList = a.rowList ++ b.rowList) ∧
      (¬ Stackable a b → ofBytes (p ++ s) = .error (.raggedRow
        ((lines carriageReturn lineFeed p).length + firstFilled (lines carriageReturn lineFeed s))
        a.cols b.cols)) := by
  have hlines : lines carriageReturn lineFeed (p ++ s) =
      lines carriageReturn lineFeed p ++ lines carriageReturn lineFeed s := lines_append h s
  refine ⟨fun f hf => ?_, fun a f ha hf => ?_, fun a b ha hb => ⟨fun hfit => ?_, fun hfit => ?_⟩⟩
  · rw [ofBytes_error_iff, hlines]
    exact ((ofBytes_error_iff p f).1 hf).append _
  · cases hps : ofBytes (p ++ s) with
    | error g => exact ⟨g, rfl⟩
    | ok c => exact absurd hps (not_ok_of_error hlines hf c)
  · exact ⟨ofBytes_stack hlines ha hb hfit,
      rowList_stack (wellFormed_of_ofBytes ha) (wellFormed_of_ofBytes hb) hfit⟩
  · exact ofBytes_ragged hlines ha hb hfit

/-- Blank lines count on both sides: the row behind is on the fourth line, and two values fit there but
not one. -/
theorem ofBytes_append_fourth_line :
    (encode "1 2\n\n".toList).getLast? = some lineFeed ∧
      ofBytes (encode "1 2\n\n".toList) = .ok ⟨1, 2, [1, 2]⟩ ∧
      ofBytes (encode "\n3 4".toList) = .ok ⟨1, 2, [3, 4]⟩ ∧
      ofBytes (encode "\n3".toList) = .ok ⟨1, 1, [3]⟩ ∧
      ofBytes (encode "1 2\n\n".toList ++ encode "\n3 4".toList) = .ok ⟨2, 2, [1, 2, 3, 4]⟩ ∧
      ofBytes (encode "1 2\n\n".toList ++ encode "\n3".toList) = .error (.raggedRow 4 2 1) := by
  have hend : (encode "1 2\n\n".toList).getLast? = some lineFeed := by decide
  have hfront : ofBytes (encode "1 2\n\n".toList) = .ok ⟨1, 2, [1, 2]⟩ := by decide +kernel
  have hpair : ofBytes (encode "\n3 4".toList) = .ok ⟨1, 2, [3, 4]⟩ := by decide +kernel
  have hsingle : ofBytes (encode "\n3".toList) = .ok ⟨1, 1, [3]⟩ := by decide +kernel
  have hstack := ((ofBytes_append (Or.inr hend) _).2.2 _ _ hfront hpair).1 (Or.inr (Or.inr rfl))
  have hragged := ((ofBytes_append (Or.inr hend) _).2.2 _ _ hfront hsingle).2 (by decide)
  have hnumber : (lines carriageReturn lineFeed (encode "1 2\n\n".toList)).length +
      firstFilled (lines carriageReturn lineFeed (encode "\n3".toList)) = 4 := by decide +kernel
  rw [hnumber] at hragged
  exact ⟨hend, hfront, hpair, hsingle, hstack.1, hragged⟩

end Reading

end NumericSteps.Matrix
