import NumericSteps.Proofs.Matrix.Built
import NumericSteps.Proofs.Matrix.Grammar

namespace NumericSteps.Matrix

open Text

section Making

variable {α : Type} {rs : List (List α)} {memory width line found : Nat}

/-- In front of the list number `line` all have the length `width`; that one has another, `found`. -/
def FirstRagged (width : Nat) (rs : List (List α)) (line found : Nat) : Prop :=
  ∃ before row after, rs = before ++ row :: after ∧ (∀ r ∈ before, r.length = width) ∧
    row.length ≠ width ∧ line = before.length + 1 ∧ found = row.length

theorem FirstRagged.not_level (h : FirstRagged width rs line found) : ¬ ∀ r ∈ rs, r.length = width := by
  obtain ⟨before, row, after, rfl, -, hrow, -, -⟩ := h
  intro hlevel
  have hmem : row ∈ before ++ row :: after := List.mem_append_right _ List.mem_cons_self
  exact hrow (hlevel row hmem)

/-- Lists of one length in front of another are joined, and only counted when that one is refused. -/
theorem joinRows_ragged {before after : List (List α)} {row : List α}
    (hbefore : ∀ r ∈ before, r.length = width) (hrow : row.length ≠ width) :
    joinRows width line (before ++ row :: after) =
      .error (.raggedRow (line + before.length) width row.length) := by
  induction before generalizing line with
  | nil => exact if_neg hrow
  | cons r before ih =>
    rw [List.forall_mem_cons] at hbefore
    have hline : line + 1 + before.length = line + (r :: before).length := by
      rw [List.length_cons]
      omega
    rw [List.cons_append, joinRows, if_pos hbefore.1, ih hbefore.2, hline]
    rfl

theorem ofRows_of_firstRagged (h : FirstRagged (headLength rs) rs line found) :
    ofRows rs = .error (.raggedRow line (headLength rs) found) := by
  have hjoin : joinRows (headLength rs) 1 rs = .error (.raggedRow line (headLength rs) found) := by
    generalize headLength rs = width at h
    obtain ⟨before, row, after, rfl, hbefore, hrow, rfl, rfl⟩ := h
    rw [joinRows_ragged hbefore hrow, Nat.add_comm]
  rw [ofRows, hjoin]
  rfl

theorem level_or_firstRagged (width : Nat) (rs : List (List α)) :
    (∀ r ∈ rs, r.length = width) ∨ ∃ line found, FirstRagged width rs line found := by
  by_cases h : ∀ r ∈ rs, r.length = width
  · exact Or.inl h
  · obtain ⟨before, row, after, hsplit, hbefore, hrow⟩ := exists_first_not h
    exact Or.inr ⟨_, _, before, row, after, hsplit, hbefore, hrow, rfl, rfl⟩

/-- What is made of lists of one length has them as its rows. -/
theorem rows_of_level (h : ∀ r ∈ rs, r.length = headLength rs) :
    ∃ m, ofRows rs = .ok m ∧ m.shape = (rs.length, headLength rs) ∧ m.WellFormed ∧
      m.rowList? = some rs ∧ (m.Sized → m.rowsAt? = some rs) := by
  have hmade := ofRows_of_level h
  have hfilled := wellFormed_of_ofRows hmade
  have hrows : (⟨rs.length, headLength rs, rs.flatten⟩ : Matrix α).rowList = rs := cutRows_flatten h
  refine ⟨_, hmade, rfl, hfilled, ?_, fun hs => ?_⟩
  · rw [rowList?, if_pos hfilled.backed, hrows]
  · rw [(rowsAt?_eq hfilled hs).1, hrows]

/-- Where there is room, lists make a matrix exactly if all have the length of the first, and hand it out
again as its rows. Otherwise the first list of another length is told. -/
theorem ofRows_by_lengths (rs : List (List α)) :
    ((∃ m, ofRows rs = .ok m) ↔ ∀ r ∈ rs, r.length = headLength rs) ∧
    (∀ m, ofRows rs = .ok m → m.shape = (rs.length, headLength rs) ∧ (rs = [] → m.shape = (0, 0)) ∧
      m.rowList? = some rs ∧ (m.Sized → m.rowsAt? = some rs)) ∧
    ∀ f, ofRows rs = .error f ↔
      ∃ line found, FirstRagged (headLength rs) rs line found ∧ f = .raggedRow line (headLength rs) found := by
  rcases level_or_firstRagged (headLength rs) rs with hlevel | ⟨line, found, hragged⟩
  · obtain ⟨m, hm, hshape, -, hrows, hrowsAt⟩ := rows_of_level hlevel
    refine ⟨iff_of_true ⟨m, hm⟩ hlevel, ?_, fun f => iff_of_false ?_ ?_⟩
    · intro m' hm'
      obtain rfl : m = m' := Except.ok.inj (hm.symm.trans hm')
      refine ⟨hshape, ?_, hrows, hrowsAt⟩
      rintro rfl
      exact hshape
    · rw [hm]
      exact nofun
    · rintro ⟨line, found, hragged, -⟩
      exact hragged.not_level hlevel
  · have herror := ofRows_of_firstRagged hragged
    refine ⟨iff_of_false ?_ hragged.not_level, ?_, fun f => ⟨?_, ?_⟩⟩
    · rw [herror]
      exact nofun
    · rw [herror]
      exact nofun
    · intro hf
      exact ⟨line, found, hragged, Except.error.inj (hf.symm.trans herror)⟩
    · rintro ⟨line', found', hragged', rfl⟩
      exact ofRows_of_firstRagged hragged'

/-- The buffer that is asked for can be had: as many rows as there are, all of the length of the first. -/
def Room (memory : Nat) (rs : List (List α)) : Prop :=
  rs.length * headLength rs * 8 ≤ min memory (2 ^ 63 - 1)

instance (memory : Nat) (rs : List (List α)) : Decidable (Room memory rs) :=
  inferInstanceAs (Decidable (_ ≤ _))

/-- The bytes decide long before the number of values does. -/
theorem ofRows?_of_room (h : Room memory rs) : ofRows? memory rs = some (ofRows rs) := by
  obtain ⟨hmemory, hbytes⟩ := Nat.le_min.1 h
  have hcount : rs.length * headLength rs < Size.limit := by
    have hlimit : Size.limit = 2 ^ 64 := rfl
    omega
  rw [ofRows?, Size.mul?_of_lt hcount]
  exact if_pos ⟨Size.fits_iff.2 hbytes, hmemory⟩

theorem ofRows?_of_no_room (h : ¬ Room memory rs) : ofRows? memory rs = none := by
  rw [ofRows?, Option.bind_eq_bind, Option.bind_eq_none_iff]
  intro count hcount
  obtain ⟨rfl, -⟩ := Size.mul?_eq_some.1 hcount
  refine if_neg fun hfits => h (Nat.le_min.2 ⟨hfits.2, Size.fits_iff.1 hfits.1⟩)

/-- Lists of one length ask for as many bytes as their values take already. -/
theorem room_of_level (h : ∀ r ∈ rs, r.length = headLength rs) :
    Room memory rs ↔ rs.flatten.length * 8 ≤ min memory (2 ^ 63 - 1) := by
  have hcount : rs.flatten.length = rs.length * headLength rs :=
    wellFormed_of_ofRows (ofRows_of_level h)
  rw [Room, hcount]

/-- What is promised of lists: they make a matrix exactly if all have the length of the first. It has that
many columns, no rows and no columns if there is no list, and hands the lists out again as its rows.
Otherwise the first list of another length is told, by its number and the two lengths. -/
structure ListsPromised (memory : Nat) (rs : List (List α)) : Prop where
  made_iff : (∃ m, ofRows? memory rs = some (.ok m)) ↔ ∀ r ∈ rs, r.length = headLength rs
  made : ∀ m, ofRows? memory rs = some (.ok m) → m.shape = (rs.length, headLength rs) ∧
    (rs = [] → m.shape = (0, 0)) ∧ m.rowList? = some rs ∧ (m.Sized → m.rowsAt? = some rs)
  refused_iff : ∀ f, ofRows? memory rs = some (.error f) ↔
    ∃ line found, FirstRagged (headLength rs) rs line found ∧ f = .raggedRow line (headLength rs) found

theorem listsPromised_of_room (h : Room memory rs) : ListsPromised memory rs := by
  obtain ⟨hiff, hmade, hrefused⟩ := ofRows_by_lengths rs
  have hrun := ofRows?_of_room h
  constructor
  · simpa only [hrun, Option.some.injEq] using hiff
  · simpa only [hrun, Option.some.injEq] using hmade
  · simpa only [hrun, Option.some.injEq] using hrefused

theorem room_of_listsPromised (h : ListsPromised memory rs) : Room memory rs := by
  by_contra hroom
  have hnone := ofRows?_of_no_room hroom
  rcases level_or_firstRagged (headLength rs) rs with hlevel | ⟨line, found, hragged⟩
  · obtain ⟨m, hm⟩ := h.made_iff.2 hlevel
    cases hnone.symm.trans hm
  · cases hnone.symm.trans ((h.refused_iff _).2 ⟨line, found, hragged, rfl⟩)

/-- The promise is kept exactly if there is room for as many rows as there are of the length of the first;
otherwise there is no answer. Lists of one length ask for the bytes that their values take already; others
may ask for far more. -/
theorem listsPromised_iff (memory : Nat) (rs : List (List α)) :
    (ListsPromised memory rs ↔ Room memory rs) ∧ (ofRows? memory rs = none ↔ ¬ Room memory rs) ∧
      ((∀ r ∈ rs, r.length = headLength rs) →
        (Room memory rs ↔ rs.flatten.length * 8 ≤ min memory (2 ^ 63 - 1))) := by
  refine ⟨⟨room_of_listsPromised, listsPromised_of_room⟩, ⟨fun hnone hroom => ?_, ofRows?_of_no_room⟩,
    room_of_level⟩
  cases hnone.symm.trans (ofRows?_of_room hroom)

/-- Empty lists count as rows and take no room: the third is the first of another length, and without it
there are four rows and no columns. -/
theorem listsPromised_iff_empty :
    ofRows? 0 [[], [], [0.5], [], [1, 2]] =
        some (.error (.raggedRow 3 0 1) : Except Failure (Matrix Float)) ∧
      (∃ m : Matrix Float, ofRows? 0 [[], [], [], []] = some (.ok m) ∧ m.shape = (4, 0) ∧
        m.rowList? = some [[], [], [], []]) ∧
      (∀ r ∈ ([[1, 2], [3, 4]] : List (List Float)), r.length = headLength [[1, 2], [3, 4]]) ∧
      Room 32 ([[1, 2], [3, 4]] : List (List Float)) ∧
      ofRows? 31 ([[1, 2], [3]] : List (List Float)) = none := by
  have hragged : FirstRagged 0 ([[], [], [0.5], [], [1, 2]] : List (List Float)) 3 1 :=
    ⟨[[], []], [0.5], [[], [1, 2]], rfl, by simp, by simp, rfl, rfl⟩
  have hrefused := ((listsPromised_iff 0 ([[], [], [0.5], [], [1, 2]] : List (List Float))).1.2
    (Nat.le_refl 0)).refused_iff
  have hempty := (listsPromised_iff 0 ([[], [], [], []] : List (List Float))).1.2 (Nat.le_refl 0)
  obtain ⟨m, hm⟩ := hempty.made_iff.2 (by simp [headLength])
  obtain ⟨hshape, -, hlist, -⟩ := hempty.made m hm
  have hlevel : ∀ r ∈ ([[1, 2], [3, 4]] : List (List Float)), r.length = headLength [[1, 2], [3, 4]] := by
    simp [headLength]
  have hroom := ((listsPromised_iff 32 ([[1, 2], [3, 4]] : List (List Float))).2.2 hlevel).2 (by decide)
  have hnone := (listsPromised_iff 31 ([[1, 2], [3]] : List (List Float))).2.1.2 (by decide)
  exact ⟨(hrefused _).2 ⟨3, 1, hragged, rfl⟩, ⟨m, hm, hshape, hlist⟩, hlevel, hroom, hnone⟩

/-- A list of `n` values and `n` empty ones behind it. -/
def lopsided (n : Nat) : List (List Float) := List.replicate n 0 :: List.replicate n []

theorem firstRagged_lopsided {n : Nat} (hn : 0 < n) : FirstRagged n (lopsided n) 2 0 := by
  obtain ⟨k, rfl⟩ := Nat.exists_eq_succ_of_ne_zero hn.ne'
  refine ⟨[List.replicate (k + 1) 0], [], List.replicate k [], rfl, ?_, hn.ne, rfl, rfl⟩
  exact List.forall_mem_singleton.2 List.length_replicate

theorem room_lopsided {n : Nat} : Room memory (lopsided n) ↔ (n + 1) * n * 8 ≤ min memory (2 ^ 63 - 1) := by
  simp [Room, lopsided, headLength]

/-- A list of 2 ^ 30 values in front of as many empty ones is not refused: no machine has a buffer for as
many rows of that length. With 2 ^ 17 of them 64 GiB are not enough. -/
theorem not_listsPromised :
    FirstRagged (2 ^ 30) (lopsided (2 ^ 30)) 2 0 ∧ (∀ memory, ofRows? memory (lopsided (2 ^ 30)) = none) ∧
      FirstRagged (2 ^ 17) (lopsided (2 ^ 17)) 2 0 ∧ ofRows? (2 ^ 36) (lopsided (2 ^ 17)) = none ∧
      ¬ ∀ (memory : Nat) (rs : List (List Float)), ListsPromised memory rs := by
  have hnone (memory : Nat) : ofRows? memory (lopsided (2 ^ 30)) = none := by
    apply ofRows?_of_no_room
    rw [room_lopsided]
    omega
  have hless : ofRows? (2 ^ 36) (lopsided (2 ^ 17)) = none := by
    apply ofRows?_of_no_room
    rw [room_lopsided]
    omega
  refine ⟨firstRagged_lopsided (by decide), hnone, firstRagged_lopsided (by decide), hless, fun h => ?_⟩
  have hroom : Room (2 ^ 63) (lopsided (2 ^ 30)) := room_of_listsPromised (h _ _)
  cases (hnone (2 ^ 63)).symm.trans (ofRows?_of_room hroom)

end Making

section Lines

variable {m : Matrix Float}

/-- The lines of a text, as they are read. -/
def textLines (t : String) : List Bytes := lines carriageReturn lineFeed (encode t.toList)

/-- What is promised of the rows of a matrix: laid end to end they are its values, each has a value for every
column, and without columns there is no row. So no line of the text is blank, and as many rows are read again
as there are lines. -/
structure RowsPromised (m : Matrix Float) : Prop where
  slices : 0 < m.cols → ∃ rs, m.rowsAt? = some rs ∧ rs.length = m.rows ∧
    (∀ r ∈ rs, r.length = m.cols) ∧ rs.flatten = m.data
  nothing : m.cols = 0 → m.rowsAt? = some []
  lines : ∃ t b, m.textAt? = some t ∧ (∀ l ∈ textLines t, lineWords l ≠ []) ∧ ofText t.toList = .ok b ∧
    (textLines t).length = b.rows

theorem lineWords_rowChars (xs : List Float) : lineWords (encode (rowChars xs)) = xs.map Scalar.chars := by
  rw [lineWords, decode_encode, Option.map_some, Option.getD_some, words_rowChars]

/-- Each row is a line, and its values are the words on it. -/
theorem map_lineWords_text (m : Matrix Float) :
    (textLines m.text).map lineWords = m.rowList.map (·.map Scalar.chars) := by
  rw [textLines, text, String.toList_ofList, lines_chars, List.map_map]
  exact List.map_congr_left fun r _ => lineWords_rowChars r

theorem length_textLines (m : Matrix Float) : (textLines m.text).length = m.rows := by
  have hlength := congrArg List.length (map_lineWords_text m)
  rwa [List.length_map, List.length_map, rowList, length_cutRows] at hlength

theorem length_lineWords_text (h : m.WellFormed) :
    ∀ l ∈ textLines m.text, (lineWords l).length = m.cols := by
  intro l hl
  have hmem : lineWords l ∈ m.rowList.map (·.map Scalar.chars) := by
    rw [← map_lineWords_text]
    exact List.mem_map_of_mem hl
  obtain ⟨r, hr, hwords⟩ := List.mem_map.1 hmem
  rw [← hwords, List.length_map]
  exact length_of_mem_cutRows h r hr

/-- A text is read again with a row for each line, unless the lines are blank. -/
theorem exists_ofText_text (h : m.WellFormed) :
    ∃ b, ofText m.text.toList = .ok b ∧ b.rows = if m.cols = 0 then 0 else m.rows := by
  rw [ofText, text, String.toList_ofList]
  by_cases hempty : m.rows = 0 ∨ m.cols = 0
  · refine ⟨⟨0, 0, []⟩, ofBytes_encode_empty h hempty, ?_⟩
    rcases hempty with hrows | hcols
    · rw [hrows, ite_self]
    · rw [if_pos hcols]
  · rw [not_or] at hempty
    have hsolid : m.Solid := ⟨h, iff_of_false hempty.1 hempty.2⟩
    exact ⟨m, ofBytes_encode hsolid, (if_neg hempty.2).symm⟩

theorem exists_rowsAt? (h : m.WellFormed) (hs : m.Sized) :
    ∃ rs, m.rowsAt? = some rs ∧ m.rowList? = some rs ∧ rs.length = m.rows ∧
      (∀ r ∈ rs, r.length = m.cols) ∧ rs.flatten = m.data :=
  ⟨m.rowList, (rowsAt?_eq h hs).1, (rowsAt?_eq h hs).2, length_cutRows _ _ _, length_of_mem_cutRows h,
    flatten_cutRows h⟩

theorem rowsPromised_of_shape (h : m.WellFormed) (hs : m.Sized) (hshape : m.cols = 0 → m.rows = 0) :
    m.RowsPromised := by
  obtain ⟨rs, hrows, -, hcount, hwidth, hflat⟩ := exists_rowsAt? h hs
  obtain ⟨b, hread, hback⟩ := exists_ofText_text h
  refine ⟨fun _ => ⟨rs, hrows, hcount, hwidth, hflat⟩, ?_, m.text, b, (textAt?_eq h hs).1, ?_, hread, ?_⟩
  · intro hcols
    have hnil : rs = [] := List.length_eq_zero_iff.1 (hcount.trans (hshape hcols))
    rw [hrows, hnil]
  · intro l hl hblank
    have hcols : m.cols = 0 := by
      rw [← length_lineWords_text h l hl, hblank]
      rfl
    have hlines : 0 < (textLines m.text).length := List.length_pos_of_mem hl
    rw [length_textLines, hshape hcols] at hlines
    exact Nat.lt_irrefl 0 hlines
  · rw [length_textLines, hback]
    split
    · exact hshape ‹_›
    · rfl

/-- The promise is kept exactly if there are columns, or no rows either. In any case there are as many rows
as in the shape, and as many lines, with a word for each column. Without columns these are blank, and none is
read again. -/
theorem rowsPromised_iff (h : m.WellFormed) (hs : m.Sized) :
    (m.RowsPromised ↔ (m.cols = 0 → m.rows = 0)) ∧
    (∃ rs, m.rowsAt? = some rs ∧ m.rowList? = some rs ∧ rs.length = m.rows ∧
      (∀ r ∈ rs, r.length = m.cols) ∧ rs.flatten = m.data) ∧
    ∃ t b, m.textAt? = some t ∧ m.text? = some t ∧ (textLines t).length = m.rows ∧
      (∀ l ∈ textLines t, (lineWords l).length = m.cols) ∧ ofText t.toList = .ok b ∧
      b.rows = if m.cols = 0 then 0 else m.rows := by
  obtain ⟨rs, hrows, hlist, hcount, hrest⟩ := exists_rowsAt? h hs
  obtain ⟨b, hread, hback⟩ := exists_ofText_text h
  obtain ⟨htextAt, htext⟩ := textAt?_eq h hs
  refine ⟨⟨?_, rowsPromised_of_shape h hs⟩, ⟨rs, hrows, hlist, hcount, hrest⟩, m.text, b, htextAt, htext,
    length_textLines m, length_lineWords_text h, hread, hback⟩
  intro hpromise hcols
  have hnone := hpromise.nothing hcols
  rw [hrows] at hnone
  rw [← hcount, Option.some.inj hnone]
  rfl

/-- A column with a value that is no number, and the tallest matrix without columns. -/
theorem rowsPromised_iff_column :
    (⟨2, 1, [-0.5, 0 / 0]⟩ : Matrix Float).WellFormed ∧ (⟨2, 1, [-0.5, 0 / 0]⟩ : Matrix Float).Sized ∧
      (⟨2, 1, [-0.5, 0 / 0]⟩ : Matrix Float).RowsPromised ∧
      tallest.WellFormed ∧ tallest.Sized ∧ ¬ tallest.RowsPromised := by
  have hcolumn : (⟨2, 1, [-0.5, 0 / 0]⟩ : Matrix Float).Sized := ⟨by decide, by decide, by decide⟩
  have hfilled : (⟨2, 1, [-0.5, 0 / 0]⟩ : Matrix Float).WellFormed := rfl
  have htallest : tallest.WellFormed := rfl
  have hsized : tallest.Sized := ⟨by decide, by decide, by decide⟩
  refine ⟨hfilled, hcolumn, (rowsPromised_iff hfilled hcolumn).1.2 nofun, htallest, hsized, ?_⟩
  intro hpromise
  have hnone : tallest.rows = 0 := (rowsPromised_iff htallest hsized).1.1 hpromise rfl
  cases hnone

/-- Two rows without columns are handed out, and written as two blank lines. -/
theorem not_rowsPromised :
    (⟨2, 0, []⟩ : Matrix Float).rowsAt? = some [[], []] ∧
      (⟨2, 0, []⟩ : Matrix Float).textAt? = some "\n\n" ∧
      ¬ ∀ m : Matrix Float, m.WellFormed → m.Sized → m.RowsPromised := by
  have hrows : (⟨2, 0, []⟩ : Matrix Float).rowsAt? = some [[], []] := by decide
  have htext : (⟨2, 0, []⟩ : Matrix Float).textAt? = some "\n\n" := by decide
  refine ⟨hrows, htext, fun h => ?_⟩
  have hpromise : (⟨2, 0, []⟩ : Matrix Float).RowsPromised := h _ rfl ⟨by decide, by decide, by decide⟩
  have hnone := hpromise.nothing rfl
  rw [hrows] at hnone
  cases hnone

end Lines

end NumericSteps.Matrix
