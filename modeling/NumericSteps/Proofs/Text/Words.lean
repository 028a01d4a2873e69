import Mathlib.Data.List.TakeWhile
import NumericSteps.Text.Blank

namespace NumericSteps.Text

variable {bs cs : List Char}

/-- What does not hold of all of a list fails first at one place. -/
theorem exists_first_not {α : Type} {p : α → Prop} {xs : List α} (h : ¬ ∀ x ∈ xs, p x) :
    ∃ front x back, xs = front ++ x :: back ∧ (∀ y ∈ front, p y) ∧ ¬ p x := by
  induction xs with
  | nil => exact absurd (fun x hx => nomatch hx) h
  | cons x xs ih =>
    rw [List.forall_mem_cons] at h
    by_cases hx : p x
    · obtain ⟨front, y, back, rfl, hfront, hy⟩ := ih fun hxs => h ⟨hx, hxs⟩
      exact ⟨x :: front, y, back, rfl, List.forall_mem_cons.2 ⟨hx, hfront⟩, hy⟩
    · exact ⟨[], x, xs, rfl, by simp, hx⟩

section Trimmed

theorem trim_of_not_blank {cs : List Char} (h : ∀ c ∈ cs, isBlank c = false) : trim cs = cs := by
  have hdrop : ∀ {ds : List Char}, (∀ c ∈ ds, isBlank c = false) → ds.dropWhile isBlank = ds := by
    intro ds hd
    cases ds with
    | nil => rfl
    | cons d ds => simp [hd d List.mem_cons_self]
  have hback : ∀ c ∈ cs.reverse, isBlank c = false := fun c hc => h c (List.mem_reverse.1 hc)
  rw [trim, hdrop h, hdrop hback, List.reverse_reverse]

theorem trim_eq_nil_iff (cs : List Char) : trim cs = [] ↔ ∀ c ∈ cs, isBlank c = true := by
  unfold trim
  rw [List.reverse_eq_nil_iff, List.dropWhile_eq_nil_iff]
  constructor
  · intro h c hc
    rw [← List.takeWhile_append_dropWhile (p := isBlank) (l := cs)] at hc
    rcases List.mem_append.1 hc with hc | hc
    · exact List.mem_takeWhile_imp hc
    · exact h c (List.mem_reverse.2 hc)
  · intro h c hc
    exact h c (List.dropWhile_sublist _ |>.subset (List.mem_reverse.1 hc))

theorem trim_ne_nil_iff {cs : List Char} : trim cs ≠ [] ↔ ∃ c ∈ cs, isBlank c = false := by
  simp [trim_eq_nil_iff]

/-- What is trimmed off are blanks. -/
theorem exists_trim (cs : List Char) : ∃ front back, cs = front ++ trim cs ++ back ∧
    (∀ c ∈ front, isBlank c = true) ∧ ∀ c ∈ back, isBlank c = true := by
  let rest := cs.dropWhile isBlank
  have hrest : rest = trim cs ++ (rest.reverse.takeWhile isBlank).reverse := by
    have hsplit : rest.reverse.takeWhile isBlank ++ rest.reverse.dropWhile isBlank = rest.reverse :=
      List.takeWhile_append_dropWhile
    rw [trim, ← List.reverse_append, hsplit, List.reverse_reverse]
  refine ⟨cs.takeWhile isBlank, (rest.reverse.takeWhile isBlank).reverse, ?_, ?_, ?_⟩
  · rw [List.append_assoc, ← hrest]
    exact (List.takeWhile_append_dropWhile).symm
  · intro c hc
    exact List.mem_takeWhile_imp hc
  · intro c hc
    exact List.mem_takeWhile_imp (List.mem_reverse.1 hc)

/-- A trimmed text neither starts nor ends with a blank. -/
theorem trim_ends (cs : List Char) :
    (∀ c ∈ (trim cs).head?, isBlank c = false) ∧ ∀ c ∈ (trim cs).getLast?, isBlank c = false := by
  have hhead (ds : List Char) : ∀ c ∈ (ds.dropWhile isBlank).head?, isBlank c = false := by
    intro c hc
    have hnot := List.head?_dropWhile_not isBlank ds
    rw [Option.mem_def.1 hc] at hnot
    simpa using hnot
  constructor
  · intro c hc
    apply hhead cs
    obtain ⟨rest, hrest⟩ := List.head?_eq_some_iff.1 (Option.mem_def.1 hc)
    -- what is dropped behind does not reach the front
    have hprefix : trim cs <+: cs.dropWhile isBlank := by
      have hsuffix := List.dropWhile_suffix (l := (cs.dropWhile isBlank).reverse) isBlank
      simpa [trim] using List.reverse_prefix.2 hsuffix
    obtain ⟨back, hback⟩ := hprefix
    rw [← hback, hrest]
    rfl
  · intro c hc
    rw [trim, List.getLast?_reverse] at hc
    exact hhead _ c hc

end Trimmed

section Words

theorem words_singleton {w : List Char} (hne : w ≠ []) (hw : ∀ c ∈ w, isBlank c = false) :
    words w = [w] := by
  induction w with
  | nil => exact absurd rfl hne
  | cons c w ih =>
    have hc := hw c List.mem_cons_self
    cases w with
    | nil => simp [words, hc]
    | cons d w =>
      have hrest := ih (by simp) fun x hx => hw x (List.mem_cons_of_mem _ hx)
      have hd := hw d (by simp)
      simp [words, hc, hd, hrest]

theorem words_append_blank {w : List Char} (hne : w ≠ []) (hw : ∀ c ∈ w, isBlank c = false)
    {b : Char} (hb : isBlank b = true) (cs : List Char) :
    words (w ++ b :: cs) = w :: words cs := by
  induction w with
  | nil => exact absurd rfl hne
  | cons c w ih =>
    have hc := hw c List.mem_cons_self
    cases w with
    | nil => simp [words, hc, hb, words_blank_cons]
    | cons d w =>
      have hrest := ih (by simp) fun x hx => hw x (List.mem_cons_of_mem _ hx)
      have hd := hw d (by simp)
      rw [List.cons_append] at hrest
      simp [words, hc, hd, hrest]

theorem words_intercalate {b : Char} (hb : isBlank b = true) {ws : List (List Char)}
    (hw : ∀ w ∈ ws, w ≠ [] ∧ ∀ c ∈ w, isBlank c = false) : words ([b].intercalate ws) = ws := by
  induction ws with
  | nil => rfl
  | cons w ws ih =>
    obtain ⟨hne, hblank⟩ := hw w List.mem_cons_self
    have hrest := ih fun v hv => hw v (List.mem_cons_of_mem _ hv)
    cases ws with
    | nil => simpa using words_singleton hne hblank
    | cons v ws =>
      rw [List.intercalate_cons_cons, List.append_assoc, List.singleton_append,
        words_append_blank hne hblank hb, hrest]

theorem words_eq_nil_iff (cs : List Char) : words cs = [] ↔ ∀ c ∈ cs, isBlank c = true := by
  induction cs with
  | nil => simp [words]
  | cons c cs ih =>
    by_cases hc : isBlank c = true
    · rw [words_blank_cons c cs hc, ih]
      simp [hc]
    · have hne := words_ne_nil_of_not_blank c cs (by simpa using hc)
      simp [hne, hc]

theorem words_append_of_blank (hb : ∀ c ∈ bs, isBlank c = true) (cs : List Char) :
    words (bs ++ cs) = words cs := by
  induction bs with
  | nil => rfl
  | cons b bs ih =>
    rw [List.forall_mem_cons] at hb
    rw [List.cons_append, words_blank_cons b _ hb.1, ih hb.2]

theorem words_append_blanks (cs : List Char) (hb : ∀ c ∈ bs, isBlank c = true) :
    words (cs ++ bs) = words cs := by
  have hnone : words bs = [] := (words_eq_nil_iff bs).2 hb
  fun_induction words cs with
  | case1 => exact hnone
  | case2 c hc => rw [List.singleton_append, words_blank_cons c bs hc, hnone]
  | case3 c hc =>
    have hword : ∀ x ∈ [c], isBlank x = false := by simpa using hc
    cases bs with
    | nil => exact words_singleton (by simp) hword
    | cons b bs =>
      rw [List.forall_mem_cons] at hb
      rw [words_append_blank (by simp) hword hb.1, (words_eq_nil_iff bs).2 hb.2]
  | case4 c d cs hc ih =>
    rw [List.cons_append, words_blank_cons c _ hc, ih]
  | case5 c d cs hc hd ih =>
    rw [List.cons_append] at ih
    simp [words, hc, hd, ih]
  | case6 c d cs hc hd hnil ih =>
    rw [List.cons_append] at ih
    simp [words, hc, hd, ih, hnil]
  | case7 c d cs hc hd w ws hcons ih =>
    rw [List.cons_append] at ih
    simp [words, hc, hd, ih, hcons]

theorem words_trim (cs : List Char) : words (trim cs) = words cs := by
  obtain ⟨front, back, hsplit, hfront, hback⟩ := exists_trim cs
  calc words (trim cs) = words (front ++ trim cs) := (words_append_of_blank hfront _).symm
    _ = words (front ++ trim cs ++ back) := (words_append_blanks _ hback).symm
    _ = words cs := by rw [← hsplit]

/-- Between blanks at the ends there is nothing, or one word, or two words with a blank in front of the
second. -/
theorem words_cases (cs : List Char) :
    words cs = [] ∧ trim cs = [] ∨ words cs = [trim cs] ∧ trim cs ≠ [] ∨
      (∃ v w ws, words cs = v :: w :: ws) ∧ ∃ c ∈ trim cs, isBlank c = true := by
  rw [← words_trim]
  obtain ⟨hhead, hlast⟩ := trim_ends cs
  generalize trim cs = w at hhead hlast
  by_cases hnil : w = []
  · left
    rw [hnil]
    exact ⟨rfl, rfl⟩
  · right
    by_cases hword : ∀ c ∈ w, isBlank c = false
    · left
      exact ⟨words_singleton hnil hword, hnil⟩
    · right
      -- the first blank ends the first word, and the last character is behind it
      obtain ⟨front, b, rest, hsplit, hfront, hb⟩ := exists_first_not hword
      rw [Bool.not_eq_false] at hb
      refine ⟨?_, b, by simp [hsplit], hb⟩
      have hne : front ≠ [] := by
        intro hf
        have hfirst := hhead b (by simp [hsplit, hf])
        rw [hb] at hfirst
        cases hfirst
      have hrest : words rest ≠ [] := by
        intro hr
        have hall : ∀ c ∈ b :: rest, isBlank c = true :=
          List.forall_mem_cons.2 ⟨hb, (words_eq_nil_iff rest).1 hr⟩
        obtain ⟨c, hc⟩ : ∃ c, (b :: rest).getLast? = some c :=
          ⟨_, List.getLast?_eq_some_getLast (List.cons_ne_nil b rest)⟩
        have hend := hlast c (by rw [hsplit, List.getLast?_append, hc]; rfl)
        rw [hall c (List.mem_of_getLast? hc)] at hend
        cases hend
      obtain ⟨v, ws, hws⟩ := List.exists_cons_of_ne_nil hrest
      refine ⟨front, v, ws, ?_⟩
      rw [hsplit, words_append_blank hne hfront hb, hws]

end Words

end NumericSteps.Text
