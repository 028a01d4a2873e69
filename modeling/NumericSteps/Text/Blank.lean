namespace NumericSteps.Text

/-- White space, as the property of that name in Unicode has it. -/
def isBlank (c : Char) : Bool :=
  let n := c.toNat
  (9 ≤ n && n ≤ 13) || n == 0x20 || n == 0x85 || n == 0xa0 || n == 0x1680 ||
    (0x2000 ≤ n && n ≤ 0x200a) || n == 0x2028 || n == 0x2029 || n == 0x202f || n == 0x205f ||
    n == 0x3000

/-- The longest runs of characters that are not blank. -/
def words : List Char → List (List Char)
  | [] => []
  | [c] => if isBlank c then [] else [[c]]
  | c :: d :: cs =>
    if isBlank c then words (d :: cs)
    else if isBlank d then [c] :: words (d :: cs)
    else match words (d :: cs) with
      | [] => [[c]]
      | w :: ws => (c :: w) :: ws

/-- The text without the blanks at both ends. -/
def trim (cs : List Char) : List Char :=
  ((cs.dropWhile isBlank).reverse.dropWhile isBlank).reverse

theorem words_ne_nil_of_not_blank (c : Char) (cs : List Char) (h : isBlank c = false) :
    words (c :: cs) ≠ [] := by
  cases cs with
  | nil => simp [words, h]
  | cons d ds =>
    simp only [words, h]
    split
    · simp_all
    · split
      · simp
      · split <;> simp

theorem words_blank_cons (c : Char) (cs : List Char) (h : isBlank c = true) :
    words (c :: cs) = words cs := by
  cases cs with
  | nil => simp [words, h]
  | cons d ds => simp [words, h]

/-- No word is empty or holds a blank. -/
theorem words_mem (cs : List Char) : ∀ w ∈ words cs, w ≠ [] ∧ ∀ c ∈ w, isBlank c = false := by
  fun_induction words cs with
  | case1 => simp
  | case2 c h => simp
  | case3 c h => simp_all
  | case4 c d cs h ih => exact ih
  | case5 c d cs h hd ih =>
    intro w hw
    rcases List.mem_cons.1 hw with rfl | hw
    · simp_all
    · exact ih w hw
  | case6 c d cs h hd hw ih => simp_all
  | case7 c d cs h hd w ws hw ih =>
    intro v hv
    rcases List.mem_cons.1 hv with rfl | hv
    · have := ih w (by rw [hw]; simp)
      simp_all
    · exact ih v (by rw [hw]; exact List.mem_cons_of_mem _ hv)

end NumericSteps.Text
