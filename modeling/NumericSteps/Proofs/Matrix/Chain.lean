import NumericSteps.Proofs.Matrix.Indices

namespace NumericSteps.Matrix

variable {α : Type}

section Sides

/-- What is promised of a routine: a product has the outer sides of its operands. -/
def OuterSides (times : Grid α → Grid α → Grid α) : Prop :=
  ∀ a b, a.cols = b.rows → (times a b).rows = a.rows ∧ (times a b).cols = b.cols

/-- Neighbours agree in the sides where they meet. -/
def Linked (fs : List (Matrix α)) : Prop := fs.IsChain fun l r => l.cols = r.rows

/-- `l` and `r` are the first neighbours that do not agree, `front` stands before them and `back` behind. -/
structure BreaksAt (fs front : List (Matrix α)) (l r : Matrix α) (back : List (Matrix α)) : Prop where
  split : fs = front ++ l :: r :: back
  linked : Linked (front ++ [l])
  gap : l.cols ≠ r.rows

variable {l r : Matrix α} {front back fs : List (Matrix α)}

theorem BreaksAt.eq_append (h : BreaksAt fs front l r back) : fs = (front ++ [l]) ++ r :: back := by
  rw [h.split, List.append_assoc, List.singleton_append]

theorem linked_cons_cons : Linked (l :: r :: fs) ↔ l.cols = r.rows ∧ Linked (r :: fs) :=
  List.isChain_cons_cons

/-- Only the columns of the first factor matter. -/
theorem Linked.of_cols (h : Linked (l :: fs)) (hcols : r.cols = l.cols) : Linked (r :: fs) := by
  cases fs with
  | nil => exact List.isChain_singleton r
  | cons f fs =>
    obtain ⟨hside, hrest⟩ := linked_cons_cons.1 h
    exact linked_cons_cons.2 ⟨hcols.trans hside, hrest⟩

theorem cols_getLastD (hcols : r.cols = l.cols) (fs : List (Matrix α)) :
    (fs.getLastD r).cols = (fs.getLastD l).cols := by
  cases fs with
  | nil => exact hcols
  | cons f fs => rfl

theorem linked_append : Linked (l :: front ++ r :: back) ↔
    Linked (l :: front) ∧ (front.getLastD l).cols = r.rows ∧ Linked (r :: back) := by
  induction front generalizing l with
  | nil => exact linked_cons_cons.trans (iff_and_self.2 fun _ => List.isChain_singleton l)
  | cons f front ih =>
    rw [List.cons_append, List.cons_append, linked_cons_cons, linked_cons_cons, List.getLastD_cons,
      and_assoc]
    exact and_congr_right fun _ => ih

theorem linked_or_breaksAt (fs : List (Matrix α)) :
    Linked fs ∨ ∃ front l r back, BreaksAt fs front l r back := by
  induction fs with
  | nil => exact .inl List.isChain_nil
  | cons f fs ih =>
    cases fs with
    | nil => exact .inl (List.isChain_singleton f)
    | cons g fs =>
      by_cases hside : f.cols = g.rows
      · rcases ih with hlinked | ⟨front, l, r, back, hsplit, hlinked, hgap⟩
        · exact .inl (linked_cons_cons.2 ⟨hside, hlinked⟩)
        · refine .inr ⟨f :: front, l, r, back, congrArg (f :: ·) hsplit, ?_, hgap⟩
          cases front with
          | nil =>
            cases hsplit
            exact linked_cons_cons.2 ⟨hside, hlinked⟩
          | cons x front =>
            cases hsplit
            exact linked_cons_cons.2 ⟨hside, hlinked⟩
      · exact .inr ⟨[], f, g, fs, rfl, List.isChain_singleton f, hside⟩

end Sides

section Steps

variable [OfNat α 0] {times : Grid α → Grid α → Grid α} {l r : Matrix α}

theorem multiplyWith_ok (h : l.cols = r.rows) :
    multiplyWith times l r = .ok (productWith times l r) := if_pos h

theorem multiplyWith_mismatch (h : l.cols ≠ r.rows) :
    multiplyWith times l r = .error (.shapeMismatch .multiply l.shape r.shape) := if_neg h

theorem multiplyWith_error {g : Failure} (h : multiplyWith times l r = .error g) :
    g = .shapeMismatch .multiply l.shape r.shape := by
  by_cases hsides : l.cols = r.rows
  · cases (multiplyWith_ok hsides).symm.trans h
  · exact Except.error.inj (h.symm.trans (multiplyWith_mismatch hsides))

theorem multiplyWith?_of_backed (hl : l.Backed) (hr : r.Backed) :
    multiplyWith? times l r = some (multiplyWith times l r) := if_neg fun hstuck => hstuck.2 ⟨hl, hr⟩

theorem multiplyWith?_ok (hl : l.Backed) (hr : r.Backed) (h : l.cols = r.rows) :
    multiplyWith? times l r = some (.ok (productWith times l r)) := by
  rw [multiplyWith?_of_backed hl hr, multiplyWith_ok h]

/-- The values of operands that do not fit together are not read. -/
theorem multiplyWith?_mismatch (h : l.cols ≠ r.rows) :
    multiplyWith? times l r = some (.error (.shapeMismatch .multiply l.shape r.shape)) := by
  rw [multiplyWith?, if_neg fun hstuck => h hstuck.1, multiplyWith_mismatch h]

theorem multiplyWith?_ne_emptyChain : multiplyWith? times l r ≠ some (.error .emptyChain) := by
  unfold multiplyWith?
  split
  · simp
  · intro h
    cases multiplyWith_error (Option.some.inj h)

theorem OuterSides.productWith (htimes : OuterSides times) (h : l.cols = r.rows) :
    (productWith times l r).rows = l.rows ∧ (productWith times l r).cols = r.cols :=
  htimes l.grid r.grid h

end Steps

section Runs

variable [OfNat α 0] {times : Grid α → Grid α → Grid α} {acc first l r : Matrix α}
  {front back fs : List (Matrix α)}

theorem chainFromWith?_cons (acc f : Matrix α) (fs : List (Matrix α)) :
    chainFromWith? times acc (f :: fs) =
      match multiplyWith? times acc f with
      | some (.ok m) => chainFromWith? times m fs
      | other => other := by
  rw [chainFromWith?, List.foldlM_cons, ExceptT.run_bind]
  rcases multiplyWith? times acc f with _ | _ | m <;> rfl

theorem chainFromWith?_cons_ok {f m : Matrix α} (h : multiplyWith? times acc f = some (.ok m)) :
    chainFromWith? times acc (f :: fs) = chainFromWith? times m fs := by
  rw [chainFromWith?_cons, h]

theorem chainFromWith?_cons_error {f : Matrix α} {g : Failure}
    (h : multiplyWith? times acc f = some (.error g)) :
    chainFromWith? times acc (f :: fs) = some (.error g) := by
  rw [chainFromWith?_cons, h]

/-- Linked factors are multiplied from the left, and what stands behind them is not read before. -/
theorem chainFromWith?_append (htimes : OuterSides times) (hacc : acc.Backed)
    (hfront : ∀ f ∈ front, f.Backed) (hlinked : Linked (acc :: front)) :
    chainFromWith? times acc (front ++ back) =
      chainFromWith? times (front.foldl (productWith times) acc) back := by
  induction front generalizing acc with
  | nil => rfl
  | cons f front ih =>
    obtain ⟨hf, hrest⟩ := List.forall_mem_cons.1 hfront
    obtain ⟨hside, hlinked⟩ := linked_cons_cons.1 hlinked
    have hcols : (productWith times acc f).cols = f.cols := (htimes.productWith hside).2
    rw [List.cons_append, chainFromWith?_cons_ok (multiplyWith?_ok hacc hf hside)]
    exact ih (wellFormed_productWith _ _ _).backed hrest (hlinked.of_cols hcols)

/-- What has been multiplied has the rows of the first factor and the columns of the last. -/
theorem shape_foldl (htimes : OuterSides times) (hlinked : Linked (acc :: fs)) :
    (fs.foldl (productWith times) acc).shape = (acc.rows, (fs.getLastD acc).cols) := by
  induction fs generalizing acc with
  | nil => rfl
  | cons f fs ih =>
    obtain ⟨hside, hlinked⟩ := linked_cons_cons.1 hlinked
    obtain ⟨hrows, hcols⟩ := htimes.productWith hside
    rw [List.foldl_cons, ih (hlinked.of_cols hcols), hrows, cols_getLastD hcols, List.getLastD_cons]

theorem backed_foldl (hacc : acc.Backed) : (fs.foldl (productWith times) acc).Backed := by
  induction fs generalizing acc with
  | nil => exact hacc
  | cons f fs ih => exact ih (wellFormed_productWith _ _ _).backed

theorem chainWith?_of_linked (htimes : OuterSides times) (hfs : ∀ f ∈ first :: fs, f.Backed)
    (hlinked : Linked (first :: fs)) :
    chainWith? times (first :: fs) = some (.ok (fs.foldl (productWith times) first)) := by
  obtain ⟨hfirst, hrest⟩ := List.forall_mem_cons.1 hfs
  have hrun : chainFromWith? times first (fs ++ []) =
      chainFromWith? times (fs.foldl (productWith times) first) [] :=
    chainFromWith?_append htimes hfirst hrest hlinked
  rwa [List.append_nil] at hrun

theorem chainFromWith?_ne_emptyChain : chainFromWith? times acc fs ≠ some (.error .emptyChain) := by
  induction fs generalizing acc with
  | nil => exact nofun
  | cons f fs ih =>
    rw [chainFromWith?_cons]
    split
    · exact ih
    · exact multiplyWith?_ne_emptyChain

theorem chainWith?_eq_emptyChain_iff : chainWith? times fs = some (.error .emptyChain) ↔ fs = [] := by
  cases fs with
  | nil => exact iff_of_true rfl rfl
  | cons first rest => exact iff_of_false chainFromWith?_ne_emptyChain (List.cons_ne_nil _ _)

/-- The factors up to the gap have a product, and the next one does not fit behind it. -/
theorem chainWith?_of_breaksAt (htimes : OuterSides times) (h : BreaksAt fs front l r back)
    (hfront : ∀ f ∈ front ++ [l], f.Backed) (hfirst : fs.head? = some first) :
    ∃ p, chainWith? times (front ++ [l]) = some (.ok p) ∧ p.shape = (first.rows, l.cols) ∧
      chainWith? times fs = some (.error (.shapeMismatch .multiply p.shape r.shape)) := by
  obtain ⟨rest, hrest, hlast⟩ : ∃ rest, front ++ [l] = first :: rest ∧ rest.getLastD first = l := by
    rw [h.split] at hfirst
    cases front with
    | nil =>
      obtain rfl : l = first := Option.some.inj hfirst
      exact ⟨[], rfl, rfl⟩
    | cons x front =>
      obtain rfl : x = first := Option.some.inj hfirst
      exact ⟨front ++ [l], rfl, List.getLastD_concat⟩
  have hfs : fs = first :: (rest ++ r :: back) := by
    rw [h.eq_append, hrest, List.cons_append]
  have hlinked : Linked (first :: rest) := by
    rw [← hrest]
    exact h.linked
  rw [hrest] at hfront
  have hshape := shape_foldl htimes hlinked
  rw [hlast] at hshape
  refine ⟨rest.foldl (productWith times) first, ?_, hshape, ?_⟩
  · rw [hrest]
    exact chainWith?_of_linked htimes hfront hlinked
  · obtain ⟨hbacked, hothers⟩ := List.forall_mem_cons.1 hfront
    have hgap : (rest.foldl (productWith times) first).cols ≠ r.rows := by
      have hcols : (rest.foldl (productWith times) first).cols = l.cols := congrArg Prod.snd hshape
      rw [hcols]
      exact h.gap
    rw [hfs, chainWith?_cons, chainFromWith?_append htimes hbacked hothers hlinked]
    exact chainFromWith?_cons_error (multiplyWith?_mismatch hgap)

theorem chainWith?_ok_iff (htimes : OuterSides times) (hfs : ∀ f ∈ fs, f.Backed) :
    (∃ p, chainWith? times fs = some (.ok p)) ↔ fs ≠ [] ∧ Linked fs := by
  cases fs with
  | nil => simp [chainWith?_nil]
  | cons first rest =>
    constructor
    · rintro ⟨p, hp⟩
      refine ⟨List.cons_ne_nil _ _, ?_⟩
      rcases linked_or_breaksAt (first :: rest) with hlinked | ⟨front, l, r, back, hbreaks⟩
      · exact hlinked
      · have hfront : ∀ f ∈ front ++ [l], f.Backed := by
          intro f hf
          apply hfs
          rw [hbreaks.eq_append]
          exact List.mem_append_left _ hf
        obtain ⟨_, -, -, herror⟩ := chainWith?_of_breaksAt htimes hbreaks hfront rfl
        rw [hp] at herror
        cases herror
    · rintro ⟨-, hlinked⟩
      exact ⟨_, chainWith?_of_linked htimes hfs hlinked⟩

end Runs

theorem outerSides_times [OfNat α 0] [Add α] [Mul α] : OuterSides (Grid.times (α := α)) := fun _ _ _ => ⟨rfl, rfl⟩

/-- A chain without factors has no product, and one factor is its own. Factors that are linked are multiplied
from the left, to the rows of the first and the columns of the last; otherwise the chain stops at the first
neighbours that do not agree, with the shape of what has been multiplied up to there. -/
theorem chain_by_sides [OfNat α 0] {times : Grid α → Grid α → Grid α} (htimes : OuterSides times) :
    (∀ fs, chainWith? times fs = some (.error .emptyChain) ↔ fs = []) ∧
    (∀ f, chainWith? times [f] = some (.ok f)) ∧
    (∀ fs : List (Matrix α), (∀ f ∈ fs, f.Backed) →
      ((∃ p, chainWith? times fs = some (.ok p)) ↔ fs ≠ [] ∧ Linked fs)) ∧
    (∀ (first : Matrix α) (rest : List (Matrix α)), (∀ f ∈ first :: rest, f.Backed) →
      ∀ p, chainWith? times (first :: rest) = some (.ok p) →
        p.shape = (first.rows, (rest.getLastD first).cols) ∧
          p = rest.foldl (productWith times) first) ∧
    (∀ fs : List (Matrix α), Linked fs ∨ ∃ front l r back, BreaksAt fs front l r back) ∧
    ∀ (fs front back : List (Matrix α)) (l r first : Matrix α), BreaksAt fs front l r back →
      fs.head? = some first → (∀ f ∈ front ++ [l], f.Backed) →
      ∃ p, chainWith? times (front ++ [l]) = some (.ok p) ∧ p.shape = (first.rows, l.cols) ∧
        chainWith? times fs = some (.error (.shapeMismatch .multiply p.shape r.shape)) := by
  refine ⟨fun _ => chainWith?_eq_emptyChain_iff, fun _ => rfl, fun _ hfs => chainWith?_ok_iff htimes hfs,
    ?_, linked_or_breaksAt, ?_⟩
  · intro first rest hfs p hp
    obtain ⟨-, hlinked⟩ := (chainWith?_ok_iff htimes hfs).1 ⟨p, hp⟩
    have hfold : p = rest.foldl (productWith times) first := by
      rw [chainWith?_of_linked htimes hfs hlinked] at hp
      cases hp
      rfl
    refine ⟨?_, hfold⟩
    rw [hfold]
    exact shape_foldl htimes hlinked
  · intro fs front back l r first hbreaks hfirst hfront
    exact chainWith?_of_breaksAt htimes hbreaks hfront hfirst

/-- Factors without columns and without rows have a product of six zeros, and with a third one that does not
fit behind them the chain stops there, though neither it nor the last has values. -/
theorem chain_by_sides_edges :
    OuterSides (Grid.times (α := Int)) ∧
      (∃ p : Matrix Int, chain? [⟨2, 0, []⟩, ⟨0, 3, []⟩] = some (.ok p) ∧ p.shape = (2, 3) ∧
        p.data = [0, 0, 0, 0, 0, 0]) ∧
      BreaksAt [(⟨2, 0, []⟩ : Matrix Int), ⟨0, 3, []⟩, ⟨2, 1, []⟩, ⟨1, 1, []⟩] [⟨2, 0, []⟩] ⟨0, 3, []⟩
        ⟨2, 1, []⟩ [⟨1, 1, []⟩] ∧
      chain? [(⟨2, 0, []⟩ : Matrix Int), ⟨0, 3, []⟩, ⟨2, 1, []⟩, ⟨1, 1, []⟩] =
        some (.error (.shapeMismatch .multiply (2, 3) (2, 1))) := by
  obtain ⟨-, -, hok, hproduct, -, hbreak⟩ := chain_by_sides (outerSides_times (α := Int))
  have hbacked : ∀ f ∈ [(⟨2, 0, []⟩ : Matrix Int), ⟨0, 3, []⟩], f.Backed := by decide
  have hbreaks : BreaksAt [(⟨2, 0, []⟩ : Matrix Int), ⟨0, 3, []⟩, ⟨2, 1, []⟩, ⟨1, 1, []⟩] [⟨2, 0, []⟩]
      ⟨0, 3, []⟩ ⟨2, 1, []⟩ [⟨1, 1, []⟩] := ⟨rfl, by simp [Linked], by decide⟩
  refine ⟨outerSides_times, ?_, hbreaks, ?_⟩
  · obtain ⟨p, hp⟩ := (hok _ hbacked).2 ⟨by simp, by simp [Linked]⟩
    obtain ⟨hshape, hfold⟩ := hproduct _ _ hbacked p hp
    refine ⟨p, hp, hshape, ?_⟩
    rw [hfold]
    decide
  · obtain ⟨p, -, hshape, herror⟩ := hbreak _ _ _ _ _ _ hbreaks rfl hbacked
    rw [chain?, herror, hshape]
    rfl

end NumericSteps.Matrix
