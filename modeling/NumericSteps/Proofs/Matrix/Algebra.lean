import Mathlib.Algebra.BigOperators.Ring.Finset
import Mathlib.Algebra.Ring.Int.Defs
import NumericSteps.Proofs.Matrix.Chain
import NumericSteps.Proofs.Matrix.Built

namespace NumericSteps.Matrix

section Brackets

variable {α : Type}

/-- A way to bracket the factors of a chain. -/
inductive Bracketing (α : Type)
  | factor (m : Matrix α)
  | pair (l r : Bracketing α)

namespace Bracketing

def factors : Bracketing α → List (Matrix α)
  | factor m => [m]
  | pair l r => l.factors ++ r.factors

/-- Multiplies from the inside out, and on the left first. -/
def evaluate [OfNat α 0] (times : Grid α → Grid α → Grid α) :
    Bracketing α → Option (Except Failure (Matrix α))
  | factor m => some (.ok m)
  | pair l r =>
    match l.evaluate times with
    | some (.ok a) =>
      match r.evaluate times with
      | some (.ok b) => multiplyWith? times a b
      | other => other
    | other => other

theorem exists_factors (t : Bracketing α) : ∃ first rest, t.factors = first :: rest := by
  induction t with
  | factor m => exact ⟨m, [], rfl⟩
  | pair l r ihl _ =>
    obtain ⟨first, rest, hl⟩ := ihl
    exact ⟨first, rest ++ r.factors, congrArg (· ++ r.factors) hl⟩

end Bracketing

end Brackets

variable {R : Type} [CommRing R] {times : Grid R → Grid R → Grid R} {a b c first l m r : Matrix R}
  {fs rest : List (Matrix R)} {i j : Nat}

/-- What is promised of a routine whose arithmetic is exact. -/
structure Sums (times : Grid R → Grid R → Grid R) : Prop where
  sides : OuterSides times
  entry : ∀ a b, a.cols = b.rows → ∀ i < a.rows, ∀ j < b.cols,
    (times a b).entry i j = ∑ k ∈ Finset.range a.cols, a.entry i k * b.entry k j

section Products

theorem identity_eq (n : Nat) : (identity n : Matrix R) = ofFn n n fun i j => if i = j then 1 else 0 := by
  have hlength : (List.replicate n (1 : R)).length = n := List.length_replicate
  rw [identity, diagonal, hlength]
  refine ofFn_congr fun i hi j _ => ?_
  have hone : (List.replicate n (1 : R)).getD i 0 = 1 := by
    rw [List.getD_eq_getElem?_getD, List.getElem?_replicate, if_pos hi, Option.getD_some]
  rw [hone]

theorem transpose_identity (n : Nat) : (identity n : Matrix R).transpose = identity n := by
  rw [identity_eq, transpose_ofFn]
  exact ofFn_congr fun i _ j _ => if_congr eq_comm rfl rfl

/-- The product, copied out of the layout of the routine. -/
theorem Sums.productWith_eq (htimes : Sums times) (h : l.cols = r.rows) :
    productWith times l r =
      ofFn l.rows r.cols fun i j => ∑ k ∈ Finset.range l.cols, l.entry i k * r.entry k j := by
  obtain ⟨hrows, hcols⟩ := htimes.sides l.grid r.grid h
  rw [productWith, Grid.copy, hrows, hcols]
  refine ofFn_congr fun i hi j hj => (htimes.entry l.grid r.grid h i hi j hj).trans ?_
  rw [grid_entry, grid_entry]
  rfl

theorem Sums.entry_productWith (htimes : Sums times) (h : l.cols = r.rows) (hi : i < l.rows)
    (hj : j < r.cols) :
    (productWith times l r).entry i j = ∑ k ∈ Finset.range l.cols, l.entry i k * r.entry k j := by
  rw [htimes.productWith_eq h, entry_ofFn _ hi hj]

/-- Rows and columns change places in a product if they do in its operands and these change places too. -/
theorem Sums.transpose_productWith (htimes : Sums times) (h : l.cols = r.rows) :
    (productWith times l r).transpose = productWith times r.transpose l.transpose := by
  have hsides : r.transpose.cols = l.transpose.rows := h.symm
  rw [htimes.productWith_eq h, transpose_ofFn, htimes.productWith_eq hsides]
  refine ofFn_congr fun j hj i hi => ?_
  change _ = ∑ k ∈ Finset.range r.rows, r.transpose.entry j k * l.transpose.entry k i
  rw [h]
  refine Finset.sum_congr rfl fun k hk => ?_
  have hk : k < r.rows := Finset.mem_range.1 hk
  rw [entry_transpose hk hj, entry_transpose hi (by rwa [h]), mul_comm]

theorem Sums.identity_productWith (htimes : Sums times) (h : m.WellFormed) :
    productWith times (identity m.rows) m = m := by
  rw [identity_eq, htimes.productWith_eq rfl]
  refine Eq.trans (ofFn_congr fun i (hi : i < m.rows) j hj => ?_) (ofFn_entry h)
  calc ∑ k ∈ Finset.range m.rows, (ofFn m.rows m.rows fun i j => if i = j then 1 else 0).entry i k *
        m.entry k j
    _ = ∑ k ∈ Finset.range m.rows, if i = k then m.entry k j else 0 := by
        refine Finset.sum_congr rfl fun k hk => ?_
        rw [entry_ofFn _ hi (Finset.mem_range.1 hk), ite_mul, one_mul, zero_mul]
    _ = m.entry i j := by rw [Finset.sum_ite_eq, if_pos (Finset.mem_range.2 hi)]

/-- From the other side by turning the product around twice. -/
theorem Sums.productWith_identity (htimes : Sums times) (h : m.WellFormed) :
    productWith times m (identity m.cols) = m := by
  have hside : m.cols = (identity m.cols : Matrix R).rows := by
    rw [identity_eq]
    rfl
  calc productWith times m (identity m.cols)
    _ = (productWith times m (identity m.cols)).transpose.transpose :=
        (transpose_transpose (wellFormed_productWith _ _ _)).symm
    _ = (productWith times (identity m.cols) m.transpose).transpose := by
        rw [htimes.transpose_productWith hside, transpose_identity]
    _ = m.transpose.transpose := congrArg transpose (htimes.identity_productWith (wellFormed_transpose m))
    _ = m := transpose_transpose h

theorem Sums.productWith_assoc (htimes : Sums times) (hab : a.cols = b.rows) (hbc : b.cols = c.rows) :
    productWith times (productWith times a b) c = productWith times a (productWith times b c) := by
  obtain ⟨hrows, hcols⟩ := htimes.sides.productWith hab
  obtain ⟨hrows', hcols'⟩ := htimes.sides.productWith hbc
  rw [htimes.productWith_eq (hcols.trans hbc), htimes.productWith_eq (hab.trans hrows'.symm), hrows,
    hcols, hcols']
  refine ofFn_congr fun i hi j hj => ?_
  calc ∑ k ∈ Finset.range b.cols, (productWith times a b).entry i k * c.entry k j
    _ = ∑ k ∈ Finset.range b.cols, ∑ n ∈ Finset.range a.cols,
          a.entry i n * b.entry n k * c.entry k j := by
        refine Finset.sum_congr rfl fun k hk => ?_
        rw [htimes.entry_productWith hab hi (Finset.mem_range.1 hk), Finset.sum_mul]
    _ = ∑ n ∈ Finset.range a.cols, ∑ k ∈ Finset.range b.cols,
          a.entry i n * b.entry n k * c.entry k j := Finset.sum_comm
    _ = ∑ n ∈ Finset.range a.cols, a.entry i n * (productWith times b c).entry n j := by
        refine Finset.sum_congr rfl fun n hn => ?_
        rw [htimes.entry_productWith hbc (hab ▸ Finset.mem_range.1 hn) hj, Finset.mul_sum]
        simp only [mul_assoc]

end Products

section Chains

/-- A factor before a chain goes into its first product. -/
theorem Sums.productWith_foldl (htimes : Sums times) (h : Linked (a :: b :: fs)) :
    productWith times a (fs.foldl (productWith times) b) =
      fs.foldl (productWith times) (productWith times a b) := by
  induction fs generalizing b with
  | nil => rfl
  | cons f fs ih =>
    obtain ⟨hab, hlinked⟩ := linked_cons_cons.1 h
    obtain ⟨hbf, hlinked⟩ := linked_cons_cons.1 hlinked
    obtain ⟨hrows, hcols⟩ := htimes.sides.productWith hbf
    have hnext : Linked (a :: productWith times b f :: fs) :=
      linked_cons_cons.2 ⟨hab.trans hrows.symm, hlinked.of_cols hcols⟩
    rw [List.foldl_cons, List.foldl_cons, ih hnext, htimes.productWith_assoc hab hbf]

/-- However the factors are bracketed, they give what they give from the left. -/
theorem Sums.evaluate_eq (htimes : Sums times) {t : Bracketing R} (ht : t.factors = first :: rest)
    (hfs : ∀ f ∈ first :: rest, f.Backed) (hlinked : Linked (first :: rest)) :
    t.evaluate times = some (.ok (rest.foldl (productWith times) first)) := by
  induction t generalizing first rest with
  | factor m =>
    cases ht
    rfl
  | pair l r ihl ihr =>
    obtain ⟨f, fs, hl⟩ := l.exists_factors
    obtain ⟨g, gs, hr⟩ := r.exists_factors
    have hsplit : first :: rest = f :: fs ++ g :: gs := by
      rw [← ht, ← hl, ← hr]
      rfl
    obtain ⟨rfl, rfl⟩ : first = f ∧ rest = fs ++ g :: gs := List.cons.inj hsplit
    rw [hsplit] at hfs hlinked
    obtain ⟨hleft, hside, hright⟩ := linked_append.1 hlinked
    obtain ⟨hfront, hback⟩ := List.forall_mem_append.1 hfs
    have hcols : (fs.foldl (productWith times) first).cols = g.rows :=
      (congrArg Prod.snd (shape_foldl htimes.sides hleft)).trans hside
    have hrows : (gs.foldl (productWith times) g).rows = g.rows :=
      congrArg Prod.fst (shape_foldl htimes.sides hright)
    simp only [Bracketing.evaluate, ihl hl hfront hleft, ihr hr hback hright]
    rw [multiplyWith?_ok (backed_foldl (hfront first List.mem_cons_self))
        (backed_foldl (hback g List.mem_cons_self)) (hcols.trans hrows.symm),
      htimes.productWith_foldl (linked_cons_cons.2 ⟨hcols, hright⟩), List.foldl_append, List.foldl_cons]

end Chains

section OwnRoutine

theorem dot_range (f g : Nat → R) (n : Nat) :
    dot ((List.range n).map f) ((List.range n).map g) = ∑ k ∈ Finset.range n, f k * g k := by
  rw [dot, List.zipWith_map, List.zipWith_self]
  induction n with
  | zero => rfl
  | succ n ih =>
    rw [List.range_succ, List.map_append, List.foldl_append, ih, Finset.sum_range_succ]
    rfl

theorem sums_times : Sums (Grid.times (α := R)) where
  sides := outerSides_times
  entry a b h i _ j _ := by
    change dot ((List.range a.cols).map (a.entry i)) ((List.range b.rows).map (b.entry · j)) = _
    rw [← h, dot_range]

end OwnRoutine

/-- Every element of a product is the sum of the products of a row and a column. From it follow the laws of
transposition, of the identity matrices and of brackets. -/
theorem multiply_laws (htimes : Sums times) :
    (∀ l r : Matrix R, l.Backed → r.Backed → l.cols = r.rows →
      ∃ p, multiplyWith? times l r = some (.ok p) ∧ p.shape = (l.rows, r.cols) ∧
        (∀ i < l.rows, ∀ j < r.cols,
          p.get? i j = some (∑ k ∈ Finset.range l.cols, l.entry i k * r.entry k j)) ∧
        multiplyWith? times r.transpose l.transpose = some (.ok p.transpose)) ∧
    (∀ m : Matrix R, m.WellFormed → multiplyWith? times (identity m.rows) m = some (.ok m) ∧
      multiplyWith? times m (identity m.cols) = some (.ok m)) ∧
    ∀ t : Bracketing R, (∀ f ∈ t.factors, f.Backed) → Linked t.factors →
      ∃ p, chainWith? times t.factors = some (.ok p) ∧ t.evaluate times = some (.ok p) := by
  refine ⟨?_, ?_, ?_⟩
  · intro l r hl hr hside
    obtain ⟨hrows, hcols⟩ := htimes.sides.productWith hside
    refine ⟨_, multiplyWith?_ok hl hr hside, Prod.ext hrows hcols, ?_, ?_⟩
    · intro i hi j hj
      rw [get?_eq_entry (wellFormed_productWith _ _ _).backed (by rwa [hrows]) (by rwa [hcols]),
        htimes.entry_productWith hside hi hj]
    · rw [multiplyWith?_ok (wellFormed_transpose r).backed (wellFormed_transpose l).backed hside.symm,
        htimes.transpose_productWith hside]
  · intro m hm
    have hbacked (n : Nat) : (identity n : Matrix R).Backed := (wellFormed_identity n).backed
    have hshape (n : Nat) : (identity n : Matrix R).shape = (n, n) := by
      rw [identity_eq]
      rfl
    constructor
    · rw [multiplyWith?_ok (hbacked _) hm.backed (congrArg Prod.snd (hshape m.rows)),
        htimes.identity_productWith hm]
    · rw [multiplyWith?_ok hm.backed (hbacked _) (congrArg Prod.fst (hshape m.cols)).symm,
        htimes.productWith_identity hm]
  · intro t hfs hlinked
    obtain ⟨first, rest, ht⟩ := t.exists_factors
    rw [ht] at hfs hlinked ⊢
    exact ⟨_, chainWith?_of_linked htimes.sides hfs hlinked, htimes.evaluate_eq ht hfs hlinked⟩

/-- Integers in a matrix that is not square, and in one without rows. -/
theorem multiply_laws_int :
    Sums (Grid.times (α := Int)) ∧
      (∃ p : Matrix Int, multiply? ⟨2, 3, [1, 2, 3, 4, 5, 6]⟩ ⟨3, 1, [1, 0, -1]⟩ = some (.ok p) ∧
        p.shape = (2, 1) ∧ p.get? 1 0 = some (-2) ∧
        multiply? ⟨1, 3, [1, 0, -1]⟩ ⟨3, 2, [1, 4, 2, 5, 3, 6]⟩ = some (.ok p.transpose)) ∧
      multiply? (identity 0) (⟨0, 3, []⟩ : Matrix Int) = some (.ok ⟨0, 3, []⟩) ∧
      multiply? ⟨0, 3, []⟩ (identity 3 : Matrix Int) = some (.ok ⟨0, 3, []⟩) ∧
      Linked [(⟨2, 1, [1, 2]⟩ : Matrix Int), ⟨1, 3, [3, 4, 5]⟩, ⟨3, 0, []⟩] ∧
      ∃ p : Matrix Int, chain? [⟨2, 1, [1, 2]⟩, ⟨1, 3, [3, 4, 5]⟩, ⟨3, 0, []⟩] = some (.ok p) ∧
        (Bracketing.pair (.factor ⟨2, 1, [1, 2]⟩)
          (.pair (.factor ⟨1, 3, [3, 4, 5]⟩) (.factor ⟨3, 0, []⟩))).evaluate Grid.times =
            some (.ok p) := by
  obtain ⟨hproduct, hneutral, hbrackets⟩ := multiply_laws (sums_times (R := Int))
  have hlinked : Linked [(⟨2, 1, [1, 2]⟩ : Matrix Int), ⟨1, 3, [3, 4, 5]⟩, ⟨3, 0, []⟩] := by simp [Linked]
  refine ⟨sums_times, ?_, ?_, ?_, hlinked, ?_⟩
  · obtain ⟨p, hp, hshape, hget, hturned⟩ :=
      hproduct ⟨2, 3, [1, 2, 3, 4, 5, 6]⟩ ⟨3, 1, [1, 0, -1]⟩ (by decide) (by decide) rfl
    exact ⟨p, hp, hshape, hget 1 (by decide) 0 (by decide), hturned⟩
  · exact (hneutral ⟨0, 3, []⟩ rfl).1
  · exact (hneutral ⟨0, 3, []⟩ rfl).2
  · obtain ⟨p, hp, hevaluate⟩ := hbrackets (.pair (.factor ⟨2, 1, [1, 2]⟩)
      (.pair (.factor ⟨1, 3, [3, 4, 5]⟩) (.factor ⟨3, 0, []⟩))) (by decide) hlinked
    exact ⟨p, hp, hevaluate⟩

end NumericSteps.Matrix
