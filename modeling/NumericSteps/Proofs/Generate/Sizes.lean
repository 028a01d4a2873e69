import Mathlib.Logic.Function.Iterate
import NumericSteps.Proofs.Matrix.ReadBack
import NumericSteps.Step.Generate

namespace NumericSteps

namespace Random

variable {σ : Type} {next : σ → Float × σ} {s : σ}

/-- The source after so many draws. -/
def after (next : σ → Float × σ) (k : Nat) (s : σ) : σ := (fun s => (next s).2)^[k] s

/-- The number that a source gives after `k` others. -/
def nth (next : σ → Float × σ) (s : σ) (k : Nat) : Float := (next (after next k s)).1

theorem after_succ (k : Nat) : after next (k + 1) s = after next k (next s).2 :=
  Function.iterate_succ_apply _ _ _

theorem nth_succ (k : Nat) : nth next s (k + 1) = nth next (next s).2 k := by
  rw [nth, nth, after_succ]

/-- A draw takes the numbers of the source in their order, and no more than it was asked for. -/
theorem draw_eq (next : σ → Float × σ) (n : Nat) (s : σ) :
    draw next n s = ((List.range n).map (nth next s), after next n s) := by
  induction n generalizing s with
  | zero => rfl
  | succ n ih =>
    have htail : (List.range n).map (nth next (next s).2) =
        ((List.range n).map Nat.succ).map (nth next s) := by
      rw [List.map_map]
      exact List.map_congr_left fun k _ => (nth_succ k).symm
    rw [draw, ih, after_succ, List.range_succ_eq_map, List.map_cons, ← htail]
    rfl

end Random

namespace Generate

variable {σ : Type} {next : σ → Float × σ} {n k : Nat} {s : σ}

/-- The number of values is no 64-bit size, or that of their bytes is no signed one. -/
def TooLarge (n : Nat) : Prop := 2 ^ 64 ≤ n * n ∨ 2 ^ 63 - 1 < n * n * 8

/-- The first values of a source as the rows of a square. -/
def drawn (next : σ → Float × σ) (n : Nat) (s : σ) : Matrix Float :=
  ⟨n, n, (List.range (n * n)).map (Random.nth next s)⟩

/-- The bytes decide long before the number of values does. -/
theorem tooLarge_iff : TooLarge n ↔ 2 ^ 30 ≤ n := by
  constructor
  · intro h
    by_contra hn
    have hle : n ≤ 2 ^ 30 - 1 := by omega
    have hsquare : n * n ≤ (2 ^ 30 - 1) * (2 ^ 30 - 1) := Nat.mul_le_mul hle hle
    rcases h with h | h <;> omega
  · intro h
    have hsquare : 2 ^ 30 * 2 ^ 30 ≤ n * n := Nat.mul_le_mul h h
    right
    omega

theorem TooLarge.mono (hk : TooLarge k) (hle : k ≤ n) : TooLarge n :=
  tooLarge_iff.2 ((tooLarge_iff.1 hk).trans hle)

theorem generate_of_tooLarge (h : TooLarge n) :
    generate next n s = (.error (.tooLarge n n), s) := by
  unfold generate
  split
  · rfl
  · rename_i length hlength
    obtain ⟨rfl, hsize⟩ := Size.mul?_eq_some.1 hlength
    have hfits : ¬Size.fits (n * n) = true := by
      rw [Size.fits_iff]
      rcases h with h | h
      · exact absurd hsize (Nat.not_lt.2 h)
      · exact Nat.not_le.2 h
    rw [if_neg hfits]

/-- The buffer that was drawn has the length that the constructor of matrices checks. -/
theorem generate_of_fitting (h : ¬TooLarge n) :
    generate next n s = (.ok (drawn next n s), Random.after next (n * n) s) := by
  obtain ⟨hproduct, hbytes⟩ := not_or.1 h
  have hmul : Size.mul? n n = some (n * n) := Size.mul?_of_lt (Nat.not_le.1 hproduct)
  have hfits : Size.fits (n * n) = true := Size.fits_iff.2 (Nat.not_lt.1 hbytes)
  have hfill : Matrix.ofData n n ((List.range (n * n)).map (Random.nth next s)) =
      .ok (drawn next n s) := by
    rw [Matrix.ofData, if_pos]
    · rfl
    · rw [List.length_map, List.length_range, hmul]
  rw [generate, hmul]
  dsimp only
  rw [if_pos hfits, Random.draw_eq, hfill]

theorem solid_drawn : (drawn next n s).Solid where
  wellFormed := by simp [drawn, Matrix.WellFormed]
  empty := Iff.rfl

theorem get?_drawn {i j : Nat} (hi : i < n) (hj : j < n) :
    (drawn next n s).get? i j = some (Random.nth next s (i * n + j)) := by
  have hrow : (i + 1) * n ≤ n * n := Nat.mul_le_mul_right n hi
  rw [Nat.succ_mul] at hrow
  rw [Matrix.get?, if_pos ⟨hi, hj⟩]
  change ((List.range (n * n)).map (Random.nth next s))[i * n + j]? = _
  rw [List.getElem?_map, List.getElem?_range (by omega), Option.map_some]

theorem prefix_drawn (h : k ≤ n) : (drawn next k s).data <+: (drawn next n s).data := by
  refine List.IsPrefix.map _ ?_
  rw [List.prefix_iff_eq_take, List.length_range, List.take_range,
    Nat.min_eq_left (Nat.mul_le_mul h h)]

/-- What comes out of a run is read back as what the run returned. -/
theorem run_of_fitting (h : ¬TooLarge n) :
    run next n s = ⟨.ok (drawn next n s), [written n], (drawn next n s).chars⟩ ∧
      Matrix.ofText (run next n s).output = .ok (drawn next n s) := by
  have hrun : run next n s = ⟨.ok (drawn next n s), [written n], (drawn next n s).chars⟩ := by
    rw [run, generate_of_fitting h]
  refine ⟨hrun, ?_⟩
  rw [hrun]
  exact Matrix.ofBytes_encode solid_drawn

/-- Either the size is too large, and neither the source nor the output is touched, or the square
is filled with as many values of the source as it has places, and goes out as it is. -/
theorem generate_every_size (next : σ → Float × σ) (n : Nat) (s : σ) :
    (TooLarge n ∧ generate next n s = (.error (.tooLarge n n), s) ∧
        ∀ (τ : Type) (o : Output τ) (t : τ),
          runTo next n s o t = (.failed (.tooLarge n n) [], t)) ∨
      (¬TooLarge n ∧ generate next n s = (.ok (drawn next n s), Random.after next (n * n) s) ∧
        (∀ i < n, ∀ j < n,
          (drawn next n s).get? i j = some (Random.nth next s (i * n + j))) ∧
        (∀ k ≤ n, ∃ m, (generate next k s).1 = .ok m ∧ m.data <+: (drawn next n s).data) ∧
        run next n s = ⟨.ok (drawn next n s), [written n], (drawn next n s).chars⟩ ∧
        Matrix.ofText (run next n s).output = .ok (drawn next n s)) := by
  by_cases h : TooLarge n
  · refine Or.inl ⟨h, generate_of_tooLarge h, fun τ o t => ?_⟩
    rw [runTo, generate_of_tooLarge h]
  · refine Or.inr ⟨h, generate_of_fitting h, fun i hi j hj => get?_drawn hi hj, ?_,
      run_of_fitting h⟩
    intro k hk
    have hsmaller : ¬TooLarge k := fun hlarge => h (hlarge.mono hk)
    exact ⟨drawn next k s, by rw [generate_of_fitting hsmaller], prefix_drawn hk⟩

/-- A source that counts fills two rows of two, and is left alone by a square too large. -/
theorem generate_every_size_counting :
    generate (fun x : Float => (x, x + 1)) 2 1 = (.ok ⟨2, 2, [1, 2, 3, 4]⟩, 5) ∧
      Matrix.ofText (run (fun x : Float => (x, x + 1)) 2 1).output = .ok ⟨2, 2, [1, 2, 3, 4]⟩ ∧
      generate (fun x : Float => (x, x + 1)) (2 ^ 30) 1 =
        (.error (.tooLarge (2 ^ 30) (2 ^ 30)), 1) := by
  have hdrawn : drawn (fun x : Float => (x, x + 1)) 2 1 = ⟨2, 2, [1, 2, 3, 4]⟩ := by
    decide +kernel
  have hafter : Random.after (fun x : Float => (x, x + 1)) (2 * 2) 1 = 5 := by decide +kernel
  have hsmall := generate_every_size (fun x : Float => (x, x + 1)) 2 1
  have hlarge := generate_every_size (fun x : Float => (x, x + 1)) (2 ^ 30) 1
  rw [hdrawn, hafter] at hsmall
  rcases hsmall with ⟨htwo, -⟩ | ⟨-, htwo, -, -, -, hread⟩
  · exact absurd (tooLarge_iff.1 htwo) (by decide)
  · rcases hlarge with ⟨-, hrefused, -⟩ | ⟨hfit, -⟩
    · exact ⟨htwo, hread, hrefused⟩
    · exact absurd (tooLarge_iff.2 le_rfl) hfit

end Generate

end NumericSteps
