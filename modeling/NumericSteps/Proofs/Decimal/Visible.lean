import NumericSteps.Proofs.Decimal.ReadBack

namespace NumericSteps

/-- The characters that ASCII has a mark for. -/
def Visible (c : Char) : Prop := 32 < c.toNat ∧ c.toNat < 127

instance (c : Char) : Decidable (Visible c) := inferInstanceAs (Decidable (_ ∧ _))

namespace Visible

variable {c : Char}

theorem not_blank (h : Visible c) : Text.isBlank c = false := by
  obtain ⟨hl, hu⟩ := h
  simp only [Text.isBlank, Bool.or_eq_false_iff, Bool.and_eq_false_iff, decide_eq_false_iff_not,
    beq_eq_false_iff_ne]
  omega

theorem of_digit (h : c.isDigit = true) : Visible c := by
  rw [Char.isDigit, Bool.and_eq_true, decide_eq_true_iff, decide_eq_true_iff] at h
  have hl : 48 ≤ c.toNat := h.1
  have hu : c.toNat ≤ 57 := h.2
  exact ⟨by omega, by omega⟩

end Visible

namespace Numeral

variable {cs : List Char}

theorem visible_of_lower (h : ∀ c ∈ lower cs, Visible c) : ∀ c ∈ cs, Visible c := by
  intro c hc
  have hlow : Visible c.toLower := h _ (List.mem_map_of_mem hc)
  by_cases hupper : c.val ≥ 'A'.val ∧ c.val ≤ 'Z'.val
  · have hl : 65 ≤ c.toNat := hupper.1
    have hu : c.toNat ≤ 90 := hupper.2
    exact ⟨by omega, by omega⟩
  · have hsame : c.toLower = c := dif_neg hupper
    rwa [hsame] at hlow

theorem visible_of_sign (h : ∀ c ∈ (sign cs).2, Visible c) : ∀ c ∈ cs, Visible c := by
  unfold sign at h
  split at h
  · exact List.forall_mem_cons.2 ⟨by decide, h⟩
  · exact List.forall_mem_cons.2 ⟨by decide, h⟩
  · exact h

theorem visible_of_tail (h : tail cs ≠ none) : ∀ c ∈ cs, Visible c := by
  cases cs with
  | nil => simp
  | cons c cs =>
    rw [tail] at h
    split at h
    · rename_i hc
      dsimp only at h
      split at h
      · rename_i hdigits
        rw [List.forall_mem_cons]
        refine ⟨?_, visible_of_sign fun d hd => ?_⟩
        · rcases hc with rfl | rfl <;> decide
        · exact Visible.of_digit (List.all_eq_true.1 hdigits.2 d hd)
      · exact absurd rfl h
    · exact absurd rfl h

theorem visible_of_magnitude (h : magnitude cs ≠ none) : ∀ c ∈ cs, Visible c := by
  have hdigits (ds : List Char) : ∀ c ∈ ds.takeWhile Char.isDigit, Visible c := fun c hc =>
    Visible.of_digit (List.mem_takeWhile_imp hc)
  have hfraction {ds : List Char} (hrest : ∀ c ∈ (fraction ds).2, Visible c) : ∀ c ∈ ds, Visible c := by
    unfold fraction at hrest
    split at hrest
    · rename_i ds
      rw [List.forall_mem_cons, ← List.takeWhile_append_dropWhile (p := Char.isDigit) (l := ds),
        List.forall_mem_append]
      exact ⟨by decide, hdigits ds, hrest⟩
    · exact hrest
  unfold magnitude at h
  dsimp only at h
  split at h
  · exact absurd rfl h
  · have htail : tail (fraction (cs.dropWhile Char.isDigit)).2 ≠ none := by simpa using h
    rw [← List.takeWhile_append_dropWhile (p := Char.isDigit) (l := cs), List.forall_mem_append]
    exact ⟨hdigits cs, hfraction (visible_of_tail htail)⟩

/-- What is read as a number is a word. -/
theorem visible_of_read (h : read cs ≠ none) : ∀ c ∈ cs, Visible c := by
  have hreading : reading cs ≠ none := by simpa [read] using h
  refine visible_of_sign ?_
  unfold reading at hreading
  dsimp only at hreading
  split at hreading
  · rename_i hnan
    refine visible_of_lower ?_
    rw [hnan]
    simp [Visible]
  · split at hreading
    · rename_i hinf
      refine visible_of_lower ?_
      rcases hinf with hinf | hinf <;> rw [hinf] <;> simp [Visible]
    · exact visible_of_magnitude (by simpa using hreading)

end Numeral

namespace Scalar

theorem visible_chars (x : Float) : ∀ c ∈ chars x, Visible c := by
  apply Numeral.visible_of_read
  rw [read_chars]
  exact nofun

theorem chars_ne_nil (x : Float) : chars x ≠ [] := by
  intro h
  have hr := read_chars x
  rw [h] at hr
  cases hr

end Scalar

end NumericSteps
