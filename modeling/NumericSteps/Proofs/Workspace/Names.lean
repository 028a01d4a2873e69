import Mathlib.Data.List.Nodup
import NumericSteps.Proofs.Workspace.Paths
import NumericSteps.Workspace.Names

namespace NumericSteps

namespace FileNames

variable {t : FileNames}

theorem plain_of_nameFault {s : Slot} {n : String} (h : nameFault s n = none) : Plain n := by
  unfold nameFault at h
  split at h
  · cases h
  · rename_i hb
    split at h
    · cases h
    · rename_i hs
      split at h
      · cases h
      · rename_i hd
        simp only [not_or] at hs hd
        refine ⟨hs.1, ?_, hd.1, hd.2⟩
        rintro rfl
        exact hb rfl

theorem checkSlots_ok {seen : List String} {ss : List Slot} :
    checkSlots t seen ss = .ok () ↔
      (∀ s ∈ ss, nameFault s (t.name s) = none ∧ t.name s ∉ seen) ∧ (ss.map t.name).Nodup := by
  induction ss generalizing seen with
  | nil => simp [checkSlots]
  | cons s ss ih =>
    unfold checkSlots
    cases hf : nameFault s (t.name s) with
    | some f => simp [hf]
    | none =>
      by_cases hs : t.name s ∈ seen
      · simp [hs]
      · simp only [hs, if_false, ih, List.map_cons, List.nodup_cons, List.mem_cons, not_or]
        constructor
        · rintro ⟨hr, hn⟩
          refine ⟨?_, ?_, hn⟩
          · intro r hrs
            rcases hrs with rfl | hrs
            · exact ⟨hf, hs⟩
            · exact ⟨(hr r hrs).1, (hr r hrs).2.2⟩
          · intro hm
            obtain ⟨r, hrs, he⟩ := List.mem_map.1 hm
            exact (hr r hrs).2.1 he
        · rintro ⟨hr, hm, hn⟩
          refine ⟨fun r hrs => ?_, hn⟩
          have h := hr r (Or.inr hrs)
          refine ⟨h.1, ?_, h.2⟩
          intro he
          exact hm (List.mem_map.2 ⟨r, hrs, he⟩)

/-- Plain names, no two of which are the same. -/
structure Sound (t : FileNames) : Prop where
  plain : ∀ s, Plain (t.name s)
  inj : ∀ {s r}, t.name s = t.name r → s = r

theorem Sound.name_ne (h : t.Sound) {s r : Slot} {ss : List Slot} (hs : s ∉ ss) (hr : r ∈ ss) :
    t.name s ≠ t.name r := by
  intro he
  rw [h.inj he] at hs
  exact hs hr

theorem sound_of_check (h : t.check = .ok ()) : t.Sound := by
  obtain ⟨hf, hn⟩ := checkSlots_ok.1 h
  refine ⟨fun s => plain_of_nameFault (hf s (Slot.mem_all s)).1, ?_⟩
  intro s r he
  exact List.inj_on_of_nodup_map hn (Slot.mem_all s) (Slot.mem_all r) he

theorem sound_of_validate (h : t.validate = .ok ()) : t.Sound :=
  sound_of_check (mapError_ok_iff.1 h)

theorem check_default : ({} : FileNames).check = .ok () := rfl

/-- No default name starts with the dot of a staging name. -/
theorem default_ne_stagingName (s r : Slot) :
    ({} : FileNames).name s ≠ Workspace.stagingName (({} : FileNames).name r) := by
  intro h
  have hl := congrArg (fun n : String => n.toList.head?) h
  rw [Workspace.toList_stagingName, List.head?_cons] at hl
  revert hl
  cases s <;> decide

end FileNames

end NumericSteps
