import Mathlib.Logic.Function.Basic
import NumericSteps.Proofs.Disk.Effect

namespace NumericSteps

namespace Disk

variable {d e f : Disk} {r : Place}

/-- What stands under each name of a directory. -/
def folder (d : Disk) (r : Place) (n : String) : Option Node := d.get? (r ++ [n])

/-- No place outside the directory `r` differs, and no place has become a directory or ceased to
be one. -/
structure Inside (r : Place) (d e : Disk) : Prop where
  folders : SameFolders d e
  outside : ∀ p, (∀ n, p ≠ r ++ [n]) → e.get? p = d.get? p

theorem Inside.refl (r : Place) (d : Disk) : Inside r d d := ⟨SameFolders.refl d, fun _ _ => rfl⟩

theorem Inside.trans (h : Inside r d e) (k : Inside r e f) : Inside r d f :=
  ⟨h.folders.trans k.folders, fun p hp => (k.outside p hp).trans (h.outside p hp)⟩

/-- Where the directory has the same names, so has the whole disk. -/
theorem Inside.get?_eq (h : Inside r d e) {p : Place}
    (hp : ∀ n, p = r ++ [n] → e.folder r n = d.folder r n) : e.get? p = d.get? p := by
  by_cases hn : ∃ n, p = r ++ [n]
  · obtain ⟨n, rfl⟩ := hn
    exact hp n rfl
  · exact h.outside p fun n he => hn ⟨n, he⟩

theorem folder_eq_directory (h : SameFolders d e) (n : String) :
    e.folder r n = some .directory ↔ d.folder r n = some .directory := h.folder _

theorem folder_set (d : Disk) (r : Place) (n : String) (x : Node) :
    (d.set (r ++ [n]) x).folder r = Function.update (d.folder r) n (some x) := by
  funext m
  rw [folder, get?_set _ _ _ _ (by simp)]
  by_cases h : m = n
  · subst h
    simp
  · simp [h, folder]

theorem folder_move (d : Disk) (r : Place) (m n : String) (x : Node) :
    (d.move (r ++ [m]) (r ++ [n]) x).folder r =
      Function.update (Function.update (d.folder r) m none) n (some x) := by
  funext k
  rw [folder, get?_move _ _ _ (by simp) (by simp)]
  by_cases hn : k = n
  · subst hn
    simp
  · by_cases hm : k = m
    · subst hm
      simp [hn]
    · simp [hn, hm, folder]

theorem inside_set {n : String} {x : Node} (hx : x ≠ .directory)
    (hn : d.folder r n ≠ some .directory) : Inside r d (d.set (r ++ [n]) x) := by
  refine ⟨sameFolders_set hx hn, fun p hp => ?_⟩
  rw [get?_set _ _ _ _ (by simp), if_neg (hp n)]

theorem inside_move {m n : String} {x : Node} (hx : x ≠ .directory)
    (hm : d.folder r m ≠ some .directory) (hn : d.folder r n ≠ some .directory) :
    Inside r d (d.move (r ++ [m]) (r ++ [n]) x) := by
  refine ⟨sameFolders_move hx hm hn, fun p hp => ?_⟩
  rw [get?_move _ _ _ (by simp) (by simp), if_neg (hp n), if_neg (hp m)]

end Disk

end NumericSteps
