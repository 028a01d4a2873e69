import NumericSteps.Proofs.Workspace.Staging

namespace NumericSteps

namespace Workspace

variable {w : Workspace} {d e : Disk} {r : Place}

/-- The staging file of a slot moves onto the name. -/
def moved (w : Workspace) (s : Slot) (F : String → Option Node) : String → Option Node :=
  Function.update (Function.update F (stagingName (w.names.name s)) none) (w.names.name s)
    (F (stagingName (w.names.name s)))

theorem folder_moved {s : Slot} {x : Node}
    (h : e.folder r (stagingName (w.names.name s)) = some x) :
    (e.move (r ++ [stagingName (w.names.name s)]) (r ++ [w.names.name s]) x).folder r =
      w.moved s (e.folder r) := by
  rw [Disk.folder_move, moved, h]

theorem run_takeOver_cons (hs : w.names.Sound) {s : Slot} (ss : List Slot) {b : Bytes}
    (hk : e.Names (w.stagingPath s) (r ++ [stagingName (w.names.name s)]))
    (hf : e.folder r (stagingName (w.names.name s)) = some (.file b)) :
    e.folder r (w.names.name s) = some .directory ∧
        (w.takeOver (s :: ss)).run e = (.error (fileFailure (w.path s) .isADirectory), e) ∨
      e.folder r (w.names.name s) ≠ some .directory ∧
        (w.takeOver (s :: ss)).run e = (w.takeOver ss).run
          (e.move (r ++ [stagingName (w.names.name s)]) (r ++ [w.names.name s]) (.file b)) := by
  have hq : e.Names (w.path s) (r ++ [w.names.name s]) := names_of_staging (hs.plain s) hk
  by_cases hd : e.folder r (w.names.name s) = some .directory
  · left
    have hp : (Change.rename (w.stagingPath s) (w.path s)).perform e = (.error .isADirectory, e) :=
      Change.perform_error (hk.rename_directory hq (by simp) hf hd)
    refine ⟨hd, ?_⟩
    rw [takeOver, Script.run, hp]
    rfl
  · right
    have hp : (Change.rename (w.stagingPath s) (w.path s)).perform e =
        (.ok (), e.move (r ++ [stagingName (w.names.name s)]) (r ++ [w.names.name s]) (.file b)) :=
      Change.perform_ok (hk.rename_file hq (by simp) hf hd)
    refine ⟨hd, ?_⟩
    rw [takeOver, Script.run, hp]

/-- From `F` to `G` the staging files of the slots have taken over their names, and nothing else
differs. -/
structure Taken (w : Workspace) (ss : List Slot) (F G : String → Option Node) : Prop where
  new : ∀ s ∈ ss, G (w.names.name s) = F (stagingName (w.names.name s))
  gone : ∀ s ∈ ss, G (stagingName (w.names.name s)) = none
  same : ∀ n, (∀ s ∈ ss, n ≠ w.names.name s ∧ n ≠ stagingName (w.names.name s)) → G n = F n

/-- No file of the table has the name of a staging file. -/
def Apart (w : Workspace) : Prop :=
  ∀ s t, w.names.name s ≠ stagingName (w.names.name t)

theorem Taken.cons (hs : w.names.Sound) (ha : w.Apart) {s : Slot} {ss : List Slot}
    {F G : String → Option Node} (hn : s ∉ ss) (h : w.Taken ss (w.moved s F) G) :
    w.Taken (s :: ss) F G := by
  have name (t : Slot) (ht : t ∈ ss) : w.names.name s ≠ w.names.name t := hs.name_ne hn ht
  have staging (t : Slot) (ht : t ∈ ss) :
      stagingName (w.names.name s) ≠ stagingName (w.names.name t) :=
    fun he => name t ht (stagingName_inj he)
  refine ⟨?_, ?_, ?_⟩
  · intro t ht
    rcases List.mem_cons.1 ht with rfl | ht
    · rw [h.same _ fun u hu => ⟨name u hu, ha t u⟩, moved, Function.update_self]
    · rw [h.new t ht, moved, Function.update_of_ne (ha s t).symm,
        Function.update_of_ne (staging t ht).symm]
  · intro t ht
    rcases List.mem_cons.1 ht with rfl | ht
    · rw [h.same _ fun u hu => ⟨(ha u t).symm, staging u hu⟩, moved,
        Function.update_of_ne (ha t t).symm, Function.update_self]
    · exact h.gone t ht
  · intro n hne
    rw [h.same n fun t ht => hne t (List.mem_cons_of_mem _ ht), moved,
      Function.update_of_ne (hne s List.mem_cons_self).1,
      Function.update_of_ne (hne s List.mem_cons_self).2]

/-- How far the staging files have taken over their names, and what stopped them. -/
structure Progress (w : Workspace) (r : Place) (e : Disk) (done rest : List Slot)
    (end_ : Except Failure Unit × Disk) : Prop where
  inside : Disk.Inside r e end_.2
  taken : w.Taken done (e.folder r) (end_.2.folder r)
  free : ∀ s ∈ done, e.folder r (w.names.name s) ≠ some .directory
  stop : rest = [] ∧ end_.1 = .ok () ∨ ∃ s rest', rest = s :: rest' ∧
    e.folder r (w.names.name s) = some .directory ∧
    end_.1 = .error (fileFailure (w.path s) .isADirectory)

theorem run_takeOver (hs : w.names.Sound) (ha : w.Apart) {ss : List Slot} (hn : ss.Nodup)
    (hk : ∀ s ∈ ss, e.Names (w.stagingPath s) (r ++ [stagingName (w.names.name s)]))
    (hf : ∀ s ∈ ss, ∃ b, e.folder r (stagingName (w.names.name s)) = some (.file b)) :
    ∃ done rest, ss = done ++ rest ∧ w.Progress r e done rest ((w.takeOver ss).run e) := by
  induction ss generalizing e with
  | nil => exact ⟨[], [], rfl, Disk.Inside.refl r e, ⟨by simp, by simp, fun _ _ => rfl⟩, by simp,
      Or.inl ⟨rfl, rfl⟩⟩
  | cons s ss ih =>
    rw [List.nodup_cons] at hn
    obtain ⟨b, hb⟩ := hf s List.mem_cons_self
    rcases run_takeOver_cons hs ss (hk s List.mem_cons_self) hb with ⟨hd, hrun⟩ | ⟨hd, hrun⟩
    · refine ⟨[], s :: ss, rfl, ?_⟩
      rw [hrun]
      exact ⟨Disk.Inside.refl r e, ⟨by simp, by simp, fun _ _ => rfl⟩, by simp,
        Or.inr ⟨s, ss, rfl, hd, rfl⟩⟩
    · have hi : Disk.Inside r e (e.move (r ++ [stagingName (w.names.name s)])
          (r ++ [w.names.name s]) (.file b)) := Disk.inside_move nofun (by simp [hb]) hd
      have hfold := folder_moved (w := w) (s := s) hb
      have keep (t : Slot) (ht : t ∈ ss) : w.moved s (e.folder r) (stagingName (w.names.name t)) =
          e.folder r (stagingName (w.names.name t)) := by
        rw [moved, Function.update_of_ne (ha s t).symm,
          Function.update_of_ne fun he => hs.name_ne hn.1 ht (stagingName_inj he).symm]
      obtain ⟨done, rest, hss, hp⟩ := ih hn.2
        (fun t ht => (hk t (List.mem_cons_of_mem _ ht)).of_sameFolders hi.folders)
        (fun t ht => by rw [hfold, keep t ht]; exact hf t (List.mem_cons_of_mem _ ht))
      refine ⟨s :: done, rest, by rw [hss]; rfl, ?_⟩
      rw [hrun]
      refine ⟨hi.trans hp.inside, ?_, ?_, ?_⟩
      · have ht := hp.taken
        rw [hfold] at ht
        refine ht.cons hs ha fun hm => hn.1 ?_
        rw [hss]
        exact List.mem_append_left _ hm
      · intro t ht
        rcases List.mem_cons.1 ht with rfl | ht
        · exact hd
        · exact fun he => hp.free t ht ((Disk.folder_eq_directory hi.folders _).2 he)
      · rcases hp.stop with hstop | ⟨t, rest', hr, hdir, hres⟩
        · exact Or.inl hstop
        · exact Or.inr ⟨t, rest', hr, (Disk.folder_eq_directory hi.folders _).1 hdir, hres⟩

end Workspace

end NumericSteps
