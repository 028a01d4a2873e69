import NumericSteps.Proofs.Disk.Folder
import NumericSteps.Proofs.Workspace.Names

namespace NumericSteps

theorem Change.perform_ok {c : Change} {d e : Disk} (h : c.apply d = .ok e) :
    c.perform d = (.ok (), e) := by
  rw [Change.perform, h]

theorem Change.perform_error {c : Change} {d : Disk} {f : OsFault} (h : c.apply d = .error f) :
    c.perform d = (.error f, d) := by
  rw [Change.perform, h]

namespace Workspace

open Text

variable {w : Workspace} {d e : Disk} {r : Place}

theorem seat_ok (h : w.seat d = .ok r) (k : Disk.SameFolders d e) : w.seat e = .ok r := by
  unfold seat at h ⊢
  rw [k.here]
  exact k.walk_ok h

/-- The directory of a workspace holds files and directories only. -/
def Regular (w : Workspace) (d : Disk) : Prop :=
  ∀ n full, d.look (w.file n) ≠ some (.device full)

theorem regular_of_entries (w : Workspace) (h : ∀ x ∈ d.entries, ∀ full, x.2 ≠ .device full) :
    w.Regular d := by
  intro n full hl
  obtain ⟨p, _, hp⟩ := Option.bind_eq_some_iff.1 hl
  unfold Disk.get? at hp
  split at hp
  · cases hp
  · obtain ⟨_, _, he, _⟩ := List.lookup_eq_some_iff.1 hp
    exact h (p, .device full) (by simp [he]) full rfl

/-- A workspace in the directory `r` at the top of a disk. -/
def top : Workspace := ⟨⟨["", "r"]⟩, {}⟩

/-- A disk with nothing but that directory and what is in it. -/
def topDisk (nodes : List (String × Node)) : Disk :=
  ⟨(["r"], .directory) :: nodes.map fun x => (["r", x.1], x.2), [], []⟩

theorem flatten_matrixLines (m : Matrix Float) : (matrixLines m).flatten = encode m.chars :=
  (encode_flatten m.rowLines).symm

theorem run_writeLines {path : Path} {p : Place} (h : d.Names path p)
    (hp : d.get? p ≠ some .directory) (old : Bytes) (lines : List Bytes) :
    (writeLines path lines).run (d.set p (.file old)) =
      (.ok (), d.set p (.file (old ++ lines.flatten))) := by
  induction lines generalizing old with
  | nil => simp [writeLines, Script.run]
  | cons line lines ih =>
    have hn : (d.set p (.file old)).Names path p :=
      h.of_sameFolders (Disk.sameFolders_set nofun hp)
    have hg : (d.set p (.file old)).get? p = some (.file old) := by
      rw [Disk.get?_set _ _ _ _ (Disk.ne_nil_of_get? hp), if_pos rfl]
    have hw : (Change.write path line).perform (d.set p (.file old)) =
        (.ok (), d.set p (.file (old ++ line))) := by
      apply Change.perform_ok
      rw [← Disk.set_set d p (.file old) (.file (old ++ line))]
      exact hn.write_file line hg
    rw [writeLines, Script.run, hw]
    simpa using ih (old ++ line)

theorem run_writeFile {path : Path} {p : Place} (h : d.Names path p)
    (hp : d.get? p = none ∨ ∃ b, d.get? p = some (.file b)) (lines : List Bytes) :
    (writeFile path lines).run d = (.ok (), d.set p (.file lines.flatten)) := by
  have hc : (Change.create path).perform d = (.ok (), d.set p (.file [])) := by
    apply Change.perform_ok
    rcases hp with hp | ⟨b, hp⟩
    · exact h.openWith_none _ hp
    · exact h.openWith_file _ hp
  have hd : d.get? p ≠ some .directory := by
    rcases hp with hp | ⟨b, hp⟩ <;> simp [hp]
  rw [writeFile, Script.run, hc]
  dsimp only
  rw [Script.run_bind, run_writeLines h hd]
  rfl

theorem run_writeFile_error {path : Path} {f : OsFault} (h : d.create path = .error f)
    (lines : List Bytes) : (writeFile path lines).run d = (.error (fileFailure path f), d) := by
  have hc : (Change.create path).perform d = (.error f, d) := Change.perform_error h
  rw [writeFile, Script.run, hc]
  rfl

/-- A file of the directory is either written in full, or the directory stays as it was. -/
theorem run_writeFile_cases {n : String} (hn : Plain n) (hr : w.Regular d) (lines : List Bytes) :
    (∃ r, w.seat d = .ok r ∧ d.Names (w.file n) (r ++ [n]) ∧
      d.folder r n ≠ some .directory ∧
      (writeFile (w.file n) lines).run d = (.ok (), d.set (r ++ [n]) (.file lines.flatten))) ∨
    ∃ f, (writeFile (w.file n) lines).run d = (.error (fileFailure (w.file n) f), d) := by
  cases hl : d.locate (w.file n) with
  | error f =>
    right
    refine ⟨f, run_writeFile_error ?_ lines⟩
    rw [Disk.create, Disk.openWith, hl]
  | ok t =>
    obtain ⟨_, r, hs, _, rfl⟩ := (locate_file_ok hn).1 hl
    have hk : d.Names (w.file n) (r ++ [n]) := hl
    cases hg : d.get? (r ++ [n]) with
    | none =>
      left
      exact ⟨r, hs, hk, by simp [Disk.folder, hg], run_writeFile hk (Or.inl hg) lines⟩
    | some x =>
      cases x with
      | file b =>
        left
        exact ⟨r, hs, hk, by simp [Disk.folder, hg], run_writeFile hk (Or.inr ⟨b, hg⟩) lines⟩
      | directory =>
        right
        exact ⟨.isADirectory, run_writeFile_error (hk.openWith_directory _ hg) lines⟩
      | device full =>
        exact absurd (hk.look.trans hg) (hr n full)

theorem regular_set {p : Place} {b : Bytes} (hr : w.Regular d) (hp : d.get? p ≠ some .directory) :
    w.Regular (d.set p (.file b)) := by
  intro n full hl
  have hk : Disk.SameFolders d (d.set p (.file b)) := Disk.sameFolders_set nofun hp
  rw [hk.look_eq] at hl
  have hd := hr n full
  unfold Disk.look at hd
  cases hq : d.place? (w.file n) with
  | none => simp [hq] at hl
  | some q =>
    simp only [hq, Option.bind_some] at hl hd
    rw [Disk.get?_set _ _ _ _ (Disk.ne_nil_of_get? hp)] at hl
    split at hl
    · cases hl
    · exact hd hl

/-- From `F` to `G` each entry has got a staging file with its text, and nothing else differs. -/
structure Staged (w : Workspace) (entries : List (Slot × Matrix Float))
    (F G : String → Option Node) : Prop where
  new : ∀ x ∈ entries, G (stagingName (w.names.name x.1)) = some (.file (encode x.2.chars))
  same : ∀ n, (∀ x ∈ entries, n ≠ stagingName (w.names.name x.1)) → G n = F n

theorem Staged.cons {x : Slot × Matrix Float} {entries : List (Slot × Matrix Float)}
    {F G : String → Option Node} (hs : w.names.Sound) (hx : x.1 ∉ entries.map Prod.fst)
    (h : w.Staged entries
      (Function.update F (stagingName (w.names.name x.1)) (some (.file (encode x.2.chars)))) G) :
    w.Staged (x :: entries) F G := by
  refine ⟨?_, ?_⟩
  · intro y hy
    rcases List.mem_cons.1 hy with rfl | hy
    · rw [h.same, Function.update_self]
      intro z hz he
      have hyz : y.1 = z.1 := hs.inj (stagingName_inj he)
      exact hx (hyz ▸ List.mem_map_of_mem hz)
    · exact h.new y hy
  · intro n hn
    rw [h.same n fun y hy => hn y (List.mem_cons_of_mem _ hy),
      Function.update_of_ne (hn x List.mem_cons_self)]

theorem run_stage_ok (hs : w.names.Sound) (hr : w.Regular d) (hd : w.seat d = .ok r)
    {staged : List Path} {entries : List (Slot × Matrix Float)}
    (hn : (entries.map Prod.fst).Nodup) (h : (w.stage staged entries).run d = (.ok (), e)) :
    Disk.Inside r d e ∧ w.Staged entries (d.folder r) (e.folder r) ∧
      ∀ x ∈ entries, d.Names (w.stagingPath x.1) (r ++ [stagingName (w.names.name x.1)]) := by
  induction entries generalizing staged d with
  | nil =>
    cases h
    exact ⟨Disk.Inside.refl r _, ⟨by simp, fun _ _ => rfl⟩, by simp⟩
  | cons x entries ih =>
    obtain ⟨s, m⟩ := x
    rw [List.map_cons, List.nodup_cons] at hn
    rw [stage, Script.run_bind] at h
    rcases run_writeFile_cases (w := w) (plain_stagingName (hs.plain s)) hr (matrixLines m) with
      ⟨r', hs', hk, hp, hw⟩ | ⟨f, hw⟩
    · rw [hd] at hs'
      cases hs'
      rw [stagingPath_eq, hw, flatten_matrixLines] at h
      have hi := Disk.inside_set (x := .file (encode m.chars)) nofun hp
      obtain ⟨hin, hst, hnm⟩ := ih (regular_set hr hp) (seat_ok hd hi.folders) hn.2 h
      rw [Disk.folder_set] at hst
      refine ⟨hi.trans hin, hst.cons hs hn.1, ?_⟩
      intro y hy
      rcases List.mem_cons.1 hy with rfl | hy
      · exact hk
      · exact (hnm y hy).of_sameFolders hi.folders.symm
    · rw [stagingPath_eq, hw, Script.run_bind] at h
      cases h

end Workspace

end NumericSteps
