import NumericSteps.Command.Run
import NumericSteps.Proofs.Matrix.Grammar
import NumericSteps.Proofs.Workspace.Files

namespace NumericSteps

open Text

/-- The name of the file at the end of a path; `.` pieces lead nowhere. -/
def Path.fileName (p : Path) : Option String := (p.route.filter (· ≠ ".")).getLast?

theorem Text.intercalate_concat {α : Type} (sep : α) {ps : List (List α)} (h : ps ≠ []) (p : List α) :
    [sep].intercalate (ps ++ [p]) = [sep].intercalate ps ++ sep :: p := by
  induction ps with
  | nil => exact absurd rfl h
  | cons q ps ih =>
    by_cases hps : ps = []
    · simp [hps]
    · rw [List.cons_append, List.intercalate_cons_of_ne_nil (by simp), ih hps,
        List.intercalate_cons_of_ne_nil hps]
      simp

/-- The extension of a file stands behind a dot at the end of its name. -/
theorem Path.suffix_of_extension {p : Path} {ext : String} (h : p.extension = some ext) :
    ∃ name, p.fileName = some name ∧ '.' :: ext.toList <:+ name.toList := by
  unfold extension at h
  split at h
  · cases h
  · rename_i name hname
    refine ⟨name, hname, ?_⟩
    split_ifs at h with hdots
    split at h
    · rename_i last stem hcut
      split_ifs at h with hstem
      cases h
      have hpieces : cut '.' name.toList = stem.reverse ++ [last] := by
        simpa using congrArg List.reverse hcut
      have hne : stem.reverse ≠ [] := fun he => hstem (Or.inl (List.reverse_eq_nil_iff.1 he))
      have hwhole := intercalate_cut '.' name.toList
      rw [hpieces, intercalate_concat '.' hne] at hwhole
      exact ⟨_, by simpa using hwhole⟩
    · cases h

namespace Matrix

variable {bytes : Bytes} {m : Matrix Float}

theorem decode_of_ofBytes (h : ofBytes bytes = .ok m) : decode bytes ≠ none :=
  decode_of_lined (lined_iff.2 rfl) ((exists_ofBytes_iff bytes).1 ⟨m, h⟩).text

end Matrix

namespace Command

open Workspace (run_readMatrix_bytes)

variable {path : Path} {d e : Disk} {bytes : Bytes} {w : Workspace} {s : Slot}

theorem isConfig_of_fileName
    (h : ∀ name, path.fileName = some name → ¬ ".toml".toList <:+ name.toList) :
    isConfig path = false := by
  rw [isConfig, beq_eq_false_iff_ne]
  intro hext
  obtain ⟨name, hname, hsuffix⟩ := path.suffix_of_extension hext
  exact h name hname hsuffix

theorem run_readMatrixFile_text {cs : List Char} (h : d.read path = .ok bytes)
    (hcs : decode bytes = some cs) : (readMatrixFile path).run d = (Matrix.ofBytes bytes, d) := by
  rw [readMatrixFile, Script.run_bind, Script.run_readText_text h hcs, ← encode_of_decode hcs]
  rfl

theorem run_readMatrixFile_notText (h : d.read path = .ok bytes) (hnone : decode bytes = none) :
    (readMatrixFile path).run d = (.error (.file path.text .notText), d) := by
  rw [readMatrixFile, Script.run_bind, Script.run_readText_notText h hnone]
  rfl

theorem run_check_matrix (hconfig : isConfig path = false) {r : Except Failure (Matrix Float)}
    (h : (readMatrixFile path).run d = (r, d)) :
    (check path).run d = (verdict "matrix" path (r.map validMatrix), d) := by
  rw [check, if_neg (by simp [hconfig]), Script.run_bind, h]
  rfl

theorem result_verdict (kind : String) (r : Except Failure (Matrix Float)) :
    (verdict kind path (r.map validMatrix)).result = .ok () ↔ ∃ m, r = .ok m := by
  cases r with
  | error g => simp [verdict, Except.map]
  | ok m => simp [verdict, Except.map]

/-- A file that is no table of settings is found valid exactly if the steps can read a matrix from its
bytes, and it is the same matrix. If the bytes are a text, they are also refused for the same reason. -/
theorem check_agrees_with_steps
    (hname : ∀ name, path.fileName = some name → ¬ ".toml".toList <:+ name.toList)
    (hpath : d.read path = .ok bytes) (hslot : e.read (w.path s) = .ok bytes) :
    (check path).run d =
        (verdict "matrix" path (((readMatrixFile path).run d).1.map validMatrix), d) ∧
      (((check path).run d).1.result = .ok () ↔ ∃ m, ((w.readMatrix s).run e).1 = .ok m) ∧
      (∀ m, ((readMatrixFile path).run d).1 = .ok m ↔ ((w.readMatrix s).run e).1 = .ok m) ∧
      (decode bytes ≠ none → ((readMatrixFile path).run d).1 = ((w.readMatrix s).run e).1) := by
  have hconfig := isConfig_of_fileName hname
  rw [run_readMatrix_bytes hslot]
  cases hcs : decode bytes with
  | some cs =>
    have hwhole := run_readMatrixFile_text hpath hcs
    rw [run_check_matrix hconfig hwhole, hwhole]
    exact ⟨rfl, result_verdict _ _, fun _ => Iff.rfl, fun _ => rfl⟩
  | none =>
    have hwhole := run_readMatrixFile_notText hpath hcs
    have hrefused : ∀ m, Matrix.ofBytes bytes ≠ .ok m := fun m hm => Matrix.decode_of_ofBytes hm hcs
    rw [run_check_matrix hconfig hwhole, hwhole]
    refine ⟨rfl, ?_, fun m => ?_, fun h => absurd rfl h⟩
    · simp [result_verdict, hrefused]
    · simp [hrefused]

/-- A file with a carriage return, a blank line and no end of its last line. -/
def mixedFile : Bytes := [49, 32, 50, 13, 10, 10, 51, 32, 52]

theorem check_agrees_with_steps_mixed :
    (∀ name, (Path.ofText "/r/given.txt").fileName = some name → ¬ ".toml".toList <:+ name.toList) ∧
      (Workspace.topDisk [("given.txt", .file mixedFile)]).read (.ofText "/r/given.txt") =
        .ok mixedFile ∧
      (Workspace.topDisk [("matrix_in", .file mixedFile)]).read (Workspace.top.path .matrixIn) =
        .ok mixedFile ∧
      ((readMatrixFile (.ofText "/r/given.txt")).run
        (Workspace.topDisk [("given.txt", .file mixedFile)])).1 = .ok ⟨2, 2, [1, 2, 3, 4]⟩ ∧
      ((Workspace.top.readMatrix .matrixIn).run
        (Workspace.topDisk [("matrix_in", .file mixedFile)])).1 = .ok ⟨2, 2, [1, 2, 3, 4]⟩ ∧
      ((check (.ofText "/r/given.txt")).run
        (Workspace.topDisk [("given.txt", .file mixedFile)])).1.result = .ok () := by
  have hname : ∀ name, (Path.ofText "/r/given.txt").fileName = some name →
      ¬ ".toml".toList <:+ name.toList := by
    intro name hname
    have hgiven : (Path.ofText "/r/given.txt").fileName = some "given.txt" := by decide +kernel
    obtain rfl : "given.txt" = name := Option.some.inj (hgiven.symm.trans hname)
    decide +kernel
  have hpath : (Workspace.topDisk [("given.txt", .file mixedFile)]).read (.ofText "/r/given.txt") =
      .ok mixedFile := by decide +kernel
  have hslot : (Workspace.topDisk [("matrix_in", .file mixedFile)]).read
      (Workspace.top.path .matrixIn) = .ok mixedFile := by decide +kernel
  have hwhole : ((readMatrixFile (.ofText "/r/given.txt")).run
      (Workspace.topDisk [("given.txt", .file mixedFile)])).1 = .ok ⟨2, 2, [1, 2, 3, 4]⟩ := by
    decide +kernel
  obtain ⟨-, hresult, hsame, -⟩ := check_agrees_with_steps hname hpath hslot
  have hlined := (hsame _).1 hwhole
  exact ⟨hname, hpath, hslot, hwhole, hlined, hresult.2 ⟨_, hlined⟩⟩

end Command

end NumericSteps
