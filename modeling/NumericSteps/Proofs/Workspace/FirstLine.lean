import NumericSteps.Proofs.Workspace.Files
import NumericSteps.Proofs.Workspace.Staging

namespace NumericSteps

namespace Workspace

open Script Text

variable {w : Workspace} {s : Slot} {d e : Disk} {p rest rest' : Bytes}

/-- A number that cannot be made out is not told with a file. -/
theorem ofText_ne_file (cs : List Char) (path : String) (f : OsFault) :
    Scalar.ofText cs ≠ .error (.file path f) := by
  intro h
  rcases Scalar.error_of_ofText h with he | ⟨token, he⟩ <;> cases he

/-- What is read from a file with a line feed in it, of which only the lines in front of it and behind
it have to be texts. -/
theorem run_readScalar_feed (hp : lineFeed ∉ p) (h : d.read (w.path s) = .ok (p ++ lineFeed :: rest)) :
    ((w.readScalar s).run d).1 =
      match decode p, decode rest with
      | some l, some _ => Scalar.ofText l
      | _, _ => .error (.file (w.path s).text .notText) := by
  rw [run_readScalar]
  have hdecode := decode_append_lineFeed hp rest
  cases hl : decode p with
  | none =>
    rw [hl] at hdecode
    rw [run_readText_notText h hdecode]
    rfl
  | some l =>
    cases hr : decode rest with
    | none =>
      rw [hl, hr] at hdecode
      rw [run_readText_notText h hdecode]
      rfl
    | some r =>
      have hline : '\n' ∉ l := by
        rwa [← lineFeed_mem_encode_iff, encode_of_decode hl]
      rw [hl, hr] at hdecode
      rw [run_readText_text h hdecode]
      change Scalar.ofText (l ++ '\n' :: r) = Scalar.ofText l
      rw [Scalar.ofText_of_first hline (Or.inr ⟨r, rfl⟩), Scalar.ofText_of_first hline (Or.inl rfl)]

/-- Two files with the same first line are read as the same number, or refused for the same reason, if
the line is no text, and else just if what follows it is a text in both or in neither. -/
theorem first_line_decides_iff (hp : lineFeed ∉ p)
    (hd : d.read (w.path s) = .ok (p ++ lineFeed :: rest))
    (he : e.read (w.path s) = .ok (p ++ lineFeed :: rest')) :
    ((w.readScalar s).run d).1 = ((w.readScalar s).run e).1 ↔
      decode p = none ∨ (decode rest = none ↔ decode rest' = none) := by
  rw [run_readScalar_feed hp hd, run_readScalar_feed hp he]
  cases decode p with
  | none => simp
  | some l =>
    have hfile := ofText_ne_file l (w.path s).text .notText
    cases decode rest <;> cases decode rest' <;> simp [hfile, hfile.symm]

/-- Behind a number stand words of another script, or nothing. -/
theorem first_line_decides_iff_umlauts :
    lineFeed ∉ encode "-0.5 ".toList ∧
      (topDisk [("grad", .file (encode "-0.5 \n".toList))]).read (top.path .grad) =
        .ok (encode "-0.5 ".toList ++ lineFeed :: []) ∧
      (topDisk [("grad", .file (encode "-0.5 \nüber 2".toList))]).read (top.path .grad) =
        .ok (encode "-0.5 ".toList ++ lineFeed :: encode "über 2".toList) ∧
      ((top.readScalar .grad).run (topDisk [("grad", .file (encode "-0.5 \n".toList))])).1 =
        ((top.readScalar .grad).run (topDisk [("grad", .file (encode "-0.5 \nüber 2".toList))])).1 := by
  have hline : lineFeed ∉ encode "-0.5 ".toList := by decide
  have hd : (topDisk [("grad", .file (encode "-0.5 \n".toList))]).read (top.path .grad) =
      .ok (encode "-0.5 ".toList ++ lineFeed :: []) := by decide +kernel
  have he : (topDisk [("grad", .file (encode "-0.5 \nüber 2".toList))]).read (top.path .grad) =
      .ok (encode "-0.5 ".toList ++ lineFeed :: encode "über 2".toList) := by decide +kernel
  have hnothing : decode [] = some [] := decode_encode []
  refine ⟨hline, hd, he, (first_line_decides_iff hline hd he).2 (Or.inr ?_)⟩
  rw [hnothing, decode_encode]
  simp

/-- A byte behind the line that is no text keeps the number from being read. -/
theorem not_first_line_decides :
    ¬ ∀ (w : Workspace) (s : Slot) (d e : Disk) (p rest rest' : Bytes), lineFeed ∉ p →
      d.read (w.path s) = .ok (p ++ lineFeed :: rest) →
      e.read (w.path s) = .ok (p ++ lineFeed :: rest') →
      ((w.readScalar s).run d).1 = ((w.readScalar s).run e).1 := by
  intro h
  let d : Disk := topDisk [("approx_old", .file [49, 10])]
  let e : Disk := topDisk [("approx_old", .file [49, 10, 255])]
  have hd : d.read (top.path .approxOld) = .ok ([49] ++ lineFeed :: []) := by decide +kernel
  have he : e.read (top.path .approxOld) = .ok ([49] ++ lineFeed :: [255]) := by decide +kernel
  have hsame := h top .approxOld d e [49] [] [255] (by decide) hd he
  have hone : ((top.readScalar .approxOld).run d).1 = .ok 1 := by decide +kernel
  have hnone : ((top.readScalar .approxOld).run e).1 =
      .error (.file (top.path .approxOld).text .notText) := by decide +kernel
  rw [hone, hnone] at hsame
  cases hsame

end Workspace

end NumericSteps
