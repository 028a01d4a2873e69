import NumericSteps.Disk.Appender
import NumericSteps.Proofs.Disk.Content

namespace NumericSteps.Appender

variable {a : Appender} {p : Place} {d : Disk} {text front piece : Bytes}

/-- The file at the place and what waits for it make up the text. -/
structure Stands (a : Appender) (p : Place) (text : Bytes) (d : Disk) : Prop where
  held : d.held.lookup a.handle = some p
  made : ∃ front, d.get? p = some (.file front) ∧ front ++ a.waiting = text

/-- The script works, and then the file and what waits for it make up the text. -/
def Leaves (s : Script (Except OsFault Unit × Appender)) (p : Place) (text : Bytes) (d : Disk) : Prop :=
  ∃ a e, s.run d = ((.ok (), a), e) ∧ a.Stands p text e ∧ Disk.SameFolders d e

theorem perform_writeHeld {handle : Nat} (hheld : d.held.lookup handle = some p)
    (hfile : d.get? p = some (.file front)) (bytes : Bytes) :
    (Change.writeHeld handle bytes).perform d = (.ok (), d.set p (.file (front ++ bytes))) := by
  have happly : (Change.writeHeld handle bytes).apply d = .ok (d.set p (.file (front ++ bytes))) := by
    simp [Change.apply, Disk.writeHeld, Disk.append, hheld, hfile]
  rw [Change.perform, happly]

/-- What is written comes behind what the file holds, whatever then waits for it. -/
theorem stands_set (hheld : d.held.lookup a.handle = some p) (hfile : d.get? p = some (.file front))
    (bytes : Bytes) :
    a.Stands p (front ++ bytes ++ a.waiting) (d.set p (.file (front ++ bytes))) ∧
      Disk.SameFolders d (d.set p (.file (front ++ bytes))) := by
  have hnot : d.get? p ≠ some .directory := by simp [hfile]
  have hp : p ≠ [] := Disk.ne_nil_of_get? hnot
  refine ⟨⟨hheld, front ++ bytes, ?_, rfl⟩, ?_⟩
  · simp [Disk.get?_set d p p _ hp]
  · exact Disk.sameFolders_set (by simp) hnot

theorem run_flush (h : a.Stands p text d) :
    ∃ e, a.flush.run d = ((.ok (), { a with waiting := [] }), e) ∧
      Stands { a with waiting := [] } p text e ∧ Disk.SameFolders d e := by
  obtain ⟨front, hfile, rfl⟩ := h.made
  by_cases hempty : a.waiting = []
  · have hsame : ({ a with waiting := [] } : Appender) = a := by rw [← hempty]
    rw [hsame]
    exact ⟨d, by simp [flush, hempty, Script.run_done], h, Disk.SameFolders.refl d⟩
  · have hwrite := perform_writeHeld h.held hfile a.waiting
    have hafter := stands_set (a := { a with waiting := [] }) h.held hfile a.waiting
    rw [List.append_nil] at hafter
    exact ⟨_, by simp [flush, hempty, Script.run, hwrite], hafter⟩

/-- A piece that goes straight to the file must not overtake what waits. -/
theorem leaves_put (h : a.Stands p text d) (hroom : piece.length < capacity ∨ a.waiting = []) :
    Leaves (a.put piece) p (text ++ piece) d := by
  obtain ⟨front, hfile, rfl⟩ := h.made
  unfold put
  split
  · refine ⟨{ a with waiting := a.waiting ++ piece }, d, rfl, ⟨h.held, front, hfile, ?_⟩,
      Disk.SameFolders.refl d⟩
    simp
  · rename_i hlong
    have hempty : a.waiting = [] := hroom.resolve_left hlong
    have hwrite := perform_writeHeld h.held hfile piece
    have hafter := stands_set h.held hfile piece
    refine ⟨a, d.set p (.file (front ++ piece)), by simp [Script.run, hwrite], ?_⟩
    simpa [hempty] using hafter

theorem leaves_add (h : a.Stands p text d) (piece : Bytes) :
    Leaves (a.add piece) p (text ++ piece) d := by
  unfold add
  split
  · rename_i hfits
    apply leaves_put h
    by_cases hempty : a.waiting = []
    · exact Or.inr hempty
    · have hpos : 0 < a.waiting.length := List.length_pos_iff.2 hempty
      exact Or.inl (by omega)
  · obtain ⟨e, hflush, hstands, hfolders⟩ := run_flush h
    have hfinal : Leaves (({ a with waiting := [] } : Appender).put piece) p (text ++ piece) e :=
      leaves_put hstands (Or.inr rfl)
    obtain ⟨b, f, hput, hafter, hfolders'⟩ := hfinal
    refine ⟨b, f, ?_, hafter, hfolders.trans hfolders'⟩
    rw [Script.run_bind, hflush]
    exact hput

/-- A line is added with its end. -/
theorem leaves_addLine (h : a.Stands p text d) (line : Bytes) :
    Leaves (a.addLine line) p (text ++ (line ++ [Text.lineFeed])) d := by
  obtain ⟨b, e, hline, hstands, hfolders⟩ := leaves_add h line
  obtain ⟨c, f, hend, hafter, hfolders'⟩ := leaves_add hstands [Text.lineFeed]
  rw [List.append_assoc] at hafter
  refine ⟨c, f, ?_, hafter, hfolders.trans hfolders'⟩
  rw [addLine, Script.run_bind, hline]
  exact hend

/-- A file that is opened for additions is made if it is missing, and keeps what it holds. -/
theorem run_openAt {path : Path} {old : Bytes} (handle : Nat) (hp : d.Names path p)
    (hold : d.Content path old) :
    ∃ e, (openAt handle path).run d = (.ok ⟨handle, []⟩, e) ∧ Stands ⟨handle, []⟩ p old e ∧
      Disk.SameFolders d e := by
  obtain ⟨hopen, hnot⟩ : d.openAppend path = .ok (d.set p (.file old)) ∧
      d.get? p ≠ some .directory := by
    rcases hold with hfile | ⟨hnone, rfl⟩
    · rw [hp.look] at hfile
      exact ⟨hp.openWith_file id hfile, by simp [hfile]⟩
    · rw [hp.look] at hnone
      exact ⟨hp.openWith_none id hnone, by simp [hnone]⟩
  let e : Disk := { d.set p (.file old) with
    held := (handle, p) :: (d.set p (.file old)).held.filter fun e => e.1 ≠ handle }
  have hchange : (Change.hold handle path).perform d = (.ok (), e) := by
    have hlocate : d.locate path = .ok ⟨p, true, false⟩ := hp
    simp [Change.perform, Change.apply, Disk.hold, hlocate, hopen, e]
  have hrun : (openAt handle path).run d = (.ok ⟨handle, []⟩, e) := by
    rw [openAt, Script.run, hchange]
    rfl
  refine ⟨e, hrun, ⟨?_, old, ?_, List.append_nil old⟩, ?_⟩
  · simp [e]
  · rw [Disk.get?_held, Disk.get?_set _ _ _ _ (Disk.ne_nil_of_get? hnot), if_pos rfl]
  · have hsame := Disk.sameFolders_set (n := .file old) (by simp) hnot
    exact ⟨hsame.here, hsame.folder⟩

end NumericSteps.Appender
