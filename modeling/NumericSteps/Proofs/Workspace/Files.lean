import NumericSteps.Proofs.Disk.History
import NumericSteps.Proofs.Scalar.ReadBack
import NumericSteps.Proofs.Workspace.Unstage

namespace NumericSteps

namespace Script

variable {d : Disk} {path : Path} {bytes : Bytes}

theorem run_readText_unread {r : Disk.ReadFault} (h : d.read path = .error r) :
    (readText path).run d = (.error (.file path.text r.fault), d) := by
  rw [readText, run, h]
  rfl

theorem run_readText_text {cs : List Char} (h : d.read path = .ok bytes)
    (hcs : Text.decode bytes = some cs) : (readText path).run d = (.ok cs, d) := by
  rw [readText, run, h]
  dsimp only
  rw [hcs]
  rfl

theorem run_readText_notText (h : d.read path = .ok bytes) (hnone : Text.decode bytes = none) :
    (readText path).run d = (.error (.file path.text .notText), d) := by
  rw [readText, run, h]
  dsimp only
  rw [hnone]
  rfl

end Script

namespace Workspace

open Script Text

variable {mayFail : Disk → Change → Prop} {w : Workspace} {d e : Disk} {course : Course}
  {path : Path} {paths : List Path} {lines : List Bytes} {old : Bytes} {u : Unit} {m n : String}
  {s r : Slot} {x : Float}

/-- The path of a file of another name. -/
def Other (w : Workspace) (n : String) (path : Path) : Prop :=
  ∃ m, path = w.file m ∧ Plain m ∧ m ≠ n

theorem look_eq_of_other (hn : Plain n) (h : d.SameBut paths e) (hd : Disk.SameFolders d e)
    (ho : ∀ path ∈ paths, w.Other n path) : e.look (w.file n) = d.look (w.file n) := by
  apply h.look hd
  intro p hp path hm hq
  obtain ⟨m, rfl, hplain, hne⟩ := ho path hm
  have hfirst : d.Names (w.file m) p := (place?_file hplain).1 hq
  have hsecond : d.Names (w.file n) p := (place?_file hn).1 hp
  exact hne (names_inj hplain hn hfirst hsecond)

theorem other_path (hs : w.names.Sound) (h : r ≠ s) : w.Other (w.names.name s) (w.path r) :=
  ⟨w.names.name r, rfl, hs.plain r, fun he => h (hs.inj he)⟩

theorem path_inj (hs : w.names.Sound) (h : w.path r = w.path s) : r = s := by
  rw [path_eq, path_eq, file_eq w (hs.plain r), file_eq w (hs.plain s)] at h
  have hname : w.names.name r = w.names.name s := by simpa using h
  exact hs.inj hname

theorem others_of_not_mem (hs : w.names.Sound) {ss : List Slot} (hr : r ∉ ss) :
    ∀ path ∈ ss.map w.path, w.Other (w.names.name r) path := by
  intro path hp
  obtain ⟨s, hmem, rfl⟩ := List.mem_map.1 hp
  have hne : s ≠ r := by
    rintro rfl
    exact hr hmem
  exact other_path hs hne

/-- A script that stays within the files of some slots leaves those of the others. -/
theorem look_eq_of_only {α : Type} {script t : Script α} (hs : w.names.Sound) (ss : List Slot)
    (h : Leads mayFail script d course t e) (ho : script.Only (Change.Within (ss.map w.path)))
    (hr : r ∉ ss) : e.look (w.path r) = d.look (w.path r) := by
  have hsame : d.SameBut (ss.map w.path) e := h.sameBut ho
  exact look_eq_of_other (hs.plain r) hsame h.sameFolders (others_of_not_mem hs hr)

theorem isFile_path (hs : w.names.Sound) :
    d.isFile (w.path s) = true ↔ ∃ b, d.look (w.path s) = some (.file b) := by
  constructor
  · intro h
    obtain ⟨t, b, ht, hb, -⟩ := Disk.isFile_eq_true.1 h
    exact ⟨b, (Disk.look_of_locate ht).trans hb⟩
  · rintro ⟨b, hb⟩
    obtain ⟨q, hq, hget⟩ := Option.bind_eq_some_iff.1 hb
    have hnames : d.Names (w.path s) q := (place?_file (hs.plain s)).1 hq
    exact hnames.isFile.2 ⟨b, hget⟩

section Writing

theorem ends_writeLines_ok (h : Ends mayFail (writeLines path lines) d course (.ok u) e)
    (ho : d.look path = some (.file old)) : e.look path = some (.file (old ++ lines.flatten)) := by
  induction lines generalizing d course old with
  | nil =>
    obtain ⟨-, -, rfl⟩ := h.of_done
    simpa using ho
  | cons line lines ih =>
    obtain ⟨d', rest, hwrite, hrest⟩ := Ends.of_change_ok h fun _ => ⟨_, rfl⟩
    have hline : d'.look path = some (.file (old ++ line)) := Disk.look_write hwrite ho
    have hlines := ih hrest hline
    rw [List.append_assoc] at hlines
    exact hlines

/-- Either a file could not be opened, and nothing is done, or it is there from then on, unless it is
a device. -/
theorem ends_writeFile_cases {res : Except Failure Unit}
    (h : Ends mayFail (writeFile path lines) d course res e) :
    (∃ f, course = [(.create path, .error f)] ∧ res = .error (fileFailure path f) ∧ e = d) ∨
      (.create path, .ok ()) ∈ course ∧ ((∃ full, d.look path = some (.device full)) ∨
        ∃ b, e.look path = some (.file b)) := by
  obtain ⟨reply, d', rest, hg, rfl, hrest⟩ := h.of_change
  cases reply with
  | error f =>
    have hd' : d' = d := by
      apply hg.error_eq
      intro b hb
      cases hb
    obtain ⟨rfl, rfl, rfl⟩ := hrest.of_done
    exact Or.inl ⟨f, rfl, rfl, hd'⟩
  | ok u =>
    refine Or.inr ⟨List.mem_cons_self, ?_⟩
    have hadds : (writeLines path lines >>= fun written =>
        (pure (written.mapError .stream) : Script (Except Failure Unit))).Only Change.Adds :=
      (only_writeLines (fun _ => trivial) lines).bind fun _ => trivial
    have hgrows : d'.Grows path e := hrest.grows hadds path
    rcases Disk.look_openWith hg.ok_apply with ⟨hdev, -⟩ | ⟨-, hnew⟩ | ⟨b, -, hnew⟩
    · exact Or.inl hdev
    · obtain ⟨more, hmore⟩ := hgrows _ hnew
      exact Or.inr ⟨_, hmore⟩
    · obtain ⟨more, hmore⟩ := hgrows _ hnew
      exact Or.inr ⟨_, hmore⟩

theorem ends_writeLines_device {full : Bool} {res : Except OsFault Unit}
    (h : Ends mayFail (writeLines path lines) d course res e)
    (hd : d.look path = some (.device full)) : e = d := by
  induction lines generalizing d course with
  | nil =>
    obtain ⟨-, -, rfl⟩ := h.of_done
    rfl
  | cons line lines ih =>
    obtain ⟨reply, d', rest, hg, -, hrest⟩ := h.of_change
    obtain rfl : d' = d := hg.write_device hd
    cases reply with
    | error f =>
      obtain ⟨-, -, rfl⟩ := hrest.of_done
      rfl
    | ok u => exact ih hrest hd

/-- A write to the file may fail, and a front of the new bytes stands behind the old ones. -/
def BrokenOff (mayFail : Disk → Change → Prop) (path : Path) (old new : Bytes) (e : Disk) : Prop :=
  (∃ d bytes, mayFail d (.write path bytes)) ∧
    ∃ front, front <+: new ∧ e.look path = some (.file (old ++ front))

theorem ends_writeLines_error {f : OsFault}
    (h : Ends mayFail (writeLines path lines) d course (.error f) e)
    (ho : d.look path = some (.file old)) : BrokenOff mayFail path old lines.flatten e := by
  induction lines generalizing d course old with
  | nil =>
    obtain ⟨he, -, -⟩ := h.of_done
    cases he
  | cons line lines ih =>
    obtain ⟨reply, d', rest, hg, -, hrest⟩ := h.of_change
    cases reply with
    | error f =>
      obtain ⟨-, -, rfl⟩ := hrest.of_done
      obtain ⟨hm, front, hfront, hlook⟩ := hg.write_file ho
      exact ⟨⟨d, line, hm⟩, front, hfront.trans (List.prefix_append _ _), hlook⟩
    | ok u =>
      have hline : d'.look path = some (.file (old ++ line)) := Disk.look_write hg.ok_apply ho
      obtain ⟨hm, front, hfront, hlook⟩ := ih hrest hline
      refine ⟨hm, line ++ front, ?_, by rw [hlook, List.append_assoc]⟩
      rw [List.flatten_cons]
      exact List.prefix_append_right_inj line |>.2 hfront

/-- A file that could not be written is as it was, or its writing has broken off. -/
theorem ends_writeFile_error {g : Failure}
    (h : Ends mayFail (writeFile path lines) d course (.error g) e) :
    e.look path = d.look path ∨ BrokenOff mayFail path [] lines.flatten e := by
  obtain ⟨reply, d', rest, hg, -, hrest⟩ := h.of_change
  cases reply with
  | error f =>
    have hd' : d' = d := by
      apply hg.error_eq
      intro b hb
      cases hb
    obtain ⟨-, -, rfl⟩ := hrest.of_done
    exact Or.inl (by rw [hd'])
  | ok u =>
    obtain ⟨res, d'', front, back, hlines, hback, -⟩ := Ends.of_bind hrest
    obtain ⟨hres, -, rfl⟩ := Ends.of_done hback
    have hempty (hnew : d'.look path = some (.file [])) :
        BrokenOff mayFail path [] lines.flatten e := by
      cases res with
      | error f => exact ends_writeLines_error hlines hnew
      | ok u => cases hres
    rcases Disk.look_openWith hg.ok_apply with ⟨⟨full, hdev⟩, rfl⟩ | ⟨-, hnew⟩ | ⟨b, -, hnew⟩
    · left
      rw [ends_writeLines_device hlines hdev]
    · exact Or.inr (hempty hnew)
    · exact Or.inr (hempty hnew)

/-- A file that has been written holds the lines, unless it is a device, which nothing changes. -/
theorem ends_writeFile_ok (h : Ends mayFail (writeFile path lines) d course (.ok u) e) :
    (∃ full, d.look path = some (.device full)) ∧ e = d ∨
      e.look path = some (.file lines.flatten) := by
  obtain ⟨d', rest, hopen, hrest⟩ := Ends.of_change_ok h fun _ => ⟨_, rfl⟩
  obtain ⟨u', d'', front, back, hlines, hback⟩ := Ends.of_bind_ok hrest fun _ => ⟨_, rfl⟩
  obtain ⟨-, -, rfl⟩ := Ends.of_done hback
  have hempty (hnew : d'.look path = some (.file [])) :
      e.look path = some (.file lines.flatten) := by
    simpa using ends_writeLines_ok hlines hnew
  rcases Disk.look_openWith hopen with ⟨⟨full, hdev⟩, rfl⟩ | ⟨-, hnew⟩ | ⟨b, -, hnew⟩
  · exact Or.inl ⟨⟨full, hdev⟩, ends_writeLines_device hlines hdev⟩
  · exact Or.inr (hempty hnew)
  · exact Or.inr (hempty hnew)

/-- What lines of text are in a file. -/
def linesText (ls : List String) : List Char := ls.flatMap fun l => l.toList ++ ['\n']

theorem flatten_lines (ls : List String) :
    (ls.map fun l => encode (l.toList ++ ['\n'])).flatten = encode (linesText ls) := by
  unfold linesText encode
  rw [List.flatMap_assoc]
  rfl

theorem ends_appendLines_ok {ls : List String}
    (h : Ends mayFail (w.appendLines s ls) d course (.ok u) e) (hb : d.Content (w.path s) old) :
    e.look (w.path s) = some (.file (old ++ encode (linesText ls))) := by
  obtain ⟨d', rest, hopen, hrest⟩ := Ends.of_change_ok h fun _ => ⟨_, rfl⟩
  obtain ⟨u', d'', front, back, hlines, hback⟩ := Ends.of_bind_ok hrest fun _ => ⟨_, rfl⟩
  obtain ⟨-, -, rfl⟩ := Ends.of_done hback
  have hkept : d'.look (w.path s) = some (.file old) := hb.look_openAppend hopen
  rw [← flatten_lines]
  exact ends_writeLines_ok hlines hkept

/-- Lines come behind all that the file holds, unless it is a device. -/
theorem ends_appendLines_cases {ls : List String}
    (h : Ends mayFail (w.appendLines s ls) d course (.ok u) e) :
    (∃ full, d.look (w.path s) = some (.device full)) ∨ ∃ old, d.Content (w.path s) old ∧
      e.look (w.path s) = some (.file (old ++ encode (linesText ls))) := by
  obtain ⟨d', rest, hopen, -⟩ := Ends.of_change_ok h fun _ => ⟨_, rfl⟩
  rcases Disk.content_of_openAppend hopen with hdev | ⟨old, hold⟩
  · exact Or.inl hdev
  · exact Or.inr ⟨old, hold, ends_appendLines_ok h hold⟩

theorem ends_appendLines_error {ls : List String} {g : Failure}
    (h : Ends mayFail (w.appendLines s ls) d course (.error g) e) :
    (∃ f, g = fileFailure (w.path s) f) ∧ (e.look (w.path s) = d.look (w.path s) ∨
      ∃ old, d.Content (w.path s) old ∧
        BrokenOff mayFail (w.path s) old (encode (linesText ls)) e) := by
  obtain ⟨reply, d', rest, hg, -, hrest⟩ := h.of_change
  cases reply with
  | error f =>
    have hd' : d' = d := by
      apply hg.error_eq
      intro b hb
      cases hb
    obtain ⟨hres, -, rfl⟩ := hrest.of_done
    cases hres
    exact ⟨⟨f, rfl⟩, Or.inl (by rw [hd'])⟩
  | ok u =>
    obtain ⟨res, d'', front, back, hlines, hback, -⟩ := Ends.of_bind hrest
    obtain ⟨hres, -, rfl⟩ := Ends.of_done hback
    cases res with
    | ok u => cases hres
    | error f =>
      cases hres
      refine ⟨⟨f, rfl⟩, ?_⟩
      rw [← flatten_lines]
      rcases Disk.look_openWith hg.ok_apply with ⟨⟨full, hdev⟩, rfl⟩ | ⟨hnone, hnew⟩ | ⟨b, hb, hkept⟩
      · left
        rw [ends_writeLines_device hlines hdev]
      · exact Or.inr ⟨[], Or.inr ⟨hnone, rfl⟩, ends_writeLines_error hlines hnew⟩
      · exact Or.inr ⟨b, Or.inl hb, ends_writeLines_error hlines hkept⟩

theorem only_appendLines {P : Change → Prop} {ls : List String} (ho : P (.openAppend (w.path s)))
    (hw : ∀ bytes, P (.write (w.path s) bytes)) : (w.appendLines s ls).Only P := by
  refine ⟨ho, fun r => ?_⟩
  cases r with
  | error f => trivial
  | ok u => exact (only_writeLines hw _).bind fun _ => trivial

theorem uses_appendLines {P : Path → Prop} (hp : P (w.path s)) (ls : List String) :
    (w.appendLines s ls).Uses P := by
  refine ⟨hp, fun r => ?_⟩
  cases r with
  | error f => trivial
  | ok u => exact (uses_writeLines hp _).bind fun _ => trivial

end Writing

section Reading

/-- The file of a slot holds the number. -/
def Stores (w : Workspace) (d : Disk) (s : Slot) (x : Float) : Prop :=
  ∃ b, d.look (w.path s) = some (.file b) ∧ Scalar.ofBytes? b = some x

theorem Stores.unique {y : Float} (h : w.Stores d s x) (k : w.Stores d s y) : x = y := by
  obtain ⟨b, hb, hx⟩ := h
  obtain ⟨c, hc, hy⟩ := k
  have he : b = c := by simpa [hb] using hc
  subst he
  simpa [hx] using hy

theorem Stores.of_look_eq (h : w.Stores d s x) (he : e.look (w.path s) = d.look (w.path s)) :
    w.Stores e s x := by
  obtain ⟨b, hb, hx⟩ := h
  exact ⟨b, he.trans hb, hx⟩

theorem look_of_read {b : Bytes} (h : d.read path = .ok b) :
    d.look path = some (.file b) ∨ ∃ full, d.look path = some (.device full) ∧ b = [] := by
  unfold Disk.read at h
  split at h
  · cases h
  · rename_i t ht
    rw [Disk.look_of_locate ht]
    split at h
    · cases h
    · cases h
    · rename_i bytes hg
      split at h
      · cases h
      · cases h
        exact Or.inl hg
    · rename_i full hg
      cases h
      exact Or.inr ⟨full, hg, rfl⟩

theorem only_readText (path : Path) : (readText path).Only fun _ => False := by
  intro res
  cases res with
  | error f => trivial
  | ok bytes =>
    dsimp only
    cases decode bytes <;> trivial

theorem only_readScalar (w : Workspace) (s : Slot) : (w.readScalar s).Only fun _ => False :=
  (only_readText (w.path s)).bind fun _ => trivial

theorem only_readMatrix (w : Workspace) (s : Slot) : (w.readMatrix s).Only fun _ => False := by
  intro r
  cases r with
  | error f => cases f <;> trivial
  | ok bytes => trivial

theorem run_readMatrix_bytes {b : Bytes} (h : d.read (w.path s) = .ok b) :
    (w.readMatrix s).run d = (Matrix.ofBytes b, d) := by
  rw [readMatrix, run, h]
  rfl

theorem wellFormed_of_readMatrix {m : Matrix Float} (h : ((w.readMatrix s).run d).1 = .ok m) :
    m.WellFormed := by
  cases hr : d.read (w.path s) with
  | error r =>
    rw [readMatrix, run, hr] at h
    cases r <;> cases h
  | ok b =>
    rw [run_readMatrix_bytes hr] at h
    exact Matrix.wellFormed_of_ofBytes h

theorem run_readScalar (w : Workspace) (s : Slot) (d : Disk) :
    ((w.readScalar s).run d).1 = ((readText (w.path s)).run d).1.bind Scalar.ofText := by
  rw [readScalar, run_bind]
  rfl

/-- Only from a file that stores a number is one read. -/
theorem run_readScalar_ok (h : ((w.readScalar s).run d).1 = .ok x) : w.Stores d s x := by
  rw [run_readScalar] at h
  cases hr : d.read (w.path s) with
  | error f =>
    rw [run_readText_unread hr] at h
    cases h
  | ok b =>
    have hb : Scalar.ofBytes? b = some x := by
      unfold Scalar.ofBytes?
      cases hd : decode b with
      | none =>
        rw [run_readText_notText hr hd] at h
        cases h
      | some cs =>
        rw [run_readText_text hr hd] at h
        change Scalar.ofText cs = .ok x at h
        simp [h, Except.toOption]
    rcases look_of_read hr with hfile | ⟨full, -, rfl⟩
    · exact ⟨b, hfile, hb⟩
    · rw [Scalar.ofBytes?_nil] at hb
      cases hb

end Reading

end Workspace

end NumericSteps
