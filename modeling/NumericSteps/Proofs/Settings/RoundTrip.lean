import NumericSteps.Proofs.Settings.Overlay
import NumericSteps.Proofs.Toml.Document

namespace NumericSteps

open Toml

theorem SvdMode.ofKey?_key (m : SvdMode) : ofKey? m.key = some m := by
  cases m <;> decide

namespace Settings

variable {s : Settings}

/-- The entries that stand in front of the names. -/
def plainEntries (s : Settings) : Table :=
  [("compare_tolerance".toList, .float s.compareTolerance),
    ("grad_threshold".toList, .float s.gradThreshold),
    ("learning_rate".toList, .float s.learningRate),
    ("svd_mode".toList, .text s.svdMode.key.toList)]

def nameEntries (t : FileNames) : Table :=
  Slot.all.map fun slot => (slot.key.toList, .text (t.name slot).toList)

theorem isBare_slot (slot : Slot) : IsBare slot.key.toList := by
  cases slot <;> decide

theorem lists_toToml (h : s.validate = .ok ()) :
    Lists s.toToml (assigns s.plainEntries ++
      .header [] "files".toList :: assigns (nameEntries s.files)) := by
  have hfinite : ∀ y ∈ s.numbers, y.2.isFinite = true := fun y hy =>
    ((validate_ok_iff.1 h).numbers y hy).1
  simp only [numbers, List.forall_mem_cons] at hfinite
  obtain ⟨hc, hg, hl, -⟩ := hfinite
  have hnames : Lists (Slot.all.flatMap fun slot =>
      entryLine slot.key (writeText (s.files.name slot).toList)) (assigns (nameEntries s.files)) := by
    have hgives (slot : Slot) (_ : slot ∈ Slot.all) : Gives slot.key.toList
        (writeText (s.files.name slot).toList) (.text (s.files.name slot).toList) :=
      gives_text (isBare_slot slot) _
    have hlists := lists_entries hgives .nil
    rw [List.append_nil, List.append_nil] at hlists
    rw [assigns, nameEntries, List.map_map]
    exact hlists
  have hheader : Lists ("\n[files]\n".toList ++ Slot.all.flatMap fun slot =>
      entryLine slot.key (writeText (s.files.name slot).toList))
        (.header [] "files".toList :: assigns (nameEntries s.files)) :=
    Lists.header (k := "files".toList) (by decide) hnames
  have hmode := hheader.entry "svd_mode" (gives_text (by decide) s.svdMode.key.toList)
  have hrate := hmode.entry "learning_rate" (gives_float (by decide) hl)
  have hthreshold := hrate.entry "grad_threshold" (gives_float (by decide) hg)
  have htolerance :=
    hthreshold.entry "compare_tolerance" (gives_float (by decide) hc)
  simp only [toToml, List.append_assoc]
  exact htolerance

/-- All that the document of the settings holds. -/
def entries (s : Settings) : Table :=
  s.plainEntries ++ [("files".toList, .table .header (nameEntries s.files))]

theorem nodup_entries (s : Settings) : (s.entries.map Prod.fst).Nodup := by
  have hkeys : s.entries.map Prod.fst = ["compare_tolerance", "grad_threshold", "learning_rate",
      "svd_mode", "files"].map String.toList := rfl
  rw [hkeys]
  decide

theorem nodup_nameEntries (t : FileNames) : ((nameEntries t).map Prod.fst).Nodup := by
  have hkeys : (nameEntries t).map Prod.fst = Slot.all.map fun slot => slot.key.toList := rfl
  rw [hkeys]
  decide

theorem read_toToml (h : s.validate = .ok ()) : Toml.read s.toToml = some s.entries := by
  have hmark : dropMark s.toToml = s.toToml := rfl
  have hkeys := s.nodup_entries
  rw [entries, List.map_append, List.nodup_append] at hkeys
  have hnew : "files".toList ∉ s.plainEntries.map Prod.fst :=
    fun hm => hkeys.2.2 _ hm _ List.mem_cons_self rfl
  rw [read_of_lists (lists_toToml h) hmark]
  exact build_assigns hnew hkeys.1 (nodup_nameEntries s.files)

theorem field_of_mem {α : Type} {t : Table} {key : String} {v : Value} {read : Value → Option α}
    {default : α} (hn : (t.map Prod.fst).Nodup) (h : (key.toList, v) ∈ t) :
    field t key read default = read v := by
  rw [field, get?_of_mem hn h]

theorem field_nameEntries (t : FileNames) (slot : Slot) (default : String) :
    field (nameEntries t) slot.key toName default = some (t.name slot) := by
  have hmem : (slot.key.toList, .text (t.name slot).toList) ∈ nameEntries t :=
    List.mem_map_of_mem (f := fun slot => (slot.key.toList, Value.text (t.name slot).toList)) slot.mem_all
  rw [field_of_mem (nodup_nameEntries t) hmem, toName, String.ofList_toList]

/-- All ten names are in the table, so none of the defaults is left. -/
theorem namesOfTable_nameEntries (t : FileNames) : namesOfTable (nameEntries t) = some t := by
  refine namesOfTable_iff.2 fun s => (given_iff fun v _ => isName_iff).2 ?_
  exact field_nameEntries t s _

theorem ofTable_entries (s : Settings) : ofTable s.entries = some s := by
  have hfield {α : Type} (key : String) (v : Value) (read : Value → Option α) (default : α)
      (h : (key.toList, v) ∈ s.entries) : field s.entries key read default = read v :=
    field_of_mem s.nodup_entries h
  have htolerance := hfield "compare_tolerance" (.float s.compareTolerance) toNumber
    Compare.defaultTolerance (by simp [entries, plainEntries])
  have hthreshold := hfield "grad_threshold" (.float s.gradThreshold) toNumber
    Descent.defaultThreshold (by simp [entries, plainEntries])
  have hrate := hfield "learning_rate" (.float s.learningRate) toNumber
    Descent.defaultRate (by simp [entries, plainEntries])
  have hmode := hfield "svd_mode" (.text s.svdMode.key.toList) toMode .full
    (by simp [entries, plainEntries])
  have hfiles := hfield "files" (.table .header (nameEntries s.files)) toNames {}
    (by simp [entries])
  unfold ofTable
  rw [htolerance, hthreshold, hrate, hmode, hfiles]
  simp [toNumber, toMode, toNames, namesOfTable_nameEntries, SvdMode.ofKey?_key]

/-- Settings that can be used come back from their document as they are. -/
theorem ofToml_toToml (h : s.validate = .ok ()) : ofToml s.toToml = .ok s := by
  rw [ofToml, read_toToml h, Option.bind_some, ofTable_entries]
  dsimp only
  rw [h]
  rfl

/-- The least and the largest positive number, and names with marks, controls and line ends in them. -/
def hardSettings : Settings where
  compareTolerance := 5e-324
  gradThreshold := 1.7976931348623157e308
  learningRate := 0.1
  svdMode := .thin
  files := {
    matrixIn := "it's a \"name\""
    matrixOut := "a\nb\r\nc"
    factorU := "\"\"\"'''\"\"\""
    factorS := "\t\x01\x7f\t"
    factorVt := "# = [files]"
    approxOld := "\n'''\"\""
    grad := "größe"
    approxNew := "''"
    solution := "\"\"\"\""
    approxLog := "'\"" }

theorem ofToml_toToml_hard :
    hardSettings.validate = .ok () ∧ ofToml hardSettings.toToml = .ok hardSettings := by
  have h : hardSettings.validate = .ok () := by decide +kernel
  exact ⟨h, ofToml_toToml h⟩

end Settings

end NumericSteps
