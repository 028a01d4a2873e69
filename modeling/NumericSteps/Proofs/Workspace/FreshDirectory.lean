import NumericSteps.Proofs.Workspace.NameClash
import NumericSteps.Proofs.Workspace.Validation

namespace NumericSteps

namespace Path

theorem hasNul_trunk {r : Path} (h : r.hasNul = false) : (Path.mk r.trunk).hasNul = false := by
  rw [hasNul, List.any_eq_false] at h ⊢
  intro piece hpiece
  apply h
  unfold trunk at hpiece
  split at hpiece
  · exact (List.dropLast_sublist _).subset hpiece
  · exact hpiece

end Path

namespace Workspace

open Text

variable {w : Workspace} {d e : Disk} {r : Place} {n : String} {s : Slot} {ss : List Slot}
  {entries : List (Slot × Matrix Float)}

/-- The root of a workspace is a directory in which nothing stands. -/
structure Vacant (w : Workspace) (d : Disk) (r : Place) : Prop where
  root : d.place? w.root = some r
  directory : d.get? r = some .directory
  empty : ∀ n, d.folder r n = none

/-- The names of the table are within what the operating system takes. -/
structure NamesFit (w : Workspace) : Prop where
  noNul : ∀ s, '\x00' ∉ (w.names.name s).toList
  name : ∀ s, (w.names.name s).utf8ByteSize ≤ 255
  /-- The name of a staging file is nine bytes longer. -/
  staging : ∀ s ∈ factorSlots, (w.names.name s).utf8ByteSize ≤ 246
  path : ∀ s, (w.path s).text.utf8ByteSize ≤ 4095
  stagingPath : ∀ s ∈ factorSlots, (w.stagingPath s).text.utf8ByteSize ≤ 4095

section Names

theorem size_stagingName (n : String) : (stagingName n).utf8ByteSize = n.utf8ByteSize + 9 := by
  have hends : ".".utf8ByteSize = 1 ∧ ".partial".utf8ByteSize = 8 := ⟨rfl, rfl⟩
  simp only [stagingName, String.utf8ByteSize_append, hends]
  omega

theorem nul_mem_stagingName : '\x00' ∈ (stagingName n).toList ↔ '\x00' ∈ n.toList := by
  rw [toList_stagingName, List.mem_cons, List.mem_append]
  have hdot : '\x00' ≠ '.' := by decide
  have hend : '\x00' ∉ ".partial".toList := by decide
  constructor
  · rintro (he | hn | hn)
    · exact absurd he hdot
    · exact hn
    · exact absurd hn hend
  · exact fun hn => Or.inr (Or.inl hn)

/-- A root that stands on the disk is the directory of the workspace. -/
theorem seat_of_place? (h : d.place? w.root = some r) :
    w.root.hasNul = false ∧ w.seat d = .ok r := by
  obtain ⟨t, ht, rfl⟩ := Disk.place?_eq_some.1 h
  obtain ⟨hnul, hempty, -, p, hwalk, rfl⟩ := Disk.locate_eq_ok.1 ht
  have habsolute : (w.root.trunk.head? == some "") = w.root.isAbsolute := by
    rcases Path.trunk_cases w.root with ⟨-, hp | hp⟩ | ⟨a, l, htrunk, -, ha⟩
    · rw [Path.isEmpty, hp] at hempty
      cases hempty
    · rw [Path.isEmpty, hp] at hempty
      cases hempty
    · rw [htrunk, ha]
      rfl
  refine ⟨hnul, ?_⟩
  rw [seat, habsolute, Path.route_trunk, hwalk]

theorem fits_iff (hroot : w.root.hasNul = false) (hn : Plain n) :
    w.Fits n ↔ '\x00' ∉ n.toList ∧ n.utf8ByteSize ≤ 255 ∧
      (w.file n).text.utf8ByteSize ≤ 4095 := by
  have hnul : (w.file n).hasNul = false ↔ '\x00' ∉ n.toList := by
    rw [w.file_eq hn, Path.hasNul_append, Path.hasNul_trunk hroot]
    simp
  constructor
  · intro h
    exact ⟨hnul.1 h.noNul, h.name, h.path⟩
  · rintro ⟨hfree, hname, hpath⟩
    exact ⟨hnul.2 hfree, hpath, hname⟩

/-- The names fit if the files of all slots and the staging files of the factors can be made. -/
theorem namesFit_iff (hroot : w.root.hasNul = false) (hs : w.names.Sound) :
    w.NamesFit ↔ (∀ s, w.Fits (w.names.name s)) ∧
      ∀ s ∈ factorSlots, w.Fits (stagingName (w.names.name s)) := by
  have hname (s : Slot) := fits_iff (w := w) hroot (hs.plain s)
  have hstaging (s : Slot) := fits_iff (w := w) hroot (plain_stagingName (hs.plain s))
  constructor
  · intro h
    refine ⟨fun s => (hname s).2 ⟨h.noNul s, h.name s, h.path s⟩, fun s hm => ?_⟩
    refine (hstaging s).2 ⟨mt nul_mem_stagingName.1 (h.noNul s), ?_, h.stagingPath s hm⟩
    rw [size_stagingName]
    exact Nat.add_le_add_right (h.staging s hm) 9
  · rintro ⟨hfits, hlonger⟩
    refine ⟨fun s => ((hname s).1 (hfits s)).1, fun s => ((hname s).1 (hfits s)).2.1,
      fun s hm => ?_, fun s => ((hname s).1 (hfits s)).2.2,
      fun s hm => ((hstaging s).1 (hlonger s hm)).2.2⟩
    have hsize := ((hstaging s).1 (hlonger s hm)).2.1
    rw [size_stagingName] at hsize
    omega

end Names

section Files

variable {F : String → Option Node} {m : String} {b : Bytes}

/-- A file stands under the name. -/
def FileAt (F : String → Option Node) (n : String) : Prop := ∃ b, F n = some (.file b)

theorem fileAt_update : FileAt (Function.update F m (some (.file b))) n ↔ n = m ∨ FileAt F n := by
  unfold FileAt
  by_cases he : n = m
  · subst he
    rw [Function.update_self]
    exact iff_of_true ⟨b, rfl⟩ (Or.inl rfl)
  · rw [Function.update_of_ne he, or_iff_right he]

/-- The staging file of a slot is still there when that of another has moved, even onto it. -/
theorem fileAt_moved {t : Slot} (hs : w.names.Sound) (hne : s ≠ t)
    (hfirst : FileAt F (stagingName (w.names.name s)))
    (hsecond : FileAt F (stagingName (w.names.name t))) :
    FileAt (w.moved s F) (stagingName (w.names.name t)) := by
  -- the name of `s` may be that staging file's, for the table need not keep them apart
  obtain ⟨b, hb⟩ := hfirst
  have hother : stagingName (w.names.name t) ≠ stagingName (w.names.name s) :=
    fun he => hne (hs.inj (stagingName_inj he)).symm
  rw [moved, hb, fileAt_update, FileAt, Function.update_of_ne hother]
  exact Or.inr hsecond

end Files

/-- Nothing stands in the directory of a workspace but files. -/
structure Tidy (w : Workspace) (d : Disk) (r : Place) : Prop where
  seat : w.seat d = .ok r
  directory : d.get? r = some .directory
  files : ∀ n, d.folder r n = none ∨ FileAt (d.folder r) n

theorem Vacant.tidy (h : w.Vacant d r) : w.Tidy d r :=
  ⟨(seat_of_place? h.root).2, h.directory, fun n => Or.inl (h.empty n)⟩

namespace Tidy

theorem not_directory (h : w.Tidy d r) (n : String) : d.folder r n ≠ some .directory := by
  rcases h.files n with hn | ⟨b, hn⟩ <;> simp [hn]

theorem names (h : w.Tidy d r) (hn : Plain n) (hf : w.Fits n) : d.Names (w.file n) (r ++ [n]) :=
  (names_file hn).2 ⟨hf, r, h.seat, h.directory, rfl⟩

theorem of_inside (h : w.Tidy d r) (hi : Disk.Inside r d e)
    (hfiles : ∀ n, e.folder r n = none ∨ FileAt (e.folder r) n) : w.Tidy e r :=
  ⟨seat_ok h.seat hi.folders, (hi.folders.folder r).2 h.directory, hfiles⟩

theorem set (h : w.Tidy d r) (n : String) (b : Bytes) : w.Tidy (d.set (r ++ [n]) (.file b)) r := by
  refine h.of_inside (Disk.inside_set nofun (h.not_directory n)) fun m => ?_
  rw [Disk.folder_set, fileAt_update]
  by_cases hm : m = n
  · exact Or.inr (Or.inl hm)
  · rw [Function.update_of_ne hm]
    exact (h.files m).imp_right Or.inr

theorem move (h : w.Tidy d r) {b : Bytes}
    (hb : d.folder r (stagingName (w.names.name s)) = some (.file b)) :
    w.Tidy (d.move (r ++ [stagingName (w.names.name s)]) (r ++ [w.names.name s]) (.file b)) r := by
  have hi := Disk.inside_move (x := .file b) nofun
    (h.not_directory (stagingName (w.names.name s))) (h.not_directory (w.names.name s))
  refine h.of_inside hi fun n => ?_
  rw [folder_moved hb, moved, hb, fileAt_update]
  by_cases hname : n = w.names.name s
  · exact Or.inr (Or.inl hname)
  · rw [Function.update_of_ne hname, FileAt]
    by_cases hstaging : n = stagingName (w.names.name s)
    · subst hstaging
      exact Or.inl (Function.update_self ..)
    · rw [Function.update_of_ne hstaging]
      exact (h.files n).imp_right Or.inr

/-- A file that is missing or there already can be written, if its name fits. -/
theorem run_writeFile (h : w.Tidy d r) (hn : Plain n) (hf : w.Fits n) (lines : List Bytes) :
    (writeFile (w.file n) lines).run d = (.ok (), d.set (r ++ [n]) (.file lines.flatten)) :=
  Workspace.run_writeFile (h.names hn hf) (h.files n) lines

/-- All staging files are written, and no file is lost. -/
theorem run_stage (h : w.Tidy d r) (hs : w.names.Sound)
    (hf : ∀ x ∈ entries, w.Fits (stagingName (w.names.name x.1))) (staged : List Path) :
    ∃ e, (w.stage staged entries).run d = (.ok (), e) ∧ w.Tidy e r ∧
      (∀ x ∈ entries, FileAt (e.folder r) (stagingName (w.names.name x.1))) ∧
      ∀ n, FileAt (d.folder r) n → FileAt (e.folder r) n := by
  induction entries generalizing staged d with
  | nil => exact ⟨d, rfl, h, by simp, fun n hn => hn⟩
  | cons x entries ih =>
    rw [List.forall_mem_cons] at hf
    have hwrite := h.run_writeFile (plain_stagingName (hs.plain x.1)) hf.1 (matrixLines x.2)
    have hnext := h.set (stagingName (w.names.name x.1)) (matrixLines x.2).flatten
    obtain ⟨e, hrun, htidy, hnew, hkept⟩ := ih hnext hf.2 (staged ++ [w.stagingPath x.1])
    rw [Disk.folder_set] at hkept
    refine ⟨e, ?_, htidy, List.forall_mem_cons.2 ⟨?_, hnew⟩, fun n hn => ?_⟩
    · rw [stage, Script.run_bind, stagingPath_eq, hwrite]
      exact hrun
    · exact hkept _ (fileAt_update.2 (Or.inl rfl))
    · exact hkept n (fileAt_update.2 (Or.inr hn))

theorem run_takeOver (h : w.Tidy d r) (hs : w.names.Sound) (hn : ss.Nodup)
    (hf : ∀ s ∈ ss, w.Fits (stagingName (w.names.name s)))
    (hstaged : ∀ s ∈ ss, FileAt (d.folder r) (stagingName (w.names.name s))) :
    ∃ e, (w.takeOver ss).run d = (.ok (), e) ∧ w.Tidy e r := by
  -- carried along: the staging files of the slots still to come are there
  induction ss generalizing d with
  | nil => exact ⟨d, rfl, h⟩
  | cons s ss ih =>
    rw [List.nodup_cons] at hn
    rw [List.forall_mem_cons] at hf hstaged
    obtain ⟨b, hb⟩ := hstaged.1
    have hnames := h.names (plain_stagingName (hs.plain s)) hf.1
    rcases run_takeOver_cons hs ss hnames hb with ⟨hdirectory, -⟩ | ⟨-, hrun⟩
    · exact absurd hdirectory (h.not_directory _)
    · rw [hrun]
      refine ih (h.move hb) hn.2 hf.2 fun t ht => ?_
      rw [folder_moved hb]
      have hne : s ≠ t := by
        rintro rfl
        exact hn.1 ht
      exact fileAt_moved hs hne hstaged.1 (hstaged.2 t ht)

theorem run_writeMatrices (h : w.Tidy d r) (hs : w.names.Sound)
    (hn : (entries.map Prod.fst).Nodup)
    (hf : ∀ x ∈ entries, w.Fits (stagingName (w.names.name x.1))) :
    ∃ e, (w.writeMatrices entries).run d = (.ok (), e) ∧ w.Tidy e r := by
  obtain ⟨e, hrun, htidy, hnew, -⟩ := h.run_stage hs hf []
  rw [run_writeMatrices_staged hrun]
  exact htidy.run_takeOver hs hn (List.forall_mem_map.2 hf) (List.forall_mem_map.2 hnew)

end Tidy

section Needed

variable {lines : List Bytes}

theorem fits_of_writeFile (hn : Plain n)
    (h : ((writeFile (w.file n) lines).run d).1 = .ok ()) : w.Fits n := by
  cases hl : d.locate (w.file n) with
  | error f =>
    have hcreate : d.create (w.file n) = .error f := by rw [Disk.create, Disk.openWith, hl]
    rw [run_writeFile_error hcreate] at h
    cases h
  | ok t => exact ((locate_file_ok hn).1 hl).1

theorem fits_of_stage (hs : w.names.Sound) {staged : List Path}
    (h : ((w.stage staged entries).run d).1 = .ok ()) :
    ∀ x ∈ entries, w.Fits (stagingName (w.names.name x.1)) := by
  induction entries generalizing staged d with
  | nil => simp
  | cons x entries ih =>
    rw [stage, Script.run_bind, stagingPath_eq] at h
    rcases hwrite : (writeFile (w.file (stagingName (w.names.name x.1))) (matrixLines x.2)).run d
      with ⟨res, e⟩
    rw [hwrite] at h
    cases res with
    | error g =>
      dsimp only at h
      rw [Script.run_bind] at h
      cases h
    | ok u =>
      have hfirst := fits_of_writeFile (plain_stagingName (hs.plain x.1)) (by rw [hwrite])
      exact List.forall_mem_cons.2 ⟨hfirst, ih h⟩

theorem fits_of_writeMatrices (hs : w.names.Sound)
    (h : ((w.writeMatrices entries).run d).1 = .ok ()) :
    ∀ x ∈ entries, w.Fits (stagingName (w.names.name x.1)) := by
  obtain ⟨e, hstage, -⟩ := writeMatrices_ok (Prod.ext h rfl)
  exact fits_of_stage hs (by rw [hstage])

end Needed

/-- A write to a workspace that takes no notice of what was there. -/
inductive Write
  | scalar (s : Slot) (x : Float)
  | matrix (s : Slot) (m : Matrix Float)
  /-- The three factors as one unit. -/
  | factors (f : Factors)

def Write.script (w : Workspace) : Write → Script (Except Failure Unit)
  | .scalar s x => w.writeScalar s x
  | .matrix s m => w.writeMatrix s m
  | .factors f => w.writeMatrices (Decompose.entries f)

/-- The names under which files are made. -/
def Write.names (w : Workspace) : Write → List String
  | .scalar s _ => [w.names.name s]
  | .matrix s _ => [w.names.name s]
  | .factors _ => factorSlots.map fun s => stagingName (w.names.name s)

/-- Writes in order, up to the first that fails. -/
def writeAll (w : Workspace) : List Write → Script (Except Failure Unit)
  | [] => .done (.ok ())
  | x :: xs => do
    match ← x.script w with
    | .error e => return .error e
    | .ok () => writeAll w xs

section Writes

variable {x : Write}

/-- What one write needs and keeps. -/
theorem Tidy.run_write (h : w.Tidy d r) (hs : w.names.Sound) (hf : ∀ n ∈ x.names w, w.Fits n) :
    ∃ e, (x.script w).run d = (.ok (), e) ∧ w.Tidy e r := by
  cases x with
  | scalar s x =>
    exact ⟨_, h.run_writeFile (hs.plain s) (hf _ List.mem_cons_self) _, h.set _ _⟩
  | matrix s m =>
    exact ⟨_, h.run_writeFile (hs.plain s) (hf _ List.mem_cons_self) _, h.set _ _⟩
  | factors f =>
    have hfits : ∀ y ∈ Decompose.entries f, w.Fits (stagingName (w.names.name y.1)) := by
      intro y hy
      exact hf _ (List.mem_map_of_mem (List.mem_map_of_mem (f := Prod.fst) hy))
    exact h.run_writeMatrices hs (by decide : factorSlots.Nodup) hfits

theorem fits_of_write (hs : w.names.Sound) (h : ((x.script w).run d).1 = .ok ()) :
    ∀ n ∈ x.names w, w.Fits n := by
  cases x with
  | scalar s x => exact List.forall_mem_singleton.2 (fits_of_writeFile (hs.plain s) h)
  | matrix s m => exact List.forall_mem_singleton.2 (fits_of_writeFile (hs.plain s) h)
  | factors f =>
    have hfits := fits_of_writeMatrices hs h
    refine List.forall_mem_map.2 ?_
    have hslots : ∀ s ∈ (Decompose.entries f).map Prod.fst,
      w.Fits (stagingName (w.names.name s)) := List.forall_mem_map.2 hfits
    exact hslots

theorem Tidy.run_writeAll (h : w.Tidy d r) (hs : w.names.Sound) {xs : List Write}
    (hf : ∀ x ∈ xs, ∀ n ∈ x.names w, w.Fits n) :
    ∃ e, (w.writeAll xs).run d = (.ok (), e) ∧ w.Tidy e r := by
  induction xs generalizing d with
  | nil => exact ⟨d, rfl, h⟩
  | cons x xs ih =>
    rw [List.forall_mem_cons] at hf
    obtain ⟨e, hrun, htidy⟩ := h.run_write hs hf.1
    rw [writeAll, Script.run_bind, hrun]
    exact ih htidy hf.2

theorem fits_of_writeAll_singleton (hs : w.names.Sound)
    (h : ((w.writeAll [x]).run d).1 = .ok ()) : ∀ n ∈ x.names w, w.Fits n := by
  rw [writeAll, Script.run_bind] at h
  apply fits_of_write (d := d) hs
  cases hres : ((x.script w).run d).1 with
  | error g =>
    rw [hres] at h
    cases h
  | ok u => rfl

end Writes

section Stretched

variable {k : Nat}

/-- A name of so many bytes. -/
def lettered (k : Nat) : String := String.ofList (List.replicate k 'b')

/-- A workspace at the top of a disk in which the first factor has a name of so many bytes. -/
def stretched (k : Nat) : Workspace :=
  ⟨⟨["", "r"]⟩, ({} : FileNames).rename .factorU (lettered k)⟩

theorem size_lettered (k : Nat) : (lettered k).utf8ByteSize = k := by
  induction k with
  | zero => rfl
  | succ k ih =>
    have hb : (String.singleton 'b').utf8ByteSize = 1 := rfl
    rw [lettered, List.replicate_succ, String.ofList_cons, String.utf8ByteSize_append, hb]
    rw [lettered] at ih
    omega

theorem not_mem_lettered {c : Char} (hc : c ≠ 'b') : c ∉ (lettered k).toList := by
  rw [lettered, String.toList_ofList]
  exact fun h => hc (List.eq_of_mem_replicate h)

theorem lettered_ne (hn : n.utf8ByteSize < k) : lettered k ≠ n := by
  rintro rfl
  rw [size_lettered] at hn
  omega

theorem size_default_le (s : Slot) : (({} : FileNames).name s).utf8ByteSize ≤ 10 := by
  cases s <;> decide

theorem stretched_name (k : Nat) (s : Slot) :
    (stretched k).names.name s = if s = .factorU then lettered k else ({} : FileNames).name s :=
  FileNames.name_rename {} .factorU s (lettered k)

theorem validate_stretched (hk : 10 < k) : (stretched k).names.validate = .ok () := by
  have hlettered : FileNames.Usable (lettered k) := by
    refine ⟨⟨'b', ?_, rfl⟩, not_mem_lettered (by decide), not_mem_lettered (by decide),
      lettered_ne (lt_trans (by decide) hk), lettered_ne (lt_trans (by decide) hk)⟩
    rw [lettered, String.toList_ofList]
    exact List.mem_replicate.2 ⟨by omega, rfl⟩
  have hother (s : Slot) : ({} : FileNames).name s ≠ lettered k :=
    (lettered_ne ((size_default_le s).trans_lt hk)).symm
  rw [FileNames.validate, mapError_ok_iff]
  exact FileNames.check_rename FileNames.check_default hlettered fun s _ => hother s

theorem vacant_stretched (k : Nat) : (stretched k).Vacant (topDisk []) ["r"] := by
  refine ⟨rfl, rfl, fun n => ?_⟩
  change (topDisk []).get? ["r", n] = none
  simp [topDisk, Disk.get?]

theorem size_text_stretched (hn : Plain n) :
    ((stretched k).file n).text.utf8ByteSize = n.utf8ByteSize + 3 := by
  have hroot : "".utf8ByteSize = 0 ∧ "r".utf8ByteSize = 1 ∧ "/".utf8ByteSize = 1 := ⟨rfl, rfl, rfl⟩
  have hpieces : ((stretched k).file n).text = "" ++ "/" ++ ("r" ++ "/" ++ n) := by
    rw [file_eq _ hn]
    change "/".intercalate ["", "r", n] = _
    rw [String.intercalate_cons_cons, String.intercalate_cons_cons, String.intercalate_singleton]
  rw [hpieces]
  simp only [String.utf8ByteSize_append, hroot]
  omega

theorem namesFit_stretched (hk : 10 < k) (hlimit : k ≤ 246) : (stretched k).NamesFit := by
  have hs : (stretched k).names.Sound := FileNames.sound_of_validate (validate_stretched hk)
  have hsize (s : Slot) : ((stretched k).names.name s).utf8ByteSize ≤ 246 := by
    rw [stretched_name]
    split
    · rw [size_lettered]
      exact hlimit
    · exact (size_default_le s).trans (by decide)
  refine ⟨fun s => ?_, fun s => (hsize s).trans (by decide), fun s _ => hsize s, fun s => ?_,
    fun s _ => ?_⟩
  · rw [stretched_name]
    split
    · exact not_mem_lettered (by decide)
    · cases s <;> decide
  · rw [path_eq, size_text_stretched (hs.plain s)]
    have := hsize s
    omega
  · rw [stagingPath_eq, size_text_stretched (plain_stagingName (hs.plain s)), size_stagingName]
    have := hsize s
    omega

end Stretched

/-- In a directory that was empty at first every write works, whatever has been written before it,
just if the names are within what the operating system takes, which the check of the table does not
ask for. -/
theorem writes_succeed_iff (hv : w.names.validate = .ok ()) (h : w.Vacant d r) :
    (∀ xs, ((w.writeAll xs).run d).1 = .ok ()) ↔ w.NamesFit := by
  have hs : w.names.Sound := FileNames.sound_of_validate hv
  rw [namesFit_iff (seat_of_place? h.root).1 hs]
  constructor
  · intro hall
    refine ⟨fun s => ?_, fun s hm => ?_⟩
    · exact fits_of_writeAll_singleton hs (hall [.scalar s 0]) _ List.mem_cons_self
    · exact fits_of_writeAll_singleton hs (hall [.factors emptyFactors]) _
        (List.mem_map_of_mem hm)
  · rintro ⟨hfits, hstaging⟩ xs
    have hnames : ∀ x ∈ xs, ∀ n ∈ x.names w, w.Fits n := by
      intro x _
      cases x with
      | scalar s x => exact List.forall_mem_singleton.2 (hfits s)
      | matrix s m => exact List.forall_mem_singleton.2 (hfits s)
      | factors f => exact List.forall_mem_map.2 hstaging
    obtain ⟨e, hrun, -⟩ := h.tidy.run_writeAll hs hnames
    rw [hrun]

/-- The first factor has the longest name that a factor can have. -/
theorem writes_succeed_longest :
    (stretched 246).names.validate = .ok () ∧ (stretched 246).Vacant (topDisk []) ["r"] ∧
      (stretched 246).NamesFit ∧
      ∀ xs, (((stretched 246).writeAll xs).run (topDisk [])).1 = .ok () := by
  have hv := validate_stretched (k := 246) (by decide)
  have hfit := namesFit_stretched (k := 246) (by decide) le_rfl
  exact ⟨hv, vacant_stretched 246, hfit, (writes_succeed_iff hv (vacant_stretched 246)).2 hfit⟩

/-- With one byte more the table still passes the check, but the factors cannot be written. -/
theorem not_writes_succeed :
    ¬ ∀ (w : Workspace) (d : Disk) (r : Place), w.names.validate = .ok () → w.Vacant d r →
      ∀ xs, ((w.writeAll xs).run d).1 = .ok () := by
  intro h
  have hv := validate_stretched (k := 247) (by decide)
  have hwritten := h (stretched 247) (topDisk []) ["r"] hv (vacant_stretched 247)
    [.factors emptyFactors]
  have hfits := fits_of_writeAll_singleton (FileNames.sound_of_validate hv) hwritten
    (stagingName (lettered 247)) List.mem_cons_self
  have hsize : (stagingName (lettered 247)).utf8ByteSize = 256 := by
    rw [size_stagingName, size_lettered]
  exact absurd hfits.name (by rw [hsize]; decide)

end Workspace

end NumericSteps
