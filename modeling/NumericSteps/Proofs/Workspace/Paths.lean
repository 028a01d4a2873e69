import NumericSteps.Proofs.Disk.Effect
import NumericSteps.Workspace.Basic

namespace NumericSteps

/-- A name that can stand for a file in a directory. -/
structure Plain (n : String) : Prop where
  slash : '/' ∉ n.toList
  empty : n ≠ ""
  dot : n ≠ "."
  dots : n ≠ ".."

namespace Path

/-- The pieces in front of a name that is joined to the path. -/
def trunk (r : Path) : List String := if isOpen r.pieces then r.pieces.dropLast else r.pieces

theorem isAbsolute_append (l : List String) (n : String) :
    (Path.mk (l ++ [n])).isAbsolute = (l.head? == some "") := by
  unfold isAbsolute
  match l with
  | [] => split <;> simp_all
  | a :: [] => by_cases h : a = "" <;> simp [h]
  | a :: b :: l => by_cases h : a = "" <;> simp [h]

theorem join_ofText (r : Path) {n : String} (h : '/' ∉ n.toList) :
    r.join (.ofText n) = ⟨r.trunk ++ [n]⟩ := by
  have ha : (Path.mk [n]).isAbsolute = false := isAbsolute_append [] n
  rw [ofText_of_plain n h, join, ha]
  rfl

theorem isEmpty_append (l : List String) {n : String} (h : n ≠ "") :
    (Path.mk (l ++ [n])).isEmpty = false := by
  simp [isEmpty, h]

theorem endsWithSlash_append (l : List String) {n : String} (h : n ≠ "") :
    (Path.mk (l ++ [n])).endsWithSlash = false := by
  simp [endsWithSlash, isOpen, h]

theorem route_append (l : List String) {n : String} (h : n ≠ "") :
    (Path.mk (l ++ [n])).route = l.filter (· ≠ "") ++ [n] := by
  simp [route, h]

theorem hasNul_append (l : List String) (n : String) :
    (Path.mk (l ++ [n])).hasNul = ((Path.mk l).hasNul || n.toList.contains '\x00') := by
  simp [hasNul]

theorem size_append_le (l : List String) {m n : String} (h : m.utf8ByteSize ≤ n.utf8ByteSize) :
    (Path.mk (l ++ [m])).text.utf8ByteSize ≤ (Path.mk (l ++ [n])).text.utf8ByteSize := by
  unfold text
  by_cases hl : l = []
  · simpa [hl] using h
  · rw [String.intercalate_append_of_ne_nil hl (by simp),
      String.intercalate_append_of_ne_nil hl (by simp)]
    simpa using h

end Path

theorem Disk.walk_append (d : Disk) (p : Place) (cs ds : List String) :
    d.walk p (cs ++ ds) = (d.walk p cs).bind fun q => d.walk q ds := by
  induction cs generalizing p with
  | nil => rfl
  | cons c cs ih =>
    simp only [List.cons_append, Disk.walk]
    split
    · rfl
    · by_cases h1 : c = "."
      · rw [if_pos h1, if_pos h1, ih]
      · rw [if_neg h1, if_neg h1]
        by_cases h2 : c = ".."
        · rw [if_pos h2, if_pos h2, ih]
        · rw [if_neg h2, if_neg h2]
          by_cases h3 : Disk.maxName < c.utf8ByteSize
          · rw [if_pos h3, if_pos h3]
            rfl
          · rw [if_neg h3, if_neg h3, ih]
    · rfl

namespace Workspace

variable {w : Workspace} {d : Disk} {m n : String}

/-- The path of a name in the workspace. -/
def file (w : Workspace) (n : String) : Path := w.root.join (.ofText n)

theorem path_eq (w : Workspace) (s : Slot) : w.path s = w.file (w.names.name s) := rfl

theorem stagingPath_eq (w : Workspace) (s : Slot) :
    w.stagingPath s = w.file (stagingName (w.names.name s)) := rfl

/-- Where the directory of the workspace stands. -/
def seat (w : Workspace) (d : Disk) : Except OsFault Place :=
  d.walk (if w.root.trunk.head? == some "" then [] else d.here) (w.root.trunk.filter (· ≠ ""))

/-- The operating system takes the name and the path to it. -/
structure Fits (w : Workspace) (n : String) : Prop where
  noNul : (w.file n).hasNul = false
  path : (w.file n).text.utf8ByteSize ≤ Disk.maxPath
  name : n.utf8ByteSize ≤ Disk.maxName

theorem file_eq (w : Workspace) (h : Plain n) : w.file n = ⟨w.root.trunk ++ [n]⟩ :=
  Path.join_ofText w.root h.slash

theorem walk_file (w : Workspace) (d : Disk) (h : Plain n) :
    d.walk (if (w.file n).isAbsolute then [] else d.here) (w.file n).route =
      (w.seat d).bind fun r => d.walk r [n] := by
  rw [w.file_eq h, Path.isAbsolute_append, Path.route_append _ h.empty, Disk.walk_append]
  rfl

theorem walk_name (h : Plain n) {r p : Place} :
    d.walk r [n] = .ok p ↔
      d.get? r = some .directory ∧ n.utf8ByteSize ≤ Disk.maxName ∧ p = r ++ [n] := by
  simp only [Disk.walk]
  split
  · simp_all
  · rename_i hr
    rw [if_neg h.dot, if_neg h.dots]
    by_cases hl : Disk.maxName < n.utf8ByteSize
    · rw [if_pos hl]
      simp [Nat.not_le.2 hl]
    · rw [if_neg hl]
      simp [hr, Nat.not_lt.1 hl, eq_comm]
  · simp_all

theorem locate_file_ok (h : Plain n) {t : Disk.Target} :
    d.locate (w.file n) = .ok t ↔
      w.Fits n ∧ ∃ r, w.seat d = .ok r ∧ d.get? r = some .directory ∧ t = ⟨r ++ [n], true, false⟩ := by
  have he : (w.file n).isEmpty = false := by rw [w.file_eq h, Path.isEmpty_append _ h.empty]
  have hs : (w.file n).endsWithSlash = false := by
    rw [w.file_eq h, Path.endsWithSlash_append _ h.empty]
  have hd : Disk.isDots (w.file n).route.getLast? = false := by
    rw [w.file_eq h, Path.route_append _ h.empty]
    simp [Disk.isDots, h.dot, h.dots]
  rw [Disk.locate_eq_ok, w.walk_file d h, he, hs, hd]
  constructor
  · rintro ⟨hnul, -, hpath, p, hwalk, rfl⟩
    obtain ⟨r, hw, hwalk⟩ := bind_ok_iff.1 hwalk
    obtain ⟨hr, hname, rfl⟩ := (walk_name h).1 hwalk
    exact ⟨⟨hnul, hpath, hname⟩, r, hw, hr, rfl⟩
  · rintro ⟨hf, r, hw, hr, rfl⟩
    have hn : d.walk r [n] = .ok (r ++ [n]) := (walk_name h).2 ⟨hr, hf.name, rfl⟩
    refine ⟨hf.noNul, rfl, hf.path, r ++ [n], ?_, rfl⟩
    rw [hw]
    exact hn

theorem names_file (h : Plain n) {p : Place} :
    d.Names (w.file n) p ↔
      w.Fits n ∧ ∃ r, w.seat d = .ok r ∧ d.get? r = some .directory ∧ p = r ++ [n] := by
  unfold Disk.Names
  rw [locate_file_ok h]
  simp

theorem place?_file (h : Plain n) {p : Place} :
    d.place? (w.file n) = some p ↔ d.Names (w.file n) p := by
  constructor
  · intro hp
    obtain ⟨t, ht, rfl⟩ := Disk.place?_eq_some.1 hp
    obtain ⟨-, r, -, -, rfl⟩ := (locate_file_ok h).1 ht
    exact ht
  · exact Disk.Names.place?

/-- Two names lead to one place only if they are the same. -/
theorem names_inj (hm : Plain m) (hn : Plain n) {p : Place} (h : d.Names (w.file m) p)
    (k : d.Names (w.file n) p) : m = n := by
  obtain ⟨_, r, hr, _, rfl⟩ := (names_file hm).1 h
  obtain ⟨_, q, hq, _, hp⟩ := (names_file hn).1 k
  rw [hr] at hq
  cases hq
  simpa using hp

theorem toList_stagingName (n : String) :
    (stagingName n).toList = '.' :: (n.toList ++ ".partial".toList) := by
  simp [stagingName]

theorem stagingName_inj (h : stagingName m = stagingName n) : m = n := by
  have hl := congrArg String.toList h
  rw [toList_stagingName, toList_stagingName, List.cons.injEq, List.append_left_inj] at hl
  exact String.toList_inj.1 hl.2

theorem length_stagingName (n : String) :
    (stagingName n).toList.length = n.toList.length + 9 := by
  rw [toList_stagingName, List.length_cons, List.length_append]
  rfl

theorem plain_stagingName (h : Plain n) : Plain (stagingName n) where
  slash := by
    rw [toList_stagingName, List.mem_cons, List.mem_append, not_or, not_or]
    exact ⟨by decide, h.slash, by decide⟩
  empty := by
    intro he
    have hl := length_stagingName n
    rw [he, String.toList_empty, List.length_nil] at hl
    omega
  dot := by
    intro he
    have hl := length_stagingName n
    rw [he] at hl
    change 1 = _ at hl
    omega
  dots := by
    intro he
    have hl := length_stagingName n
    rw [he] at hl
    change 2 = _ at hl
    omega

/-- Where the staging file of a name can be made, the name itself can be taken. -/
theorem Fits.of_staging (h : Plain n) (hf : w.Fits (stagingName n)) : w.Fits n := by
  have hs : n.utf8ByteSize ≤ (stagingName n).utf8ByteSize := by
    simp only [stagingName, String.utf8ByteSize_append]
    omega
  have hn := hf.noNul
  have hp := hf.path
  rw [w.file_eq (plain_stagingName h)] at hn hp
  refine ⟨?_, ?_, Nat.le_trans hs hf.name⟩
  · rw [w.file_eq h]
    rw [Path.hasNul_append, Bool.or_eq_false_iff] at hn ⊢
    refine ⟨hn.1, ?_⟩
    have hc := hn.2
    rw [toList_stagingName] at hc
    simp only [List.contains_eq_mem, List.mem_cons, List.mem_append, decide_eq_false_iff_not,
      not_or] at hc ⊢
    exact hc.2.1
  · rw [w.file_eq h]
    exact Nat.le_trans (Path.size_append_le _ hs) hp

theorem names_of_staging (h : Plain n) {r : Place}
    (hp : d.Names (w.file (stagingName n)) (r ++ [stagingName n])) :
    d.Names (w.file n) (r ++ [n]) := by
  obtain ⟨hf, q, hq, hd, he⟩ := (names_file (plain_stagingName h)).1 hp
  rw [List.append_left_inj] at he
  subst he
  exact (names_file h).2 ⟨hf.of_staging h, r, hq, hd, rfl⟩

end Workspace

end NumericSteps
