import NumericSteps.Proofs.Text.Words
import NumericSteps.Proofs.Workspace.Names

namespace NumericSteps

namespace FileNames

open Text

variable {t : FileNames} {s : Slot} {seen : List String} {xs ys : List Slot} {f : SettingFault}

/-- A name that shows something and leads nowhere else. -/
structure Usable (n : String) : Prop where
  filled : ∃ c ∈ n.toList, isBlank c = false
  slash : '/' ∉ n.toList
  backslash : '\\' ∉ n.toList
  dot : n ≠ "."
  dots : n ≠ ".."

/-- What the name of a slot is refused with, after the slots in `before`. -/
inductive Refused (t : FileNames) (before : List Slot) (s : Slot) : SettingFault → Prop
  | blank : (∀ c ∈ (t.name s).toList, isBlank c = true) → Refused t before s (.blankName s)
  | separator : (∃ c ∈ (t.name s).toList, isBlank c = false) →
      '/' ∈ (t.name s).toList ∨ '\\' ∈ (t.name s).toList →
      Refused t before s (.separatorInName s (t.name s))
  | reserved : t.name s = "." ∨ t.name s = ".." → Refused t before s (.reservedName s (t.name s))
  | shared {r : Slot} : Usable (t.name s) → r ∈ before → t.name r = t.name s →
      Refused t before s (.sharedName (t.name s))

/-- Usable names, no two of which are the same. -/
structure Distinct (t : FileNames) (ss : List Slot) : Prop where
  usable : ∀ s ∈ ss, Usable (t.name s)
  nodup : (ss.map t.name).Nodup

/-- The refusal of the first slot in order whose name is not usable, or is that of one before it. -/
def FirstRefused (t : FileNames) (f : SettingFault) : Prop :=
  ∃ before s after, Slot.all = before ++ s :: after ∧ t.Distinct before ∧ t.Refused before s f

section Faults

variable {n : String}

theorem nameFault_eq_none_iff : nameFault s n = none ↔ Usable n := by
  unfold nameFault
  constructor
  · intro h
    split at h
    · cases h
    · rename_i hblank
      split at h
      · cases h
      · rename_i hseparator
        split at h
        · cases h
        · rename_i hreserved
          rw [not_or] at hseparator hreserved
          exact ⟨trim_ne_nil_iff.1 hblank, hseparator.1, hseparator.2, hreserved.1, hreserved.2⟩
  · intro h
    rw [if_neg (trim_ne_nil_iff.2 h.filled), if_neg (not_or.2 ⟨h.slash, h.backslash⟩),
      if_neg (not_or.2 ⟨h.dot, h.dots⟩)]

/-- What is wrong with the name of a slot when those in `seen` have been given. -/
def slotFault (t : FileNames) (seen : List String) (s : Slot) : Option SettingFault :=
  (nameFault s (t.name s)).or (if t.name s ∈ seen then some (.sharedName (t.name s)) else none)

theorem slotFault_eq_none_iff : t.slotFault seen s = none ↔ Usable (t.name s) ∧ t.name s ∉ seen := by
  rw [slotFault, Option.or_eq_none_iff, nameFault_eq_none_iff]
  simp

theorem slotFault_eq_some_iff {before : List Slot} (hseen : ∀ n, n ∈ seen ↔ n ∈ before.map t.name) :
    t.slotFault seen s = some f ↔ t.Refused before s f := by
  constructor
  · intro h
    cases hown : nameFault s (t.name s) with
    | none =>
      rw [slotFault, hown, Option.none_or] at h
      split at h
      · rename_i hmem
        obtain ⟨r, hr, he⟩ := List.mem_map.1 ((hseen _).1 hmem)
        cases h
        exact .shared (nameFault_eq_none_iff.1 hown) hr he
      · cases h
    | some g =>
      rw [slotFault, hown, Option.some_or] at h
      cases h
      unfold nameFault at hown
      split at hown
      · rename_i hblank
        cases hown
        exact .blank ((trim_eq_nil_iff _).1 hblank)
      · rename_i hfilled
        split at hown
        · rename_i hseparator
          cases hown
          exact .separator (trim_ne_nil_iff.1 hfilled) hseparator
        · split at hown
          · rename_i hreserved
            cases hown
            exact .reserved hreserved
          · cases hown
  · intro h
    cases h with
    | blank hblank => rw [slotFault, nameFault, if_pos ((trim_eq_nil_iff _).2 hblank), Option.some_or]
    | separator hfilled hseparator =>
      rw [slotFault, nameFault, if_neg (trim_ne_nil_iff.2 hfilled), if_pos hseparator, Option.some_or]
    | reserved hreserved =>
      -- neither of the two reserved names is blank or holds a separator
      have hown : nameFault s (t.name s) = some (.reservedName s (t.name s)) := by
        rcases hreserved with he | he <;> rw [he] <;> rfl
      rw [slotFault, hown, Option.some_or]
    | shared husable hr he =>
      have hmem : t.name s ∈ seen := (hseen _).2 (List.mem_map.2 ⟨_, hr, he⟩)
      rw [slotFault, nameFault_eq_none_iff.2 husable, Option.none_or, if_pos hmem]

end Faults

section Order

theorem distinct_concat :
    t.Distinct (xs ++ [s]) ↔ t.Distinct xs ∧ Usable (t.name s) ∧ t.name s ∉ xs.map t.name := by
  constructor
  · intro h
    have hnodup := h.nodup
    rw [List.map_append, List.nodup_append] at hnodup
    refine ⟨⟨fun r hr => h.usable r (List.mem_append_left _ hr), hnodup.1⟩,
      h.usable s (List.mem_append_right _ List.mem_cons_self), fun hm => ?_⟩
    exact hnodup.2.2 _ hm _ List.mem_cons_self rfl
  · rintro ⟨hxs, husable, hnew⟩
    refine ⟨fun r hr => ?_, ?_⟩
    · rcases List.mem_append.1 hr with hr | hr
      · exact hxs.usable r hr
      · rw [List.mem_singleton.1 hr]
        exact husable
    · rw [List.map_append, List.map_singleton]
      exact List.nodup_append.2 ⟨hxs.nodup, List.nodup_singleton _, by
        rintro n hn m hm rfl
        exact hnew (List.mem_singleton.1 hm ▸ hn)⟩

theorem Distinct.of_append (h : t.Distinct (xs ++ ys)) : t.Distinct xs where
  usable s hs := h.usable s (List.mem_append_left _ hs)
  nodup := by
    have hnodup := h.nodup
    rw [List.map_append] at hnodup
    exact hnodup.of_append_left

theorem checkSlots_cons : checkSlots t seen (s :: xs) =
    match t.slotFault seen s with
    | some f => .error f
    | none => checkSlots t (t.name s :: seen) xs := by
  rw [checkSlots, slotFault]
  cases nameFault s (t.name s) with
  | some f => rfl
  | none =>
    by_cases hs : t.name s ∈ seen
    · simp [hs]
    · simp [hs]

/-- The check stops at the first slot that is refused after all before it. -/
theorem checkSlots_error_iff {before : List Slot} (hseen : ∀ n, n ∈ seen ↔ n ∈ before.map t.name)
    (hbefore : t.Distinct before) :
    checkSlots t seen xs = .error f ↔ ∃ front s after, xs = front ++ s :: after ∧
      t.Distinct (before ++ front) ∧ t.Refused (before ++ front) s f := by
  induction xs generalizing seen before with
  | nil => simp [checkSlots]
  | cons s xs ih =>
    rw [checkSlots_cons]
    cases hs : t.slotFault seen s with
    | some g =>
      have hrefused : t.Refused before s g := (slotFault_eq_some_iff hseen).1 hs
      constructor
      · intro h
        obtain rfl : g = f := Except.error.inj h
        exact ⟨[], s, xs, rfl, by rwa [List.append_nil], by rwa [List.append_nil]⟩
      · rintro ⟨front, r, after, hsplit, hfront, hr⟩
        cases front with
        | nil =>
          obtain ⟨rfl, -⟩ := List.cons.inj hsplit
          rw [List.append_nil, ← slotFault_eq_some_iff hseen, hs] at hr
          rw [Option.some.inj hr]
        | cons q front =>
          obtain ⟨rfl, -⟩ := List.cons.inj hsplit
          rw [List.append_cons] at hfront
          obtain ⟨-, husable, hnew⟩ := distinct_concat.1 hfront.of_append
          have hnone := slotFault_eq_none_iff.2 ⟨husable, mt (hseen _).1 hnew⟩
          rw [hs] at hnone
          cases hnone
    | none =>
      obtain ⟨husable, hnew⟩ := slotFault_eq_none_iff.1 hs
      have hnext : t.Distinct (before ++ [s]) :=
        distinct_concat.2 ⟨hbefore, husable, mt (hseen _).2 hnew⟩
      have hnames : ∀ n, n ∈ t.name s :: seen ↔ n ∈ (before ++ [s]).map t.name := by
        intro n
        rw [List.mem_cons, hseen n]
        simp [or_comm]
      rw [ih hnames hnext]
      constructor
      · rintro ⟨front, r, after, rfl, hfront, hr⟩
        rw [← List.append_cons] at hfront hr
        exact ⟨s :: front, r, after, rfl, hfront, hr⟩
      · rintro ⟨front, r, after, hsplit, hfront, hr⟩
        cases front with
        | nil =>
          obtain ⟨rfl, -⟩ := List.cons.inj hsplit
          rw [List.append_nil, ← slotFault_eq_some_iff hseen, hs] at hr
          cases hr
        | cons q front =>
          obtain ⟨rfl, rfl⟩ := List.cons.inj hsplit
          rw [List.append_cons] at hfront hr
          exact ⟨front, r, after, rfl, hfront, hr⟩

theorem check_error_iff : t.check = .error f ↔ t.FirstRefused f := by
  have hstart : t.Distinct [] := ⟨by simp, List.nodup_nil⟩
  exact checkSlots_error_iff (by simp) hstart

theorem check_ok_iff :
    t.check = .ok () ↔ (∀ s, Usable (t.name s)) ∧ Function.Injective t.name := by
  unfold check
  rw [checkSlots_ok]
  constructor
  · rintro ⟨hfault, hnodup⟩
    refine ⟨fun s => nameFault_eq_none_iff.1 (hfault s (Slot.mem_all s)).1, fun s r he => ?_⟩
    exact List.inj_on_of_nodup_map hnodup (Slot.mem_all s) (Slot.mem_all r) he
  · rintro ⟨husable, hinj⟩
    exact ⟨fun s _ => ⟨nameFault_eq_none_iff.2 (husable s), by simp⟩, Slot.all_nodup.map hinj⟩

/-- A slot can be given any usable name that no other slot has. -/
theorem check_rename {n : String} (h : t.check = .ok ()) (hn : Usable n)
    (hother : ∀ r, r ≠ s → t.name r ≠ n) : (t.rename s n).check = .ok () := by
  obtain ⟨husable, hinj⟩ := check_ok_iff.1 h
  refine check_ok_iff.2 ⟨fun r => ?_, fun q r he => ?_⟩
  · rw [name_rename]
    split
    · exact hn
    · exact husable r
  · rw [name_rename, name_rename] at he
    by_cases hq : q = s
    · by_cases hr : r = s
      · rw [hq, hr]
      · rw [if_pos hq, if_neg hr] at he
        exact absurd he.symm (hother r hr)
    · by_cases hr : r = s
      · rw [if_neg hq, if_pos hr] at he
        exact absurd he (hother q hq)
      · rw [if_neg hq, if_neg hr] at he
        exact hinj he

end Order

end FileNames

/-- A part of a path. -/
inductive Component
  /-- The top of the tree, at the start of an absolute path. -/
  | top
  /-- The dot at the start of a relative path. -/
  | here
  | up
  | name (n : String)
deriving DecidableEq

namespace Path

def component (piece : String) : Component := if piece = ".." then .up else .name piece

/-- Where a path starts, if it says so. -/
def start (p : Path) : List Component :=
  if p.isAbsolute then [.top] else if p.pieces.head? = some "." then [.here] else []

/-- The parts of a path: slashes in a row count once, and a dot only at the start of a relative
path. -/
def components (p : Path) : List Component := p.start ++ (p.route.filter (· ≠ ".")).map component

/-- What stands in front of a joined name is empty for an empty path, and else starts as the path
does. -/
theorem trunk_cases (r : Path) :
    r.trunk = [] ∧ (r.pieces = [] ∨ r.pieces = [""]) ∨
      ∃ a l, r.trunk = a :: l ∧ r.pieces.head? = some a ∧ r.isAbsolute = (a == "") := by
  obtain ⟨pieces⟩ := r
  match pieces with
  | [] => exact Or.inl ⟨rfl, Or.inl rfl⟩
  | [a] =>
    by_cases ha : a = ""
    · subst ha
      exact Or.inl ⟨rfl, Or.inr rfl⟩
    · have hopen : isOpen [a] = false := by simp [isOpen, ha]
      refine Or.inr ⟨a, [], ?_, rfl, ?_⟩
      · rw [trunk, hopen]
        rfl
      · simpa [isAbsolute] using ha
  | a :: b :: l =>
    have habsolute : (Path.mk (a :: b :: l)).isAbsolute = (a == "") := by
      by_cases ha : a = ""
      · subst ha
        rfl
      · simp [isAbsolute, ha]
    by_cases hopen : isOpen (a :: b :: l) = true
    · refine Or.inr ⟨a, (b :: l).dropLast, ?_, rfl, habsolute⟩
      rw [trunk, if_pos hopen, List.dropLast_cons_cons]
    · refine Or.inr ⟨a, b :: l, ?_, rfl, habsolute⟩
      rw [trunk, if_neg hopen]

theorem start_append_trunk (r : Path) {n : String} (h : Plain n) :
    (Path.mk (r.trunk ++ [n])).start = r.start := by
  rw [start, isAbsolute_append]
  rcases trunk_cases r with ⟨htrunk, hpieces⟩ | ⟨a, l, htrunk, hhead, habsolute⟩
  · rw [htrunk]
    rcases hpieces with he | he <;> simp [start, isAbsolute, he, h.dot]
  · rw [htrunk, start, habsolute, hhead]
    rfl

/-- A slash at the end of a path is no part of it. -/
theorem route_trunk (r : Path) : r.trunk.filter (· ≠ "") = r.route := by
  unfold trunk route
  split
  · rename_i hopen
    have hlast : r.pieces.getLast? = some "" := by simpa [isOpen] using hopen
    obtain ⟨front, hfront⟩ := List.getLast?_eq_some_iff.1 hlast
    rw [hfront, List.dropLast_concat, List.filter_append]
    simp
  · rfl

/-- A plain name joined to a path is one part more. -/
theorem components_join (r : Path) {n : String} (h : Plain n) :
    (r.join (.ofText n)).components = r.components ++ [.name n] := by
  rw [join_ofText r h.slash, components, start_append_trunk r h, route_append _ h.empty, route_trunk,
    List.filter_append, List.map_append, ← List.append_assoc]
  simp [h.dot, component, h.dots, components]

end Path

namespace FileNames

/-- The check passes just the tables of usable names that differ, and refuses any other for the first
slot that has no usable name of its own. -/
theorem validate_exact (t : FileNames) :
    (t.validate = .ok () ↔ (∀ s, Usable (t.name s)) ∧ Function.Injective t.name) ∧
    (∀ e, t.validate = .error e ↔ ∃ f, t.FirstRefused f ∧ .unusable f = e) ∧
    (t.validate = .ok () → ∀ root : Path,
      (Function.Injective fun s => (Workspace.path ⟨root, t⟩ s).components) ∧
      ∀ s, (Workspace.path ⟨root, t⟩ s).components = root.components ++ [.name (t.name s)]) := by
  refine ⟨?_, ?_, ?_⟩
  · rw [validate, mapError_ok_iff, check_ok_iff]
  · intro e
    rw [validate, mapError_error_iff]
    simp only [check_error_iff]
  · intro h root
    have hsound := sound_of_validate h
    have hjoin (s : Slot) : (Workspace.path ⟨root, t⟩ s).components =
        root.components ++ [.name (t.name s)] := root.components_join (hsound.plain s)
    refine ⟨fun s r he => ?_, hjoin⟩
    dsimp only at he
    rw [hjoin s, hjoin r] at he
    have hname : t.name s = t.name r := by simpa using he
    exact hsound.inj hname

/-- A table of names that are nearly blank or reserved, or lead nearly elsewhere. -/
def oddNames : FileNames := { matrixIn := " .", matrixOut := "...", grad := ".m1.partial" }

theorem validate_exact_odd :
    oddNames.validate = .ok () ∧
      (Function.Injective fun s => (Workspace.path ⟨⟨["", "r", ""]⟩, oddNames⟩ s).components) ∧
      (Workspace.path ⟨⟨["", "r", ""]⟩, oddNames⟩ .matrixOut).components =
        [.top, .name "r", .name "..."] := by
  have hv : oddNames.validate = .ok () := rfl
  obtain ⟨hinj, hchild⟩ := (validate_exact oddNames).2.2 hv ⟨["", "r", ""]⟩
  refine ⟨hv, hinj, ?_⟩
  rw [hchild .matrixOut]
  rfl

end FileNames

end NumericSteps
