import NumericSteps.Proofs.Decimal.Value
import NumericSteps.Proofs.Workspace.Validation
import NumericSteps.Settings.Toml

namespace NumericSteps

open Toml

namespace Settings

variable {t u : Table} {c : Settings} {cs : List Char} {key : String} {v : Value} {x : Float}

section Fields

/-- A number is written as one, or as an integer, for the nearest double. -/
inductive IsNumber : Value → Float → Prop
  | float (x : Float) : IsNumber (.float x) x
  | integer (n : Int) :
      IsNumber (.integer n) (Double.ofCode (decide (n < 0)) (Double.nearestCode n.natAbs 1))

inductive IsMode : Value → SvdMode → Prop
  | full : IsMode (.text "full".toList) .full
  | thin : IsMode (.text "thin".toList) .thin

inductive IsName : Value → String → Prop
  | text (cs : List Char) : IsName (.text cs) (String.ofList cs)

/-- A field is what the value under its key stands for, or the default if there is none. -/
def Given {α : Type} (t : Table) (key : String) (Stands : Value → α → Prop) (default a : α) : Prop :=
  t.get? key.toList = none ∧ a = default ∨ ∃ v, t.get? key.toList = some v ∧ Stands v a

/-- The table of names inside a table. -/
def namesTable (t : Table) : Table :=
  match t.get? "files".toList with
  | some (.table _ u) => u
  | _ => []

/-- The settings are the defaults but for the fields that the table has. -/
structure Overlay (t : Table) (c : Settings) : Prop where
  tolerance : Given t "compare_tolerance" IsNumber Compare.defaultTolerance c.compareTolerance
  threshold : Given t "grad_threshold" IsNumber Descent.defaultThreshold c.gradThreshold
  rate : Given t "learning_rate" IsNumber Descent.defaultRate c.learningRate
  mode : Given t "svd_mode" IsMode SvdMode.full c.svdMode
  names : ∀ s : Slot,
    Given (namesTable t) s.key IsName (({} : FileNames).name s) (c.files.name s)

def numberKeys : List String := ["compare_tolerance", "grad_threshold", "learning_rate"]

/-- Every field that the table has says something of its kind. -/
structure Admissible (t : Table) : Prop where
  numbers : ∀ key ∈ numberKeys, ∀ v, t.get? key.toList = some v → ∃ x, IsNumber v x
  mode : ∀ v, t.get? "svd_mode".toList = some v → ∃ m, IsMode v m
  names : ∀ (s : Slot) v, (namesTable t).get? s.key.toList = some v → ∃ n, IsName v n

/-- The mode is a text and the names are a table, where there are any. -/
structure Regular (t : Table) : Prop where
  mode : ∀ v, t.get? "svd_mode".toList = some v → ∃ cs, v = .text cs
  names : ∀ v, t.get? "files".toList = some v → ∃ origin u, v = .table origin u

/-- Two tables with the same fields, whatever else is in them. -/
structure SameFields (t u : Table) : Prop where
  plain : ∀ key ∈ "svd_mode" :: numberKeys, t.get? key.toList = u.get? key.toList
  names : ∀ s : Slot, (namesTable t).get? s.key.toList = (namesTable u).get? s.key.toList

end Fields

section Values

def Positive (x : Float) : Prop := x.isFinite = true ∧ 0.0 < x

instance (x : Float) : Decidable (Positive x) := inferInstanceAs (Decidable (_ ∧ _))

/-- The numbers in the order in which they are checked. -/
def numbers (c : Settings) : List (String × Float) :=
  [("compare_tolerance", c.compareTolerance), ("grad_threshold", c.gradThreshold),
    ("learning_rate", c.learningRate)]

/-- All numbers are positive and finite, and the names are usable and differ. -/
structure Sound (c : Settings) : Prop where
  numbers : ∀ y ∈ c.numbers, Positive y.2
  usable : ∀ s, FileNames.Usable (c.files.name s)
  distinct : Function.Injective c.files.name

/-- What settings are refused with: the first number that is not positive, or a name if there is no
such number. -/
inductive Refused (c : Settings) : SettingFault → Prop
  | number {key : String} {x : Float} : c.numbers.find? (fun y => ¬ Positive y.2) = some (key, x) →
      Refused c (.notPositive key x)
  | name {f : SettingFault} : (∀ y ∈ c.numbers, Positive y.2) → c.files.FirstRefused f → Refused c f

theorem isUsable_iff : isUsable x = true ↔ Positive x := by
  rw [isUsable, Bool.and_eq_true, decide_eq_true_iff]
  rfl

theorem checkNumber_ok_iff : checkNumber key x = .ok () ↔ Positive x := by
  rw [checkNumber, ← isUsable_iff]
  split_ifs with h
  · exact iff_of_true rfl h
  · exact iff_of_false (fun he => nomatch he) h

theorem checkNumber_error_iff {f : SettingFault} :
    checkNumber key x = .error f ↔ ¬ Positive x ∧ .notPositive key x = f := by
  rw [checkNumber, ← isUsable_iff]
  split_ifs with h
  · exact iff_of_false (fun he => nomatch he) fun he => he.1 h
  · rw [Except.error.injEq, and_iff_right h]

theorem check_ok_iff : c.check = .ok () ↔ c.Sound := by
  rw [check, then_ok_iff, then_ok_iff, then_ok_iff, checkNumber_ok_iff, checkNumber_ok_iff,
    checkNumber_ok_iff, FileNames.check_ok_iff]
  constructor
  · rintro ⟨ht, hg, hr, husable, hdistinct⟩
    exact ⟨by simp [numbers, ht, hg, hr], husable, hdistinct⟩
  · intro h
    have hnumbers : Positive c.compareTolerance ∧ Positive c.gradThreshold ∧ Positive c.learningRate := by
      simpa [numbers] using h.numbers
    exact ⟨hnumbers.1, hnumbers.2.1, hnumbers.2.2, h.usable, h.distinct⟩

theorem validate_ok_iff : c.validate = .ok () ↔ c.Sound := by
  rw [validate, mapError_ok_iff, check_ok_iff]

theorem check_error_iff {f : SettingFault} : c.check = .error f ↔ c.Refused f := by
  rw [check, then_error_iff, then_error_iff, then_error_iff]
  simp only [checkNumber_ok_iff, checkNumber_error_iff, FileNames.check_error_iff]
  constructor
  · rintro (⟨ht, rfl⟩ | ⟨ht, ⟨hg, rfl⟩ | ⟨hg, ⟨hr, rfl⟩ | ⟨hr, hnames⟩⟩⟩)
    · exact .number (by simp [numbers, ht])
    · exact .number (by simp [numbers, ht, hg])
    · exact .number (by simp [numbers, ht, hg, hr])
    · exact .name (by simp [numbers, ht, hg, hr]) hnames
  · intro h
    cases h with
    | number hfind =>
      by_cases ht : Positive c.compareTolerance
      · by_cases hg : Positive c.gradThreshold
        · by_cases hr : Positive c.learningRate
          · simp [numbers, ht, hg, hr] at hfind
          · obtain ⟨rfl, rfl⟩ : "learning_rate" = _ ∧ c.learningRate = _ := by
              simpa [numbers, ht, hg, hr] using hfind
            exact Or.inr ⟨ht, Or.inr ⟨hg, Or.inl ⟨hr, rfl⟩⟩⟩
        · obtain ⟨rfl, rfl⟩ : "grad_threshold" = _ ∧ c.gradThreshold = _ := by
            simpa [numbers, ht, hg] using hfind
          exact Or.inr ⟨ht, Or.inl ⟨hg, rfl⟩⟩
      · obtain ⟨rfl, rfl⟩ : "compare_tolerance" = _ ∧ c.compareTolerance = _ := by
          simpa [numbers, ht] using hfind
        exact Or.inl ⟨ht, rfl⟩
    | name hnumbers hnames =>
      have hall : Positive c.compareTolerance ∧ Positive c.gradThreshold ∧ Positive c.learningRate := by
        simpa [numbers] using hnumbers
      exact Or.inr ⟨hall.1, Or.inr ⟨hall.2.1, Or.inr ⟨hall.2.2, hnames⟩⟩⟩

end Values

section Tables

variable {α : Type} {Stands : Value → α → Prop} {read : Value → Option α} {default a : α}
  {slots : List Slot} {start n : FileNames}

theorem isNumber_iff : IsNumber v x ↔ toNumber v = some x := by
  have hnearest (k : Nat) : Decimal.nearest ⟨k, 0⟩ = Double.nearestCode k 1 := by
    rw [Decimal.nearest_eq]
    rfl
  constructor
  · intro h
    cases h with
    | float => rfl
    | integer k => rw [toNumber, Numeral.Reading.float, hnearest]
  · intro h
    cases v with
    | float y =>
      obtain rfl : y = x := Option.some.inj h
      exact .float y
    | integer k =>
      rw [toNumber, Numeral.Reading.float, hnearest, Option.some.injEq] at h
      exact h ▸ .integer k
    | _ => cases h

theorem isName_iff {name : String} : IsName v name ↔ toName v = some name := by
  constructor
  · intro h
    cases h
    rfl
  · intro h
    cases v with
    | text cs =>
      obtain rfl : String.ofList cs = name := Option.some.inj h
      exact .text cs
    | _ => cases h

theorem isMode_text_iff {m : SvdMode} : IsMode (.text cs) m ↔ toMode (.text cs) = some m := by
  constructor
  · intro h
    cases h <;> rfl
  · intro h
    rw [toMode, SvdMode.ofKey?] at h
    split_ifs at h with hfull hthin
    · obtain rfl : SvdMode.full = m := Option.some.inj h
      obtain rfl : cs = "full".toList := by rw [← hfull, String.toList_ofList]
      exact .full
    · obtain rfl : SvdMode.thin = m := Option.some.inj h
      obtain rfl : cs = "thin".toList := by rw [← hthin, String.toList_ofList]
      exact .thin

theorem given_iff (h : ∀ v, t.get? key.toList = some v → (Stands v a ↔ read v = some a)) :
    Given t key Stands default a ↔ field t key read default = some a := by
  unfold Given field
  cases hv : t.get? key.toList with
  | none => simp [eq_comm]
  | some v => simp [h v hv]

/-- Renaming goes slot by slot, and each slot has its name from the table or keeps it. -/
theorem foldlM_rename_iff (hn : slots.Nodup) :
    slots.foldlM (fun names s => (field t s.key toName (names.name s)).map (names.rename s)) start =
      some n ↔ (∀ s ∈ slots, field t s.key toName (start.name s) = some (n.name s)) ∧
        ∀ s, s ∉ slots → n.name s = start.name s := by
  induction slots generalizing start with
  | nil =>
    rw [List.foldlM_nil]
    constructor
    · intro h
      obtain rfl : start = n := Option.some.inj h
      simp
    · intro h
      have hsame : start = n := FileNames.ext_name _ _ fun s => (h.2 s List.not_mem_nil).symm
      rw [hsame]
      rfl
  | cons s slots ih =>
    rw [List.nodup_cons] at hn
    rw [List.foldlM_cons]
    cases hs : field t s.key toName (start.name s) with
    | none => simp [hs]
    | some name =>
      change slots.foldlM _ (start.rename s name) = some n ↔ _
      rw [ih hn.2, List.forall_mem_cons, hs, Option.some.injEq]
      have hsame {r : Slot} (hr : r ≠ s) : (start.rename s name).name r = start.name r := by
        rw [FileNames.name_rename, if_neg hr]
      have hnew : (start.rename s name).name s = name := by rw [FileNames.name_rename, if_pos rfl]
      have hslots : ∀ r ∈ slots, r ≠ s := fun r hr he => hn.1 (he ▸ hr)
      constructor
      · rintro ⟨hin, hout⟩
        refine ⟨⟨?_, fun r hr => ?_⟩, fun r hr => ?_⟩
        · rw [hout s hn.1, hnew]
        · rw [← hsame (hslots r hr)]
          exact hin r hr
        · rw [List.mem_cons, not_or] at hr
          rw [hout r hr.2, hsame hr.1]
      · rintro ⟨⟨hname, hin⟩, hout⟩
        refine ⟨fun r hr => ?_, fun r hr => ?_⟩
        · rw [hsame (hslots r hr)]
          exact hin r hr
        · by_cases he : r = s
          · rw [he, hnew, hname]
          · rw [hsame he]
            exact hout r (by simp [he, hr])

theorem namesOfTable_iff : namesOfTable t = some n ↔
    ∀ s : Slot, Given t s.key IsName (({} : FileNames).name s) (n.name s) := by
  have hgiven (s : Slot) : Given t s.key IsName (({} : FileNames).name s) (n.name s) ↔
      field t s.key toName (({} : FileNames).name s) = some (n.name s) := given_iff fun v _ => isName_iff
  rw [namesOfTable, foldlM_rename_iff Slot.all_nodup]
  simp only [hgiven]
  exact ⟨fun h s => h.1 s s.mem_all, fun h => ⟨fun s _ => h s, fun s hs => absurd s.mem_all hs⟩⟩

theorem field_files_iff (ht : Regular t) : field t "files" toNames {} = some n ↔
    ∀ s : Slot, Given (namesTable t) s.key IsName (({} : FileNames).name s) (n.name s) := by
  rw [← namesOfTable_iff, field, namesTable]
  cases hv : t.get? "files".toList with
  | none =>
    have hempty : namesOfTable [] = some {} := by decide
    rw [hempty]
  | some v =>
    obtain ⟨origin, u, rfl⟩ := ht.names v hv
    rfl

/-- What is made of a table is its overlay over the defaults. -/
theorem ofTable_iff (ht : Regular t) : ofTable t = some c ↔ Overlay t c := by
  have hnumber {key : String} {default x : Float} :
      Given t key IsNumber default x ↔ field t key toNumber default = some x :=
    given_iff fun v _ => isNumber_iff
  have hmode : Given t "svd_mode" IsMode SvdMode.full c.svdMode ↔
      field t "svd_mode" toMode .full = some c.svdMode := by
    refine given_iff fun v hv => ?_
    obtain ⟨cs, rfl⟩ := ht.mode v hv
    exact isMode_text_iff
  have hoverlay : Overlay t c ↔
      field t "compare_tolerance" toNumber Compare.defaultTolerance = some c.compareTolerance ∧
      field t "grad_threshold" toNumber Descent.defaultThreshold = some c.gradThreshold ∧
      field t "learning_rate" toNumber Descent.defaultRate = some c.learningRate ∧
      field t "svd_mode" toMode .full = some c.svdMode ∧
      field t "files" toNames {} = some c.files := by
    rw [field_files_iff ht, ← hnumber, ← hnumber, ← hnumber, ← hmode]
    exact ⟨fun h => ⟨h.tolerance, h.threshold, h.rate, h.mode, h.names⟩,
      fun h => ⟨h.1, h.2.1, h.2.2.1, h.2.2.2.1, h.2.2.2.2⟩⟩
  rw [hoverlay, ofTable]
  obtain ⟨tolerance, threshold, rate, mode, files⟩ := c
  simp only [Option.bind_eq_bind, Option.bind_eq_some_iff, Option.pure_def, Option.some.injEq,
    Settings.mk.injEq]
  constructor
  · rintro ⟨a, ha, b, hb, r, hr, m, hm, n, hn, rfl, rfl, rfl, rfl, rfl⟩
    exact ⟨ha, hb, hr, hm, hn⟩
  · intro ⟨ha, hb, hr, hm, hn⟩
    exact ⟨_, ha, _, hb, _, hr, _, hm, _, hn, rfl, rfl, rfl, rfl, rfl⟩

theorem exists_given_iff : (∃ a, Given t key Stands default a) ↔
    ∀ v, t.get? key.toList = some v → ∃ a, Stands v a := by
  unfold Given
  cases hv : t.get? key.toList with
  | none => simp
  | some v => simp

theorem exists_overlay_iff : (∃ c, Overlay t c) ↔ Admissible t := by
  constructor
  · rintro ⟨c, h⟩
    refine ⟨?_, exists_given_iff.1 ⟨_, h.mode⟩, fun s => exists_given_iff.1 ⟨_, h.names s⟩⟩
    have htolerance := exists_given_iff.1 ⟨_, h.tolerance⟩
    have hthreshold := exists_given_iff.1 ⟨_, h.threshold⟩
    have hrate := exists_given_iff.1 ⟨_, h.rate⟩
    simp only [numberKeys, List.forall_mem_cons]
    exact ⟨htolerance, hthreshold, hrate, nofun⟩
  · intro h
    have hnumber (key : String) (hk : key ∈ numberKeys) (default : Float) :
        ∃ x, Given t key IsNumber default x := exists_given_iff.2 (h.numbers key hk)
    obtain ⟨tolerance, htolerance⟩ := hnumber "compare_tolerance" (by decide) _
    obtain ⟨threshold, hthreshold⟩ := hnumber "grad_threshold" (by decide) _
    obtain ⟨rate, hrate⟩ := hnumber "learning_rate" (by decide) _
    obtain ⟨mode, hmode⟩ := exists_given_iff.2 h.mode
    have hname (s : Slot) :
        ∃ v, Given (namesTable t) s.key IsName (({} : FileNames).name s) v :=
      exists_given_iff.2 (h.names s)
    choose f hf using hname
    obtain ⟨files, hfiles⟩ : ∃ files : FileNames, ∀ s, files.name s = f s :=
      ⟨⟨f .matrixIn, f .matrixOut, f .factorU, f .factorS, f .factorVt, f .approxOld, f .grad,
        f .approxNew, f .solution, f .approxLog⟩, fun s => by cases s <;> rfl⟩
    refine ⟨⟨tolerance, threshold, rate, mode, files⟩, htolerance, hthreshold, hrate, hmode, fun s => ?_⟩
    rw [hfiles s]
    exact hf s

theorem given_congr (h : t.get? key.toList = u.get? key.toList) :
    Given t key Stands default a ↔ Given u key Stands default a := by
  rw [Given, Given, h]

theorem Overlay.of_sameFields (h : Overlay t c) (hu : SameFields t u) : Overlay u c := by
  have htolerance := hu.plain "compare_tolerance" (by decide)
  have hthreshold := hu.plain "grad_threshold" (by decide)
  have hrate := hu.plain "learning_rate" (by decide)
  have hmode := hu.plain "svd_mode" (by decide)
  exact ⟨(given_congr htolerance).1 h.tolerance, (given_congr hthreshold).1 h.threshold,
    (given_congr hrate).1 h.rate, (given_congr hmode).1 h.mode,
    fun s => (given_congr (hu.names s)).1 (h.names s)⟩

theorem SameFields.symm (h : SameFields t u) : SameFields u t :=
  ⟨fun key hk => (h.plain key hk).symm, fun s => (h.names s).symm⟩

theorem ofTable_congr (ht : Regular t) (hu : Regular u) (h : SameFields t u) :
    ofTable u = ofTable t := by
  refine Option.ext fun c => ?_
  rw [ofTable_iff ht, ofTable_iff hu]
  exact ⟨fun ho => ho.of_sameFields h.symm, fun ho => ho.of_sameFields h⟩

theorem Overlay.unique {b : Settings} (ht : Regular t) (hb : Overlay t b) (hc : Overlay t c) : c = b := by
  have hsame := (ofTable_iff ht).2 hb
  rw [(ofTable_iff ht).2 hc] at hsame
  exact Option.some.inj hsame

end Tables

section Documents

/-- A document whose fields are not all of their kind is refused for that, whatever the others say. Of
any other the settings come out, or the first of their values that cannot be used is told. -/
theorem ofToml_cases (hread : Toml.read cs = some t) (ht : Regular t) :
    ¬ Admissible t ∧ ofToml cs = .error notSettings ∨
    Admissible t ∧ ∃ c, Overlay t c ∧ (c.Sound ∧ ofToml cs = .ok c ∨
      ¬ c.Sound ∧ ∃ f, c.Refused f ∧ ofToml cs = .error (.unusable f)) := by
  rw [ofToml, hread, Option.bind_some]
  by_cases h : Admissible t
  · right
    obtain ⟨c, hc⟩ := exists_overlay_iff.2 h
    refine ⟨h, c, hc, ?_⟩
    rw [(ofTable_iff ht).2 hc]
    dsimp only
    rw [validate]
    cases hcheck : c.check with
    | ok u => exact Or.inl ⟨check_ok_iff.1 hcheck, rfl⟩
    | error f =>
      have hsound : ¬ c.Sound := by
        rw [← check_ok_iff, hcheck]
        exact nofun
      exact Or.inr ⟨hsound, f, check_error_iff.1 hcheck, rfl⟩
  · left
    have hnone : ofTable t = none := by
      rw [Option.eq_none_iff_forall_ne_some]
      intro c hc
      exact h (exists_overlay_iff.1 ⟨c, (ofTable_iff ht).1 hc⟩)
    rw [hnone]
    exact ⟨h, rfl⟩

/-- A document gives settings just if every field in it says something of its kind, and the defaults,
overlaid with the fields that are there, can all be used. A field of another kind is told before any value
that cannot be used, and what is no field makes no difference. -/
theorem ofToml_overlays (hread : Toml.read cs = some t) (ht : Regular t) :
    (∀ c, ofToml cs = .ok c ↔ Admissible t ∧ Overlay t c ∧ c.Sound) ∧
    (Admissible t → ∃! c, Overlay t c) ∧
    ((∃ reason, ofToml cs = .error (.malformed reason)) ↔ ¬ Admissible t) ∧
    (∀ c, Overlay t c → ¬ c.Sound → ∃ f, c.Refused f ∧ ofToml cs = .error (.unusable f)) ∧
    ∀ ds u, Toml.read ds = some u → Regular u → SameFields t u → ofToml ds = ofToml cs := by
  have hfields {ds : List Char} {u : Table} (hds : Toml.read ds = some u) (hu : Regular u)
      (hsame : SameFields t u) : ofToml ds = ofToml cs := by
    rw [ofToml, ofToml, hread, hds, Option.bind_some, Option.bind_some, ofTable_congr ht hu hsame]
  have hunique {b c : Settings} (hb : Overlay t b) (hc : Overlay t c) : c = b := hb.unique ht hc
  rcases ofToml_cases hread ht with
    ⟨hkind, hdoc⟩ | ⟨hkind, b, hb, ⟨hsound, hdoc⟩ | ⟨hsound, f, hf, hdoc⟩⟩
  · refine ⟨fun c => ?_, fun h => absurd h hkind, ?_, fun c hc => ?_, fun ds u => hfields⟩
    · simp [hdoc, hkind]
    · exact iff_of_true ⟨_, hdoc⟩ hkind
    · exact absurd (exists_overlay_iff.1 ⟨c, hc⟩) hkind
  · refine ⟨fun c => ⟨fun h => ?_, fun h => ?_⟩, fun _ => ⟨b, hb, fun c => hunique hb⟩, ?_,
      fun c hc hnot => ?_, fun ds u => hfields⟩
    · rw [hdoc] at h
      obtain rfl : b = c := Except.ok.inj h
      exact ⟨hkind, hb, hsound⟩
    · rw [hunique hb h.2.1]
      exact hdoc
    · simp [hdoc, hkind]
    · exact absurd (hunique hb hc ▸ hsound) hnot
  · refine ⟨fun c => ⟨fun h => ?_, fun h => ?_⟩, fun _ => ⟨b, hb, fun c => hunique hb⟩, ?_,
      fun c hc _ => ?_, fun ds u => hfields⟩
    · rw [hdoc] at h
      cases h
    · exact absurd (hunique hb h.2.1 ▸ h.2.2) hsound
    · simp [hdoc, hkind]
    · exact ⟨f, hunique hb hc ▸ hf, hdoc⟩

/-- Fields at both levels, and beside them keys that are no fields. -/
def partialDocument : List Char :=
  "learning_rate = 2\nsvd_mode = \"thin\"\nextra = [1]\n\n[files]\nsolution = \"m 1\"\nm1 = 3\n".toList

def partialTable : Table :=
  [("learning_rate".toList, .integer 2), ("svd_mode".toList, .text "thin".toList),
    ("extra".toList, .array [.integer 1]),
    ("files".toList, .table .header
      [("solution".toList, .text "m 1".toList), ("m1".toList, .integer 3)])]

/-- A number that cannot be used, in front of a mode that is none. -/
def sidewaysDocument : List Char := "learning_rate = -1\nsvd_mode = \"sideways\"".toList

def sidewaysTable : Table :=
  [("learning_rate".toList, .integer (-1)), ("svd_mode".toList, .text "sideways".toList)]

theorem ofToml_overlays_partial :
    Toml.read partialDocument = some partialTable ∧ Regular partialTable ∧
      Overlay partialTable { learningRate := 2, svdMode := .thin, files := { solution := "m 1" } } ∧
      Toml.read sidewaysDocument = some sidewaysTable ∧ Regular sidewaysTable ∧
      ¬ Admissible sidewaysTable := by
  have hpartial : Toml.read partialDocument = some partialTable := rfl
  have hsideways : Toml.read sidewaysDocument = some sidewaysTable := rfl
  have hregular : Regular partialTable := by
    refine ⟨fun v hv => ?_, fun v hv => ?_⟩
    · obtain rfl : Value.text "thin".toList = v := Option.some.inj hv
      exact ⟨_, rfl⟩
    · obtain rfl : Value.table .header _ = v := Option.some.inj hv
      exact ⟨_, _, rfl⟩
  have hregular' : Regular sidewaysTable := by
    refine ⟨fun v hv => ?_, fun v hv => nomatch hv⟩
    obtain rfl : Value.text "sideways".toList = v := Option.some.inj hv
    exact ⟨_, rfl⟩
  have hok : ofToml partialDocument =
      .ok { learningRate := 2, svdMode := .thin, files := { solution := "m 1" } } := by decide +kernel
  have hrefused : ofToml sidewaysDocument = .error notSettings := by decide +kernel
  obtain ⟨hvalues, -⟩ := ofToml_overlays hpartial hregular
  obtain ⟨-, -, hkinds, -⟩ := ofToml_overlays hsideways hregular'
  exact ⟨hpartial, hregular, ((hvalues _).1 hok).2.1, hsideways, hregular', hkinds.1 ⟨_, hrefused⟩⟩

end Documents

end Settings

end NumericSteps
