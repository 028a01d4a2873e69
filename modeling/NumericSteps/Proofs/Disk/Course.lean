import NumericSteps.Proofs.Disk.Effect

namespace NumericSteps

/-- A write of the front of the bytes of a write. -/
inductive Change.Front : Change → Change → Prop
  | write (path : Path) (front back : Bytes) : Front (.write path front) (.write path (front ++ back))
  | writeHeld (handle : Nat) (front back : Bytes) :
      Front (.writeHeld handle front) (.writeHeld handle (front ++ back))

/-- How a change can go. A fault leaves the disk as it was, or breaks a write off. -/
inductive Change.Goes (mayFail : Disk → Change → Prop) (d : Disk) :
    Change → Except OsFault Unit → Disk → Prop
  | asAsked (c : Change) : Goes mayFail d c (c.perform d).1 (c.perform d).2
  | failed {c : Change} (f : OsFault) : mayFail d c → Goes mayFail d c (.error f) d
  | brokenOff {b c : Change} {e : Disk} (f : OsFault) :
      mayFail d c → b.Front c → b.apply d = .ok e → Goes mayFail d c (.error f) e

abbrev Course := List (Change × Except OsFault Unit)

/-- The course leads from a script and a disk to another disk and to the script that is left. -/
inductive Script.Leads {α : Type} (mayFail : Disk → Change → Prop) :
    Script α → Disk → Course → Script α → Disk → Prop
  | here (s : Script α) (d : Disk) : Leads mayFail s d [] s d
  | read {path : Path} {next : Except Disk.ReadFault Bytes → Script α} {d e : Disk}
      {course : Course} {t : Script α} :
      Leads mayFail (next (d.read path)) d course t e →
      Leads mayFail (.read path next) d course t e
  | isFile {path : Path} {next : Bool → Script α} {d e : Disk} {course : Course} {t : Script α} :
      Leads mayFail (next (d.isFile path)) d course t e →
      Leads mayFail (.isFile path next) d course t e
  | change {c : Change} {next : Except OsFault Unit → Script α} {d d' e : Disk} {course : Course}
      {t : Script α} {r : Except OsFault Unit} :
      Change.Goes mayFail d c r d' → Leads mayFail (next r) d' course t e →
      Leads mayFail (.change c next) d ((c, r) :: course) t e

/-- The course of a script to its end. -/
abbrev Script.Ends {α : Type} (mayFail : Disk → Change → Prop) (s : Script α) (d : Disk)
    (course : Course) (a : α) (e : Disk) : Prop := Script.Leads mayFail s d course (.done a) e

/-- What is said of a change that fails is told by a course in which it has failed. -/
def Course.Tells {γ : Type} (said : Change → OsFault → Option γ) (course : Course) (x : γ) : Prop :=
  ∃ c f, (c, Except.error f) ∈ course ∧ said c f = some x

/-- Every change can fail but the removal of a file that is there. -/
def Change.Fallible (d : Disk) (c : Change) : Prop := ∀ path, c = .remove path → d.isFile path = false

/-- The change is of files under the paths alone. -/
def Change.Within (paths : List Path) : Change → Prop
  | .create path => path ∈ paths
  | .openAppend path => path ∈ paths
  | .write path _ => path ∈ paths
  | .hold _ path => path ∈ paths
  | .writeHeld _ _ => False
  | .remove path => path ∈ paths
  | .rename source target => source ∈ paths ∧ target ∈ paths

/-- Whatever the replies, the script asks for no other changes. -/
def Script.Only {α : Type} (P : Change → Prop) : Script α → Prop
  | .done _ => True
  | .read _ next => ∀ r, (next r).Only P
  | .isFile _ next => ∀ r, (next r).Only P
  | .change c next => P c ∧ ∀ r, (next r).Only P

/-- The change is of files under such paths, and of none that is held open. -/
def Change.Uses (P : Path → Prop) : Change → Prop
  | .create path => P path
  | .openAppend path => P path
  | .write path _ => P path
  | .hold _ _ => False
  | .writeHeld _ _ => False
  | .remove path => P path
  | .rename source target => P source ∧ P target

/-- The script reads and changes files under such paths alone, and none that is held open. -/
def Script.Uses {α : Type} (P : Path → Prop) : Script α → Prop
  | .done _ => True
  | .read path next => P path ∧ ∀ r, (next r).Uses P
  | .isFile path next => P path ∧ ∀ r, (next r).Uses P
  | .change c next => c.Uses P ∧ ∀ r, (next r).Uses P

/-- All places are alike but those of the paths. -/
def Disk.SameBut (d : Disk) (paths : List Path) (e : Disk) : Prop :=
  ∀ q, (∀ path ∈ paths, d.place? path ≠ some q) → e.get? q = d.get? q

/-- The places a change can touch. -/
def Change.places (d : Disk) : Change → List Place
  | .create path => (d.place? path).toList
  | .openAppend path => (d.place? path).toList
  | .write path _ => (d.place? path).toList
  | .hold _ path => (d.place? path).toList
  | .writeHeld handle _ => (d.held.lookup handle).toList
  | .remove path => (d.place? path).toList
  | .rename source target => (d.place? source).toList ++ (d.place? target).toList

namespace Course

variable {γ : Type} {said : Change → OsFault → Option γ} {front back course : Course} {c : Change}
  {f : OsFault} {u : Unit} {x : γ}

theorem not_tells_nil : ¬ Tells said [] x := by
  rintro ⟨c, f, hm, -⟩
  cases hm

theorem tells_append : Tells said (front ++ back) x ↔ Tells said front x ∨ Tells said back x := by
  simp only [Tells, List.mem_append, or_and_right, exists_or]

theorem tells_cons_ok : Tells said ((c, .ok u) :: course) x ↔ Tells said course x := by
  simp [Tells]

theorem tells_failed : Tells said [(c, .error f)] x ↔ said c f = some x := by
  constructor
  · rintro ⟨c', f', hm, hx⟩
    cases List.mem_singleton.1 hm
    exact hx
  · exact fun hx => ⟨c, f, List.mem_cons_self, hx⟩

end Course

namespace Disk

variable {d e : Disk} {q : Place}

theorem place?_of_locate {path : Path} {t : Target} (h : d.locate path = .ok t) :
    d.place? path = some t.place := by
  rw [place?, h]

theorem Puts.frame {path : Path} {t : Target} (h : d.Puts t.place e) (ht : d.locate path = .ok t)
    (hq : q ∉ (d.place? path).toList) : e.get? q = d.get? q := by
  rw [place?_of_locate ht] at hq
  exact h.get?_eq (by simpa using hq)

theorem SameBut.refl (d : Disk) (paths : List Path) : d.SameBut paths d := fun _ _ => rfl

theorem SameBut.mono {ps qs : List Path} (h : d.SameBut ps e) (hs : ps ⊆ qs) : d.SameBut qs e :=
  fun q hq => h q fun path hp => hq path (hs hp)

theorem SameBut.trans {f : Disk} {paths : List Path} (h : d.SameBut paths e)
    (hd : SameFolders d e) (k : e.SameBut paths f) : d.SameBut paths f := by
  intro q hq
  rw [k q, h q hq]
  intro path hp
  rw [hd.place?_eq]
  exact hq path hp

theorem SameBut.look {paths : List Path} {path : Path} (h : d.SameBut paths e)
    (hd : SameFolders d e)
    (hp : ∀ p, d.place? path = some p → ∀ other ∈ paths, d.place? other ≠ some p) :
    e.look path = d.look path := by
  unfold Disk.look
  rw [hd.place?_eq]
  cases hk : d.place? path with
  | none => rfl
  | some p => exact h p (hp p hk)

theorem isFile_eq_true {path : Path} : d.isFile path = true ↔
    ∃ t b, d.locate path = .ok t ∧ d.get? t.place = some (.file b) ∧ t.slash = false := by
  unfold isFile
  cases d.locate path with
  | error f => simp
  | ok t =>
    constructor
    · intro h
      dsimp only at h
      split at h
      · rename_i b hb
        exact ⟨t, b, rfl, hb, by simpa using h⟩
      · cases h
    · rintro ⟨_, b, ⟨⟩, hb, hs⟩
      simp [hb, hs]

theorem remove_isFile {path : Path} (h : d.isFile path = true) : ∃ e, d.remove path = .ok e := by
  obtain ⟨t, b, ht, hb, hs⟩ := isFile_eq_true.1 h
  exact ⟨d.unlink t.place, by simp [remove, ht, hb, hs]⟩

/-- After a removal nothing is a file that was none. -/
theorem isFile_remove {path : Path} (h : d.remove path = .ok e) :
    e.isFile path = false ∧ ∀ other, e.isFile other = true → d.isFile other = true := by
  obtain ⟨t, ht, hp, rfl⟩ := remove_ok h
  have hd : SameFolders (d.unlink t.place) d := (sameFolders_unlink hp).symm
  constructor
  · rw [← Bool.not_eq_true]
    intro hf
    obtain ⟨t', b, ht', hb, _⟩ := isFile_eq_true.1 hf
    cases ht.symm.trans (hd.locate_ok ht')
    rw [get?_unlink d _ (ne_nil_of_get? hp), if_pos rfl] at hb
    cases hb
  · intro other hf
    obtain ⟨t', b, ht', hb, hs⟩ := isFile_eq_true.1 hf
    rw [get?_unlink d _ (ne_nil_of_get? hp)] at hb
    split at hb
    · cases hb
    · exact isFile_eq_true.2 ⟨t', b, hd.locate_ok ht', hb, hs⟩

end Disk

namespace Change

variable {mayFail : Disk → Change → Prop} {d e : Disk} {c : Change} {r : Except OsFault Unit}

/-- A change leaves all places alone but its own. -/
theorem apply_frame (h : c.apply d = .ok e) {q : Place} (hq : q ∉ c.places d) :
    e.get? q = d.get? q := by
  cases c with
  | create path =>
    obtain ⟨t, ht, hput⟩ := Disk.openWith_ok h
    exact hput.frame ht hq
  | openAppend path =>
    obtain ⟨t, ht, hput⟩ := Disk.openWith_ok h
    exact hput.frame ht hq
  | write path bytes =>
    obtain ⟨t, ht, hput⟩ := Disk.write_ok h
    exact hput.frame ht hq
  | hold handle path =>
    obtain ⟨t, e', ht, hput, held, rfl⟩ := Disk.hold_ok h
    rw [Disk.get?_held]
    exact hput.frame ht hq
  | writeHeld handle bytes =>
    obtain rfl | ⟨p, hp, hput⟩ := Disk.writeHeld_ok h
    · rfl
    · rw [places, hp] at hq
      exact hput.get?_eq (by simpa using hq)
  | remove path =>
    obtain ⟨t, ht, hp, rfl⟩ := Disk.remove_ok h
    rw [places, Disk.place?_of_locate ht] at hq
    rw [Disk.get?_unlink d q (Disk.ne_nil_of_get? hp), if_neg (by simpa using hq)]
  | rename source target =>
    obtain ⟨s, t, x, hs, ht, hp, hx, hd, rfl⟩ := Disk.rename_ok h
    rw [places, Disk.place?_of_locate hs, Disk.place?_of_locate ht] at hq
    have hne : q ≠ s.place ∧ q ≠ t.place := by simpa using hq
    have hsource : d.get? s.place ≠ some .directory :=
      fun hdir => hx (Option.some.inj (hp.symm.trans hdir))
    rw [Disk.get?_move d q x (Disk.ne_nil_of_get? hsource) (Disk.ne_nil_of_get? hd),
      if_neg hne.2, if_neg hne.1]

theorem Front.places_eq {b : Change} (h : b.Front c) : b.places d = c.places d := by
  cases h <;> rfl

theorem Goes.frame (h : Goes mayFail d c r e) {q : Place} (hq : q ∉ c.places d) :
    e.get? q = d.get? q := by
  cases h with
  | asAsked =>
    unfold perform
    cases ha : c.apply d with
    | ok e => exact apply_frame ha hq
    | error f => rfl
  | failed => rfl
  | brokenOff f _ hf ha => exact apply_frame ha (hf.places_eq ▸ hq)

theorem Within.not_mem_places {paths : List Path} (h : c.Within paths) {q : Place}
    (hq : ∀ path ∈ paths, d.place? path ≠ some q) : q ∉ c.places d := by
  cases c with
  | create path => simpa [places] using hq path h
  | openAppend path => simpa [places] using hq path h
  | write path bytes => simpa [places] using hq path h
  | hold handle path => simpa [places] using hq path h
  | writeHeld handle bytes => exact h.elim
  | remove path => simpa [places] using hq path h
  | rename source target => simpa [places] using ⟨hq source h.1, hq target h.2⟩

theorem Uses.within {paths : List Path} (h : c.Uses (· ∈ paths)) : c.Within paths := by
  cases c with
  | hold => exact h.elim
  | _ => exact h

theorem Goes.sameBut {paths : List Path} (h : Goes mayFail d c r e) (hc : c.Within paths) :
    d.SameBut paths e :=
  fun _ hq => h.frame (hc.not_mem_places hq)

theorem Goes.isFile_removed {path : Path} (h : Goes Fallible d (.remove path) r e) :
    e.isFile path = false ∧ ∀ other, d.isFile other = false → e.isFile other = false := by
  cases h with
  | asAsked =>
    unfold perform
    cases ha : (Change.remove path).apply d with
    | ok e =>
      obtain ⟨hp, hk⟩ := Disk.isFile_remove ha
      refine ⟨hp, fun other ho => ?_⟩
      rw [← Bool.not_eq_true] at ho ⊢
      exact fun hf => ho (hk other hf)
    | error f =>
      refine ⟨?_, fun _ ho => ho⟩
      rw [← Bool.not_eq_true]
      intro hf
      obtain ⟨e, he⟩ := Disk.remove_isFile hf
      cases ha.symm.trans he
  | failed f hf => exact ⟨hf path rfl, fun _ ho => ho⟩
  | brokenOff f _ hb => cases hb

theorem Goes.sameFolders (h : Goes mayFail d c r e) : Disk.SameFolders d e := by
  cases h with
  | asAsked => exact c.sameFolders_perform d
  | failed => exact Disk.SameFolders.refl d
  | brokenOff f _ _ ha => exact sameFolders_apply ha

end Change

namespace Script

variable {α β : Type} {mayFail : Disk → Change → Prop} {d e : Disk} {course : Course}

theorem Leads.sameFolders {s t : Script α} (h : Leads mayFail s d course t e) :
    Disk.SameFolders d e := by
  induction h with
  | here s d => exact Disk.SameFolders.refl d
  | read _ ih => exact ih
  | isFile _ ih => exact ih
  | change hg _ ih => exact hg.sameFolders.trans ih

theorem Only.bind {P : Change → Prop} {s : Script α} {f : α → Script β} (hs : s.Only P)
    (hf : ∀ a, (f a).Only P) : (s >>= f).Only P := by
  change (s.bind f).Only P
  induction s with
  | done a => exact hf a
  | read path next ih => exact fun r => ih r (hs r)
  | isFile path next ih => exact fun r => ih r (hs r)
  | change c next ih => exact ⟨hs.1, fun r => ih r (hs.2 r)⟩

theorem Uses.bind {P : Path → Prop} {s : Script α} {f : α → Script β} (hs : s.Uses P)
    (hf : ∀ a, (f a).Uses P) : (s >>= f).Uses P := by
  change (s.bind f).Uses P
  induction s with
  | done a => exact hf a
  | read path next ih => exact ⟨hs.1, fun r => ih r (hs.2 r)⟩
  | isFile path next ih => exact ⟨hs.1, fun r => ih r (hs.2 r)⟩
  | change c next ih => exact ⟨hs.1, fun r => ih r (hs.2 r)⟩

theorem Uses.only {paths : List Path} {s : Script α} (hs : s.Uses (· ∈ paths)) :
    s.Only (Change.Within paths) := by
  induction s with
  | done a => trivial
  | read path next ih => exact fun r => ih r (hs.2 r)
  | isFile path next ih => exact fun r => ih r (hs.2 r)
  | change c next ih => exact ⟨hs.1.within, fun r => ih r (hs.2 r)⟩

theorem Leads.of_only {P : Change → Prop} {s t : Script α} (h : Leads mayFail s d course t e)
    (hs : s.Only P) {c : Change} {r : Except OsFault Unit} (hc : (c, r) ∈ course) : P c := by
  induction h with
  | here s d => cases hc
  | read _ ih => exact ih (hs _) hc
  | isFile _ ih => exact ih (hs _) hc
  | change _ _ ih =>
    cases hc with
    | head => exact hs.1
    | tail _ hc => exact ih (hs.2 _) hc

/-- Nothing is told of changes of which nothing is said. -/
theorem Leads.not_tells {γ : Type} {said : Change → OsFault → Option γ} {s t : Script α}
    (h : Leads mayFail s d course t e) (hs : s.Only fun c => ∀ f, said c f = none) (x : γ) :
    ¬ course.Tells said x := by
  rintro ⟨c, f, hm, hc⟩
  rw [h.of_only hs hm f] at hc
  cases hc

/-- A script changes nothing outside the paths it asks for. -/
theorem Leads.sameBut {paths : List Path} {s t : Script α} (h : Leads mayFail s d course t e)
    (hs : s.Only (Change.Within paths)) : d.SameBut paths e := by
  induction h with
  | here s d => exact Disk.SameBut.refl d paths
  | read _ ih => exact ih (hs _)
  | isFile _ ih => exact ih (hs _)
  | change hg _ ih => exact (hg.sameBut hs.1).trans hg.sameFolders (ih (hs.2 _))

theorem Ends.of_done {a b : α} (h : Ends mayFail (.done a) d course b e) :
    b = a ∧ course = [] ∧ e = d := by
  cases h
  exact ⟨rfl, rfl, rfl⟩

theorem Ends.of_change {c : Change} {next : Except OsFault Unit → Script α} {a : α}
    (h : Ends mayFail (.change c next) d course a e) :
    ∃ r d' rest, Change.Goes mayFail d c r d' ∧ course = (c, r) :: rest ∧
      Ends mayFail (next r) d' rest a e := by
  cases h with
  | change hg hl => exact ⟨_, _, _, hg, rfl, hl⟩

theorem Ends.of_isFile {path : Path} {next : Bool → Script α} {a : α}
    (h : Ends mayFail (.isFile path next) d course a e) :
    Ends mayFail (next (d.isFile path)) d course a e := by
  cases h with
  | isFile hl => exact hl

/-- The course of two scripts in a row is a course of the first and one of the second. -/
theorem Ends.of_bind {s : Script α} {f : α → Script β} {b : β}
    (h : Ends mayFail (s >>= f) d course b e) :
    ∃ a d' front back, Ends mayFail s d front a d' ∧ Ends mayFail (f a) d' back b e ∧
      course = front ++ back := by
  change Leads mayFail (s.bind f) d course (.done b) e at h
  induction s generalizing d course with
  | done a => exact ⟨a, d, [], course, .here _ d, h, rfl⟩
  | read path next ih =>
    cases h with
    | read hl =>
      obtain ⟨a, d', front, back, hs, hf, he⟩ := ih _ hl
      exact ⟨a, d', front, back, .read hs, hf, he⟩
  | isFile path next ih =>
    cases h with
    | isFile hl =>
      obtain ⟨a, d', front, back, hs, hf, he⟩ := ih _ hl
      exact ⟨a, d', front, back, .isFile hs, hf, he⟩
  | change c next ih =>
    cases h with
    | change hg hl =>
      obtain ⟨a, d', front, back, hs, hf, rfl⟩ := ih _ hl
      exact ⟨a, d', _ :: front, back, .change hg hs, hf, rfl⟩

/-- A run is a course without faults. -/
theorem ends_run (s : Script α) (d : Disk) :
    ∃ course, Ends mayFail s d course (s.run d).1 (s.run d).2 := by
  induction s generalizing d with
  | done a => exact ⟨[], .here _ d⟩
  | read path next ih =>
    obtain ⟨course, h⟩ := ih (d.read path) d
    exact ⟨course, .read h⟩
  | isFile path next ih =>
    obtain ⟨course, h⟩ := ih (d.isFile path) d
    exact ⟨course, .isFile h⟩
  | change c next ih =>
    obtain ⟨course, h⟩ := ih (c.perform d).1 (c.perform d).2
    exact ⟨_, .change (.asAsked c) h⟩

end Script

end NumericSteps
