import NumericSteps.Disk.Script

namespace NumericSteps

namespace Disk

/-- The place a path leads to, if there is a way. -/
def place? (d : Disk) (path : Path) : Option Place :=
  match d.locate path with
  | .ok t => some t.place
  | .error _ => none

/-- A path that the operating system takes leads where its names lead. -/
theorem locate_eq_ok {d : Disk} {path : Path} {t : Target} :
    d.locate path = .ok t ↔ path.hasNul = false ∧ path.isEmpty = false ∧
      path.text.utf8ByteSize ≤ maxPath ∧
      ∃ p, d.walk (if path.isAbsolute then [] else d.here) path.route = .ok p ∧
        t = ⟨p, !isDots path.route.getLast?, path.endsWithSlash⟩ := by
  unfold locate
  constructor
  · intro h
    split at h
    · cases h
    · rename_i hnul
      split at h
      · cases h
      · rename_i hempty
        split at h
        · cases h
        · rename_i hlong
          refine ⟨Bool.eq_false_iff.2 hnul, Bool.eq_false_iff.2 hempty, Nat.not_lt.1 hlong, ?_⟩
          cases hw : d.walk (if path.isAbsolute then [] else d.here) path.route with
          | error f =>
            rw [hw] at h
            cases h
          | ok p =>
            rw [hw] at h
            exact ⟨p, rfl, (Except.ok.inj h).symm⟩
  · rintro ⟨hnul, hempty, hlong, p, hw, rfl⟩
    rw [hnul, hempty, if_neg Bool.false_ne_true, if_neg Bool.false_ne_true,
      if_neg (Nat.not_lt.2 hlong), hw]
    rfl

theorem place?_eq_some {d : Disk} {path : Path} {p : Place} :
    d.place? path = some p ↔ ∃ t, d.locate path = .ok t ∧ t.place = p := by
  unfold place?
  cases d.locate path with
  | ok t => simp
  | error f => simp

/-- What stands at the end of a path. -/
def look (d : Disk) (path : Path) : Option Node := (d.place? path).bind d.get?

/-- The same directories, and relative paths start at the same place. -/
structure SameFolders (d e : Disk) : Prop where
  here : e.here = d.here
  folder : ∀ p, e.get? p = some .directory ↔ d.get? p = some .directory

namespace SameFolders

variable {d e f : Disk}

theorem refl (d : Disk) : SameFolders d d := ⟨rfl, fun _ => Iff.rfl⟩

theorem symm (h : SameFolders d e) : SameFolders e d := ⟨h.here.symm, fun p => (h.folder p).symm⟩

theorem trans (h : SameFolders d e) (k : SameFolders e f) : SameFolders d f :=
  ⟨k.here.trans h.here, fun p => (k.folder p).trans (h.folder p)⟩

theorem walk_ok (h : SameFolders d e) {p q : Place} {cs : List String}
    (hw : d.walk p cs = .ok q) : e.walk p cs = .ok q := by
  induction cs generalizing p with
  | nil => exact hw
  | cons c cs ih =>
    simp only [walk] at hw ⊢
    split at hw
    · cases hw
    · rename_i hp
      rw [(h.folder p).2 hp]
      dsimp only
      split at hw
      · rename_i hc
        rw [if_pos hc]
        exact ih hw
      · rename_i hc
        rw [if_neg hc]
        split at hw
        · rename_i hcc
          rw [if_pos hcc]
          exact ih hw
        · rename_i hcc
          rw [if_neg hcc]
          split at hw
          · cases hw
          · rename_i hl
            rw [if_neg hl]
            exact ih hw
    · cases hw

theorem locate_ok (h : SameFolders d e) {path : Path} {t : Target}
    (hl : d.locate path = .ok t) : e.locate path = .ok t := by
  obtain ⟨hnul, hempty, hlong, p, hw, ht⟩ := locate_eq_ok.1 hl
  refine locate_eq_ok.2 ⟨hnul, hempty, hlong, p, ?_, ht⟩
  rw [h.here]
  exact h.walk_ok hw

theorem place?_eq (h : SameFolders d e) (path : Path) : e.place? path = d.place? path := by
  unfold place?
  cases hd : d.locate path with
  | ok t => rw [h.locate_ok hd]
  | error f =>
    cases he : e.locate path with
    | ok t =>
      rw [h.symm.locate_ok he] at hd
      cases hd
    | error g => rfl

/-- A file that appears, changes or goes is no directory. -/
theorem of_get? {p : Place} {n : Option Node} (hh : e.here = d.here)
    (hg : ∀ q, e.get? q = if q = p then n else d.get? q) (hn : n ≠ some .directory)
    (hp : d.get? p ≠ some .directory) : SameFolders d e := by
  refine ⟨hh, fun q => ?_⟩
  rw [hg]
  by_cases hq : q = p
  · subst hq
    simp [hn, hp]
  · rw [if_neg hq]

end SameFolders

variable {d e : Disk}

theorem get?_nil (d : Disk) : d.get? [] = some .directory := rfl

theorem ne_nil_of_get? {p : Place} (h : d.get? p ≠ some .directory) : p ≠ [] := by
  rintro rfl
  exact h (get?_nil d)

theorem get?_unlink (d : Disk) {p : Place} (q : Place) (hp : p ≠ []) :
    (d.unlink p).get? q = if q = p then none else d.get? q := by
  rw [← get?_erase d p q hp]
  rfl

theorem get?_move (d : Disk) {p q : Place} (r : Place) (n : Node) (hp : p ≠ []) (hq : q ≠ []) :
    (d.move p q n).get? r = if r = q then some n else if r = p then none else d.get? r := by
  rw [← get?_erase d p r hp, ← get?_set (d.erase p) q r n hq]
  rfl

theorem set_set (d : Disk) (p : Place) (m n : Node) : (d.set p m).set p n = d.set p n := by
  simp [set, erase, List.filter_filter]

theorem sameFolders_set {p : Place} {n : Node} (hn : n ≠ .directory)
    (hp : d.get? p ≠ some .directory) : SameFolders d (d.set p n) :=
  SameFolders.of_get? (n := some n) rfl (fun q => get?_set d p q n (ne_nil_of_get? hp))
    (fun h => hn (Option.some.inj h)) hp

theorem sameFolders_unlink {p : Place} (hp : d.get? p ≠ some .directory) :
    SameFolders d (d.unlink p) :=
  SameFolders.of_get? (n := none) rfl (fun q => get?_unlink d q (ne_nil_of_get? hp)) (by simp) hp

theorem sameFolders_move {p q : Place} {n : Node} (hn : n ≠ .directory)
    (hp : d.get? p ≠ some .directory) (hq : d.get? q ≠ some .directory) :
    SameFolders d (d.move p q n) := by
  have h1 : SameFolders d (d.erase p) := SameFolders.of_get? (n := none) rfl
    (fun r => get?_erase d p r (ne_nil_of_get? hp)) (by simp) hp
  have h2 : SameFolders (d.erase p) ((d.erase p).set q n) :=
    sameFolders_set hn (fun h => hq ((h1.folder q).1 h))
  exact ⟨(h1.trans h2).here, (h1.trans h2).folder⟩

/-- From `d` to `e` at most the bytes of the file at `p` have changed, which may be new. -/
def Puts (d : Disk) (p : Place) (e : Disk) : Prop :=
  d.get? p ≠ some .directory ∧ (e = d ∨ ∃ b, e = d.set p (.file b))

theorem Puts.sameFolders {p : Place} (h : d.Puts p e) : SameFolders d e := by
  obtain ⟨hp, rfl | ⟨b, rfl⟩⟩ := h
  · exact SameFolders.refl _
  · exact sameFolders_set nofun hp

theorem Puts.get?_eq {p q : Place} (h : d.Puts p e) (hq : q ≠ p) : e.get? q = d.get? q := by
  obtain ⟨hp, rfl | ⟨b, rfl⟩⟩ := h
  · rfl
  · rw [get?_set d p q _ (ne_nil_of_get? hp), if_neg hq]

theorem openWith_ok {content : Bytes → Bytes} {path : Path}
    (h : d.openWith content path = .ok e) : ∃ t, d.locate path = .ok t ∧ d.Puts t.place e := by
  unfold openWith at h
  split at h
  · cases h
  · rename_i t ht
    refine ⟨t, ht, ?_⟩
    split at h
    · cases h
    · split at h <;> cases h
      · rename_i hp
        exact ⟨by simp [hp], Or.inr ⟨_, rfl⟩⟩
      · rename_i hp
        exact ⟨by simp [hp], Or.inr ⟨_, rfl⟩⟩
      · rename_i hp
        exact ⟨by simp [hp], Or.inl rfl⟩

theorem append_ok {p : Place} {bytes : Bytes} (h : d.append p bytes = .ok e) : d.Puts p e := by
  unfold append at h
  split at h
  · cases h
  · cases h
  · rename_i hp
    cases h
    exact ⟨by simp [hp], Or.inr ⟨_, rfl⟩⟩
  · rename_i hp
    split at h <;> cases h
    exact ⟨by simp [hp], Or.inl rfl⟩

theorem write_ok {path : Path} {bytes : Bytes} (h : d.write path bytes = .ok e) :
    ∃ t, d.locate path = .ok t ∧ d.Puts t.place e := by
  unfold write at h
  split at h
  · cases h
  · rename_i t ht
    exact ⟨t, ht, append_ok h⟩

theorem hold_ok {handle : Nat} {path : Path} (h : d.hold handle path = .ok e) :
    ∃ t e', d.locate path = .ok t ∧ d.Puts t.place e' ∧ ∃ held, e = { e' with held := held } := by
  unfold hold at h
  split at h
  · cases h
  · cases h
  · rename_i ho
    cases h
    obtain ⟨t, ht, hput⟩ := openWith_ok ho
    exact ⟨t, _, ht, hput, _, rfl⟩

theorem writeHeld_ok {handle : Nat} {bytes : Bytes} (h : d.writeHeld handle bytes = .ok e) :
    e = d ∨ ∃ p, d.held.lookup handle = some p ∧ d.Puts p e := by
  unfold writeHeld at h
  split at h
  · cases h
    exact Or.inl rfl
  · rename_i p hp
    exact Or.inr ⟨p, hp, append_ok h⟩

theorem remove_ok {path : Path} (h : d.remove path = .ok e) :
    ∃ t, d.locate path = .ok t ∧ d.get? t.place ≠ some .directory ∧ e = d.unlink t.place := by
  unfold remove at h
  split at h
  · cases h
  · rename_i t ht
    split at h
    · cases h
    · cases h
    · rename_i hn hp
      split at h <;> cases h
      exact ⟨t, ht, fun hd => hn (Option.some.inj (hp.symm.trans hd)), rfl⟩

theorem rename_ok {source target : Path} (h : d.rename source target = .ok e) :
    ∃ s t x, d.locate source = .ok s ∧ d.locate target = .ok t ∧ d.get? s.place = some x ∧
      x ≠ .directory ∧ d.get? t.place ≠ some .directory ∧ e = d.move s.place t.place x := by
  unfold rename at h
  split at h
  · cases h
  · cases h
  · rename_i s t hs ht
    split at h
    · cases h
    · split at h
      · cases h
      · cases h
      · rename_i x hx hp
        split at h
        · cases h
        · split at h
          · cases h
          · split at h <;> cases h
            rename_i hq
            exact ⟨s, t, x, hs, ht, hp, hx, hq, rfl⟩

end Disk

/-- No operation makes a directory or takes one away. -/
theorem Change.sameFolders_apply {d e : Disk} {c : Change} (h : c.apply d = .ok e) :
    Disk.SameFolders d e := by
  cases c with
  | create path =>
    obtain ⟨t, -, hput⟩ := Disk.openWith_ok h
    exact hput.sameFolders
  | openAppend path =>
    obtain ⟨t, -, hput⟩ := Disk.openWith_ok h
    exact hput.sameFolders
  | write path bytes =>
    obtain ⟨t, -, hput⟩ := Disk.write_ok h
    exact hput.sameFolders
  | hold handle path =>
    obtain ⟨t, e', -, hput, held, rfl⟩ := Disk.hold_ok h
    exact ⟨hput.sameFolders.here, hput.sameFolders.folder⟩
  | writeHeld handle bytes =>
    obtain rfl | ⟨p, -, hput⟩ := Disk.writeHeld_ok h
    · exact Disk.SameFolders.refl _
    · exact hput.sameFolders
  | remove path =>
    obtain ⟨t, -, hp, rfl⟩ := Disk.remove_ok h
    exact Disk.sameFolders_unlink hp
  | rename source target =>
    obtain ⟨s, t, x, -, -, hp, hx, hq, rfl⟩ := Disk.rename_ok h
    exact Disk.sameFolders_move hx (fun hd => hx (Option.some.inj (hp.symm.trans hd))) hq

theorem Change.sameFolders_perform (c : Change) (d : Disk) :
    Disk.SameFolders d (c.perform d).2 := by
  unfold Change.perform
  cases h : c.apply d with
  | ok e => exact Change.sameFolders_apply h
  | error f => exact Disk.SameFolders.refl d

end NumericSteps
