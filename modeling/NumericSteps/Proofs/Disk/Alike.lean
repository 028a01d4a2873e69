import Mathlib.Tactic.SplitIfs
import NumericSteps.Proofs.Disk.History

namespace NumericSteps

namespace Disk

/-- The places that are passed when names are followed from a place, the last one included. -/
def way (d : Disk) (p : Place) : List String → List Place
  | [] => [p]
  | c :: cs =>
    p :: if d.get? p = some .directory then
      if c = "." then d.way p cs
      else if c = ".." then d.way p.dropLast cs
      else if maxName < c.utf8ByteSize then []
      else d.way (p ++ [c]) cs
    else []

/-- The path leads to the place, or past it. -/
def Near (d : Disk) (path : Path) (p : Place) : Prop :=
  p ∈ d.way (if path.isAbsolute then [] else d.here) path.route

instance (d : Disk) (path : Path) (p : Place) : Decidable (d.Near path p) :=
  inferInstanceAs (Decidable (_ ∈ _))

/-- The disks are the same but for what stands at the place, and for what is held open. -/
structure Alike (p : Place) (d d' : Disk) : Prop where
  here : d'.here = d.here
  same : ∀ q, q ≠ p → d'.get? q = d.get? q

variable {d d' e : Disk} {p q r : Place} {cs : List String} {path : Path} {t : Target}

theorem mem_way_of_walk (h : d.walk q cs = .ok r) : r ∈ d.way q cs := by
  induction cs generalizing q with
  | nil =>
    cases h
    exact List.mem_cons_self
  | cons c cs ih =>
    simp only [walk] at h
    split at h
    · cases h
    · rename_i hdir
      simp only [way, hdir, if_true]
      apply List.mem_cons_of_mem
      split_ifs at h ⊢ with hdot hdots hlong
      · exact ih h
      · exact ih h
      · exact ih h
    · cases h

/-- What is passed on a way that leads somewhere is a directory, but for the end. -/
theorem directory_of_mem_way (h : d.walk q cs = .ok r) (hp : p ∈ d.way q cs) :
    p = r ∨ d.get? p = some .directory := by
  induction cs generalizing q with
  | nil =>
    cases h
    exact Or.inl (List.mem_singleton.1 hp)
  | cons c cs ih =>
    simp only [walk] at h
    split at h
    · cases h
    · rename_i hdir
      simp only [way, hdir, if_true, List.mem_cons] at hp
      rcases hp with rfl | hp
      · exact Or.inr hdir
      · split_ifs at h hp with hdot hdots hlong
        · exact ih h hp
        · exact ih h hp
        · exact ih h hp
    · cases h

theorem SameFolders.way_eq (h : SameFolders d e) (q : Place) (cs : List String) :
    e.way q cs = d.way q cs := by
  induction cs generalizing q with
  | nil => rfl
  | cons c cs ih =>
    have hdir : (e.get? q = some .directory) = (d.get? q = some .directory) := propext (h.folder q)
    simp only [way, ih, hdir]

theorem SameFolders.near_iff (h : SameFolders d e) : e.Near path p ↔ d.Near path p := by
  rw [Near, Near, h.way_eq, h.here]

theorem walk_of_locate (h : d.locate path = .ok t) :
    d.walk (if path.isAbsolute then [] else d.here) path.route = .ok t.place := by
  obtain ⟨-, -, -, p, hw, rfl⟩ := locate_eq_ok.1 h
  exact hw

theorem ne_of_not_near (hp : ¬ d.Near path p) (ht : d.locate path = .ok t) : t.place ≠ p := by
  rintro rfl
  exact hp (mem_way_of_walk (walk_of_locate ht))

theorem ne_of_place? (hp : ¬ d.Near path p) (h : d.place? path = some q) : q ≠ p := by
  obtain ⟨t, ht, rfl⟩ := place?_eq_some.1 h
  exact ne_of_not_near hp ht

/-- Where a path leads somewhere, it passes directories only. -/
theorem not_near_of_place? (hq : d.place? path = some q) (hne : q ≠ p)
    (hp : d.get? p ≠ some .directory) : ¬ d.Near path p := by
  intro hnear
  obtain ⟨t, ht, rfl⟩ := place?_eq_some.1 hq
  rcases directory_of_mem_way (walk_of_locate ht) hnear with rfl | hdir
  · exact hne rfl
  · exact hp hdir

namespace Alike

theorem walk_eq (h : Alike p d d') (hp : p ∉ d.way q cs) : d'.walk q cs = d.walk q cs := by
  induction cs generalizing q with
  | nil => rfl
  | cons c cs ih =>
    simp only [way, List.mem_cons, not_or] at hp
    have hq : d'.get? q = d.get? q := h.same q (Ne.symm hp.1)
    simp only [walk, hq]
    split
    · rfl
    · rename_i hdir
      have hrest := hp.2
      simp only [hdir, if_true] at hrest
      split_ifs at hrest ⊢ with hdot hdots hlong
      · exact ih hrest
      · exact ih hrest
      · rfl
      · exact ih hrest
    · rfl

theorem locate_eq (h : Alike p d d') (hp : ¬ d.Near path p) : d'.locate path = d.locate path := by
  unfold locate
  rw [h.here, h.walk_eq hp]

theorem read_eq (h : Alike p d d') (hp : ¬ d.Near path p) : d'.read path = d.read path := by
  unfold Disk.read
  rw [h.locate_eq hp]
  cases ht : d.locate path with
  | error f => rfl
  | ok t =>
    dsimp only
    rw [h.same _ (ne_of_not_near hp ht)]

theorem isFile_eq (h : Alike p d d') (hp : ¬ d.Near path p) : d'.isFile path = d.isFile path := by
  unfold Disk.isFile
  rw [h.locate_eq hp]
  cases ht : d.locate path with
  | error f => rfl
  | ok t =>
    dsimp only
    rw [h.same _ (ne_of_not_near hp ht)]

theorem look_eq (h : Alike p d d') (hp : ¬ d.Near path p) : d'.look path = d.look path := by
  unfold Disk.look Disk.place?
  rw [h.locate_eq hp]
  cases ht : d.locate path with
  | error f => rfl
  | ok t => exact h.same _ (ne_of_not_near hp ht)

theorem set (h : Alike p d d') (hq : q ≠ []) (n : Node) : Alike p (d.set q n) (d'.set q n) := by
  refine ⟨h.here, fun r hr => ?_⟩
  rw [get?_set _ _ _ _ hq, get?_set _ _ _ _ hq, h.same r hr]

theorem unlink (h : Alike p d d') (hq : q ≠ []) : Alike p (d.unlink q) (d'.unlink q) := by
  refine ⟨h.here, fun r hr => ?_⟩
  rw [get?_unlink _ _ hq, get?_unlink _ _ hq, h.same r hr]

theorem move (h : Alike p d d') (hq : q ≠ []) (hr : r ≠ []) (n : Node) :
    Alike p (d.move q r n) (d'.move q r n) := by
  refine ⟨h.here, fun s hs => ?_⟩
  rw [get?_move _ _ _ hq hr, get?_move _ _ _ hq hr, h.same s hs]

end Alike

/-- Opening a file for additions changes nothing elsewhere, and keeps it open. -/
theorem alike_of_hold {n : Nat} (h : d.hold n path = .ok e) :
    ∃ p, d.place? path = some p ∧ Alike p e d ∧ e.held.lookup n = some p := by
  unfold hold at h
  split at h
  · cases h
  · cases h
  · rename_i t d' ht ho
    cases h
    obtain ⟨t', ht', hput⟩ := openWith_ok ho
    cases ht.symm.trans ht'
    refine ⟨t.place, place?_of_locate ht, ⟨hput.sameFolders.here.symm, fun q hq => ?_⟩, ?_⟩
    · exact (hput.get?_eq hq).symm
    · simp

/-- An operation has the same end on both disks: the same fault, or disks that are alike. -/
def SameEnd (p : Place) : Except OsFault Disk → Except OsFault Disk → Prop
  | .ok e, .ok e' => Alike p e e'
  | .error f, .error f' => f' = f
  | _, _ => False

theorem SameEnd.ok {x : Except OsFault Disk} (h : SameEnd p (.ok e) x) :
    ∃ e', x = .ok e' ∧ Alike p e e' := by
  cases x with
  | ok e' => exact ⟨e', rfl, h⟩
  | error f => exact h.elim

theorem SameEnd.error {x : Except OsFault Disk} {f : OsFault} (h : SameEnd p (.error f) x) :
    x = .error f := by
  cases x with
  | ok e' => exact h.elim
  | error f' => exact congrArg Except.error h

namespace Alike

theorem openWith (h : Alike p d d') (hp : ¬ d.Near path p) (content : Bytes → Bytes) :
    SameEnd p (d.openWith content path) (d'.openWith content path) := by
  unfold Disk.openWith
  rw [h.locate_eq hp]
  cases ht : d.locate path with
  | error f => rfl
  | ok t =>
    dsimp only
    rw [h.same _ (ne_of_not_near hp ht)]
    split_ifs
    · rfl
    · cases hg : d.get? t.place with
      | none => exact h.set (ne_nil_of_get? (d := d) (by simp [hg])) _
      | some n =>
        cases n with
        | file b => exact h.set (ne_nil_of_get? (d := d) (by simp [hg])) _
        | directory => rfl
        | device full => exact h

theorem append (h : Alike p d d') (hq : q ≠ p) (bytes : Bytes) :
    SameEnd p (d.append q bytes) (d'.append q bytes) := by
  unfold Disk.append
  rw [h.same q hq]
  cases hg : d.get? q with
  | none => rfl
  | some n =>
    cases n with
    | file b => exact h.set (ne_nil_of_get? (d := d) (by simp [hg])) _
    | directory => rfl
    | device full =>
      dsimp only
      split_ifs
      · rfl
      · exact h

theorem write (h : Alike p d d') (hp : ¬ d.Near path p) (bytes : Bytes) :
    SameEnd p (d.write path bytes) (d'.write path bytes) := by
  unfold Disk.write
  rw [h.locate_eq hp]
  cases ht : d.locate path with
  | error f => rfl
  | ok t => exact h.append (ne_of_not_near hp ht) bytes

theorem remove (h : Alike p d d') (hp : ¬ d.Near path p) :
    SameEnd p (d.remove path) (d'.remove path) := by
  unfold Disk.remove
  rw [h.locate_eq hp]
  cases ht : d.locate path with
  | error f => rfl
  | ok t =>
    dsimp only
    rw [h.same _ (ne_of_not_near hp ht)]
    cases hg : d.get? t.place with
    | none => rfl
    | some n =>
      have hgone (hn : n ≠ .directory) : Alike p (d.unlink t.place) (d'.unlink t.place) :=
        h.unlink (ne_nil_of_get? (d := d) (by simpa [hg] using hn))
      cases n with
      | directory => rfl
      | file b =>
        dsimp only
        split_ifs
        · rfl
        · exact hgone nofun
      | device full =>
        dsimp only
        split_ifs
        · rfl
        · exact hgone nofun

theorem rename {target : Path} (h : Alike p d d') (hp : ¬ d.Near path p) (hq : ¬ d.Near target p) :
    SameEnd p (d.rename path target) (d'.rename path target) := by
  unfold Disk.rename
  rw [h.locate_eq hp, h.locate_eq hq]
  cases hs : d.locate path with
  | error f => rfl
  | ok s =>
    cases ht : d.locate target with
    | error f => rfl
    | ok t =>
      dsimp only
      rw [h.same _ (ne_of_not_near hp hs), h.same _ (ne_of_not_near hq ht)]
      by_cases hnamed : (!(s.named && t.named)) = true
      · rw [if_pos hnamed, if_pos hnamed]
        rfl
      · rw [if_neg hnamed, if_neg hnamed]
        cases hg : d.get? s.place with
        | none => rfl
        | some n =>
          have hmoved (hn : n ≠ .directory) (ht : ¬ d.get? t.place = some .directory) :
              Alike p (d.move s.place t.place n) (d'.move s.place t.place n) :=
            h.move (ne_nil_of_get? (d := d) (by simpa [hg] using hn)) (ne_nil_of_get? ht) n
          cases n with
          | directory => rfl
          | file b =>
            dsimp only
            split_ifs with hslash hprefix hdir
            · rfl
            · rfl
            · rfl
            · exact hmoved nofun hdir
          | device full =>
            dsimp only
            split_ifs with hslash hprefix hdir
            · rfl
            · rfl
            · rfl
            · exact hmoved nofun hdir

end Alike

section Held

variable {held : List (Nat × Place)} {n : Nat}

theorem lookup_filter_place (h : held.lookup n = some p) (hq : q ≠ p) :
    (held.filter fun e => e.2 ≠ q).lookup n = some p := by
  induction held with
  | nil => cases h
  | cons e held ih =>
    obtain ⟨m, r⟩ := e
    rw [List.lookup_cons] at h
    by_cases hm : n = m
    · obtain rfl : r = p := by simpa [hm] using h
      simp [Ne.symm hq, hm]
    · have hrest : held.lookup n = some p := by simpa [beq_false_of_ne hm] using h
      by_cases hr : r = q
      · simpa [List.filter_cons, hr] using ih hrest
      · simpa [List.filter_cons, hr, List.lookup_cons, beq_false_of_ne hm] using ih hrest

theorem lookup_move {x : Node} (h : d.held.lookup n = some p) (hq : q ≠ p) (hr : r ≠ p) :
    (d.move q r x).held.lookup n = some p := by
  unfold Disk.move
  dsimp only
  generalize d.held = held at h
  induction held with
  | nil => cases h
  | cons e held ih =>
    obtain ⟨m, s⟩ := e
    rw [List.lookup_cons] at h
    by_cases hm : n = m
    · obtain rfl : s = p := by simpa [hm] using h
      simp [Ne.symm hq, Ne.symm hr, hm]
    · have hrest : held.lookup n = some p := by simpa [beq_false_of_ne hm] using h
      rw [List.filterMap_cons]
      split
      · exact ih hrest
      · rename_i b hb
        have hb1 : b.1 = m := by
          dsimp only at hb
          split_ifs at hb <;> cases hb <;> rfl
        rw [List.lookup_cons, hb1, beq_false_of_ne hm]
        exact ih hrest

end Held

end Disk

namespace Change

variable {P Q : Path → Prop} {b c : Change} {d d' e : Disk} {p : Place} {n : Nat} {faulty : Change → Prop}
  {mayFail : Disk → Change → Prop} {r : Except OsFault Unit}

theorem Uses.mono (h : c.Uses P) (hPQ : ∀ path, P path → Q path) : c.Uses Q := by
  cases c with
  | rename source target => exact ⟨hPQ _ h.1, hPQ _ h.2⟩
  | hold => exact h
  | writeHeld => exact h
  | _ => exact hPQ _ h

theorem Front.uses (h : b.Front c) (hc : c.Uses P) : b.Uses P := by
  cases h with
  | write => exact hc
  | writeHeld => exact hc

theorem sameEnd_apply (h : Disk.Alike p d d') (hc : c.Uses fun path => ¬ d.Near path p) :
    Disk.SameEnd p (c.apply d) (c.apply d') := by
  cases c with
  | create path => exact h.openWith hc _
  | openAppend path => exact h.openWith hc _
  | write path bytes => exact h.write hc bytes
  | hold => exact hc.elim
  | writeHeld => exact hc.elim
  | remove path => exact h.remove hc
  | rename source target => exact h.rename hc.1 hc.2

theorem alike_perform (h : Disk.Alike p d d') (hc : c.Uses fun path => ¬ d.Near path p) :
    (c.perform d').1 = (c.perform d).1 ∧ Disk.Alike p (c.perform d).2 (c.perform d').2 := by
  have hend := sameEnd_apply h hc
  unfold perform
  cases ha : c.apply d with
  | ok e =>
    rw [ha] at hend
    obtain ⟨e', he', halike⟩ := hend.ok
    rw [he']
    exact ⟨rfl, halike⟩
  | error f =>
    rw [ha] at hend
    rw [hend.error]
    exact ⟨rfl, h⟩

/-- A change that does not come near the place can go on the other disk as it has gone on the one. -/
theorem Goes.alike (hg : Goes (fun _ c => faulty c) d c r e) (h : Disk.Alike p d d')
    (hc : c.Uses fun path => ¬ d.Near path p) :
    ∃ e', Goes (fun _ c => faulty c) d' c r e' ∧ Disk.Alike p e e' := by
  cases hg with
  | asAsked =>
    obtain ⟨hreply, hafter⟩ := alike_perform h hc
    rw [← hreply]
    exact ⟨_, .asAsked c, hafter⟩
  | failed f hm => exact ⟨d', .failed f hm, h⟩
  | brokenOff f hm hf ha =>
    have hend := sameEnd_apply h (hf.uses hc)
    rw [ha] at hend
    obtain ⟨e', he', halike⟩ := hend.ok
    exact ⟨e', .brokenOff f hm hf he', halike⟩

/-- A file that is held open stays where it is, if the change does not come near it. -/
theorem lookup_held_apply (ha : c.apply d = .ok e) (hc : c.Uses fun path => ¬ d.Near path p)
    (hn : d.held.lookup n = some p) : e.held.lookup n = some p := by
  have hput {q : Place} (h : d.Puts q e) : e.held.lookup n = some p := by
    obtain ⟨-, rfl | ⟨b, rfl⟩⟩ := h
    · exact hn
    · exact hn
  cases c with
  | create path =>
    obtain ⟨t, -, h⟩ := Disk.openWith_ok ha
    exact hput h
  | openAppend path =>
    obtain ⟨t, -, h⟩ := Disk.openWith_ok ha
    exact hput h
  | write path bytes =>
    obtain ⟨t, -, h⟩ := Disk.write_ok ha
    exact hput h
  | hold => exact hc.elim
  | writeHeld => exact hc.elim
  | remove path =>
    obtain ⟨t, ht, -, rfl⟩ := Disk.remove_ok ha
    exact Disk.lookup_filter_place hn (Disk.ne_of_not_near hc ht)
  | rename source target =>
    obtain ⟨s, t, x, hs, ht, -, -, -, rfl⟩ := Disk.rename_ok ha
    exact Disk.lookup_move hn (Disk.ne_of_not_near hc.1 hs) (Disk.ne_of_not_near hc.2 ht)

theorem Goes.lookup_held (hg : Goes mayFail d c r e) (hc : c.Uses fun path => ¬ d.Near path p)
    (hn : d.held.lookup n = some p) : e.held.lookup n = some p := by
  cases hg with
  | asAsked =>
    unfold perform
    cases ha : c.apply d with
    | ok e => exact lookup_held_apply ha hc hn
    | error f => exact hn
  | failed => exact hn
  | brokenOff _ _ hf ha => exact lookup_held_apply ha (hf.uses hc) hn

end Change

namespace Script

variable {α β : Type} {P Q : Path → Prop} {d d' e : Disk} {p : Place} {n : Nat} {faulty : Change → Prop}
  {mayFail : Disk → Change → Prop} {course : Course}

/-- What a script does on one of two disks that are alike it can do on the other, if it does not come near
the place where they differ. -/
theorem Leads.alike {s t : Script α} (h : Leads (fun _ c => faulty c) s d course t e) (hs : s.Uses P)
    (hP : ∀ path, P path → ¬ d.Near path p) (hd : Disk.Alike p d d') :
    ∃ e', Leads (fun _ c => faulty c) s d' course t e' ∧ Disk.Alike p e e' := by
  induction h generalizing d' with
  | here s d => exact ⟨d', .here s d', hd⟩
  | read _ ih =>
    obtain ⟨e', hl, he⟩ := ih (hs.2 _) hP hd
    rw [← hd.read_eq (hP _ hs.1)] at hl
    exact ⟨e', .read hl, he⟩
  | isFile _ ih =>
    obtain ⟨e', hl, he⟩ := ih (hs.2 _) hP hd
    rw [← hd.isFile_eq (hP _ hs.1)] at hl
    exact ⟨e', .isFile hl, he⟩
  | change hg _ ih =>
    obtain ⟨d₁, hg', hd₁⟩ := hg.alike hd (hs.1.mono hP)
    -- Directories stay, so what was not near the place at the start is not near it later.
    have hP₁ : ∀ path, P path → ¬ Disk.Near _ path p := fun path hpath hnear =>
      hP path hpath (hg.sameFolders.near_iff.1 hnear)
    obtain ⟨e', hl, he⟩ := ih (hs.2 _) hP₁ hd₁
    exact ⟨e', .change hg' hl, he⟩

theorem Leads.lookup_held {s t : Script α} (h : Leads mayFail s d course t e) (hs : s.Uses P)
    (hP : ∀ path, P path → ¬ d.Near path p) (hn : d.held.lookup n = some p) :
    e.held.lookup n = some p := by
  induction h with
  | here s d => exact hn
  | read _ ih => exact ih (hs.2 _) hP hn
  | isFile _ ih => exact ih (hs.2 _) hP hn
  | change hg _ ih =>
    refine ih (hs.2 _) (fun path hpath hnear => ?_) (hg.lookup_held (hs.1.mono hP) hn)
    exact hP path hpath (hg.sameFolders.near_iff.1 hnear)

end Script

end NumericSteps
