import NumericSteps.Proofs.Disk.Course

namespace NumericSteps

namespace Disk

variable {d e f : Disk} {path target : Path} {old bytes : Bytes} {t : Target}

theorem look_of_locate (h : d.locate path = .ok t) : d.look path = d.get? t.place := by
  have hp : d.place? path = some t.place := place?_of_locate h
  simp [look, hp]

theorem look_openWith {content : Bytes → Bytes} (h : d.openWith content path = .ok e) :
    (∃ full, d.look path = some (.device full)) ∧ e = d ∨
      d.look path = none ∧ e.look path = some (.file []) ∨
      ∃ b, d.look path = some (.file b) ∧ e.look path = some (.file (content b)) := by
  obtain ⟨t, ht, hput⟩ := openWith_ok h
  have hbefore : d.look path = d.get? t.place := look_of_locate ht
  have hafter : e.look path = e.get? t.place := look_of_locate (hput.sameFolders.locate_ok ht)
  have hne : t.place ≠ [] := ne_nil_of_get? hput.1
  unfold openWith at h
  rw [ht] at h
  dsimp only at h
  rw [hbefore, hafter]
  split at h
  · cases h
  · cases hg : d.get? t.place with
    | none =>
      rw [hg] at h
      cases h
      simp [get?_set d t.place t.place _ hne]
    | some x =>
      rw [hg] at h
      cases x with
      | file b =>
        cases h
        simp [get?_set d t.place t.place _ hne]
      | directory => cases h
      | device full =>
        cases h
        simp

theorem look_write (h : d.write path bytes = .ok e) (ho : d.look path = some (.file old)) :
    e.look path = some (.file (old ++ bytes)) := by
  obtain ⟨t, ht, hput⟩ := write_ok h
  have hold : d.get? t.place = some (.file old) := (look_of_locate ht).symm.trans ho
  have hafter : e.look path = e.get? t.place := look_of_locate (hput.sameFolders.locate_ok ht)
  have hne : t.place ≠ [] := ne_nil_of_get? hput.1
  simp only [write, ht, append, hold] at h
  cases h
  simp [hafter, get?_set d t.place t.place _ hne]

theorem exists_write (bytes : Bytes) (ho : d.look path = some (.file old)) :
    ∃ e, d.write path bytes = .ok e := by
  cases ht : d.locate path with
  | error f => simp [look, place?, ht] at ho
  | ok t =>
    have hold : d.get? t.place = some (.file old) := (look_of_locate ht).symm.trans ho
    simp [write, append, ht, hold]

theorem write_device {full : Bool} (h : d.write path bytes = .ok e)
    (hd : d.look path = some (.device full)) : e = d := by
  obtain ⟨t, ht, -⟩ := write_ok h
  have hdev : d.get? t.place = some (.device full) := (look_of_locate ht).symm.trans hd
  simp only [write, ht, append, hdev] at h
  split at h
  · cases h
  · cases h
    rfl

theorem look_rename (h : d.rename path target = .ok e) : e.look target = d.look path := by
  have hd : SameFolders d e := Change.sameFolders_apply (c := .rename path target) h
  obtain ⟨s, t, x, hs, ht, hp, hx, hq, rfl⟩ := rename_ok h
  have hsource : s.place ≠ [] := by
    intro he
    rw [he, get?_nil] at hp
    exact hx (Option.some.inj hp).symm
  rw [look_of_locate hs, look_of_locate (hd.locate_ok ht), hp]
  simp [get?_move d t.place x hsource (ne_nil_of_get? hq)]

/-- A file with these bytes, where no file is as good as an empty one. -/
def Content (d : Disk) (path : Path) (b : Bytes) : Prop :=
  d.look path = some (.file b) ∨ d.look path = none ∧ b = []

theorem Content.of_look_eq (h : d.Content path old) (he : e.look path = d.look path) :
    e.Content path old := by
  unfold Content
  rw [he]
  exact h

theorem Content.look_openAppend (hb : d.Content path old) (h : d.openAppend path = .ok e) :
    e.look path = some (.file old) := by
  rcases look_openWith h with ⟨⟨full, hdev⟩, -⟩ | ⟨hnone, hnew⟩ | ⟨b, hfile, hkept⟩
  · rcases hb with hb | ⟨hb, -⟩
    · simp [hdev] at hb
    · simp [hdev] at hb
  · rcases hb with hb | ⟨-, rfl⟩
    · simp [hnone] at hb
    · exact hnew
  · rcases hb with hb | ⟨hb, -⟩
    · have he : b = old := by simpa [hfile] using hb
      simpa [he] using hkept
    · simp [hfile] at hb

/-- Additions go behind a content, or to a device. -/
theorem content_of_openAppend (h : d.openAppend path = .ok e) :
    (∃ full, d.look path = some (.device full)) ∨ ∃ b, d.Content path b := by
  rcases look_openWith h with ⟨hdev, -⟩ | ⟨hnone, -⟩ | ⟨b, hfile, -⟩
  · exact Or.inl hdev
  · exact Or.inr ⟨[], Or.inr ⟨hnone, rfl⟩⟩
  · exact Or.inr ⟨b, Or.inl hfile⟩

/-- What the file at the path held before is the front of what it holds afterwards. -/
def Grows (d : Disk) (path : Path) (e : Disk) : Prop :=
  ∀ b, d.look path = some (.file b) → ∃ more, e.look path = some (.file (b ++ more))

theorem Grows.of_look_eq (h : e.look path = d.look path) : d.Grows path e := by
  intro b hb
  exact ⟨[], by simp [h, hb]⟩

theorem Grows.trans (h : d.Grows path e) (k : e.Grows path f) : d.Grows path f := by
  intro b hb
  obtain ⟨m, hm⟩ := h b hb
  obtain ⟨n, hn⟩ := k _ hm
  exact ⟨m ++ n, by rw [hn, List.append_assoc]⟩

end Disk

namespace Change

variable {mayFail : Disk → Change → Prop} {d e : Disk} {b c : Change} {r : Except OsFault Unit}

/-- Bytes are put behind those of a file, or a file is opened for that. -/
def Adds : Change → Prop
  | .openAppend _ => True
  | .write _ _ => True
  | _ => False

theorem Front.adds (h : b.Front c) (hc : c.Adds) : b.Adds := by
  cases h
  · trivial
  · exact hc

theorem apply_adds (h : c.apply d = .ok e) (hc : c.Adds) (path : Path) : d.Grows path e := by
  have hd : Disk.SameFolders d e := sameFolders_apply h
  intro b hb
  obtain ⟨q, hq, hget⟩ := Option.bind_eq_some_iff.1 hb
  have hafter : e.look path = e.get? q := by simp [hd.look_eq, hq]
  rw [hafter]
  by_cases hm : q ∈ c.places d
  · cases c with
    | openAppend p =>
      have hp : d.place? p = some q := by simpa [places] using hm
      have hlook : d.look p = some (.file b) := by simpa [Disk.look, hp] using hget
      have hkept : e.look p = some (.file b) :=
        Disk.Content.look_openAppend (Or.inl hlook) h
      exact ⟨[], by simpa [hd.look_eq, hp] using hkept⟩
    | write p bytes =>
      have hp : d.place? p = some q := by simpa [places] using hm
      have hlook : d.look p = some (.file b) := by simpa [Disk.look, hp] using hget
      have hmore : e.look p = some (.file (b ++ bytes)) := Disk.look_write h hlook
      exact ⟨bytes, by simpa [hd.look_eq, hp] using hmore⟩
    | create p => exact hc.elim
    | hold handle p => exact hc.elim
    | writeHeld handle bytes => exact hc.elim
    | remove p => exact hc.elim
    | rename p q => exact hc.elim
  · exact ⟨[], by rw [apply_frame h hm, hget, List.append_nil]⟩

theorem Goes.ok_apply {u : Unit} (h : Goes mayFail d c (.ok u) e) : c.apply d = .ok e := by
  generalize hr : Except.ok u = reply at h
  cases h with
  | asAsked =>
    unfold perform at hr ⊢
    cases ha : c.apply d with
    | ok e => rfl
    | error f =>
      rw [ha] at hr
      cases hr
  | failed => cases hr
  | brokenOff => cases hr

/-- An operation that fails as a whole has done nothing. -/
theorem Goes.error_eq {g : OsFault} (h : Goes mayFail d c (.error g) e) (hc : ∀ b : Change, ¬ b.Front c) :
    e = d := by
  generalize hr : Except.error g = reply at h
  cases h with
  | asAsked =>
    unfold perform at hr ⊢
    cases ha : c.apply d with
    | ok e =>
      rw [ha] at hr
      cases hr
    | error f => rfl
  | failed => rfl
  | brokenOff _ _ hf _ => exact absurd hf (hc _)

/-- The disk takes what is written to a file, so only a fault can stop it; then a front of the bytes
has been added. -/
theorem Goes.write_file {path : Path} {old bytes : Bytes} {f : OsFault}
    (h : Goes mayFail d (.write path bytes) (.error f) e) (ho : d.look path = some (.file old)) :
    mayFail d (.write path bytes) ∧
      ∃ front, front <+: bytes ∧ e.look path = some (.file (old ++ front)) := by
  generalize hr : Except.error f = reply at h
  cases h with
  | asAsked =>
    obtain ⟨e, he⟩ := Disk.exists_write bytes ho
    have ha : (Change.write path bytes).apply d = .ok e := he
    rw [perform, ha] at hr
    cases hr
  | failed _ hm => exact ⟨hm, [], List.nil_prefix, by simpa using ho⟩
  | brokenOff _ hm hf ha =>
    cases hf with
    | write _ front back =>
      exact ⟨hm, front, List.prefix_append front back, Disk.look_write ha ho⟩

/-- Nothing that is written to a device stays. -/
theorem Goes.write_device {path : Path} {bytes : Bytes} {full : Bool}
    (h : Goes mayFail d (.write path bytes) r e) (hd : d.look path = some (.device full)) : e = d := by
  cases h with
  | asAsked =>
    unfold perform
    cases ha : (Change.write path bytes).apply d with
    | ok e => exact Disk.write_device ha hd
    | error f => rfl
  | failed => rfl
  | brokenOff _ _ hf ha =>
    cases hf with
    | write _ front back => exact Disk.write_device ha hd

theorem Goes.grows (h : Goes mayFail d c r e) (hc : c.Adds) (path : Path) : d.Grows path e := by
  cases h with
  | asAsked =>
    unfold perform
    cases ha : c.apply d with
    | ok e => exact apply_adds ha hc path
    | error f => exact Disk.Grows.of_look_eq rfl
  | failed => exact Disk.Grows.of_look_eq rfl
  | brokenOff _ _ hf ha => exact apply_adds ha (hf.adds hc) path

end Change

end NumericSteps
