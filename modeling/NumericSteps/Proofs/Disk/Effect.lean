import NumericSteps.Proofs.Disk.Look

namespace NumericSteps

namespace Disk

variable {d e : Disk} {path target : Path} {p q : Place}

/-- A path that ends with a name leads to a place. -/
def Names (d : Disk) (path : Path) (p : Place) : Prop := d.locate path = .ok ⟨p, true, false⟩

theorem Names.of_sameFolders (h : d.Names path p) (k : SameFolders d e) : e.Names path p :=
  k.locate_ok h

theorem Names.place? (h : d.Names path p) : d.place? path = some p := by
  unfold Names at h
  unfold Disk.place?
  rw [h]

theorem Names.look (h : d.Names path p) : d.look path = d.get? p := by
  rw [Disk.look, h.place?]
  rfl

theorem SameFolders.look_eq (h : SameFolders d e) (path : Path) :
    e.look path = (d.place? path).bind e.get? := by
  rw [Disk.look, h.place?_eq]

theorem Names.isFile (h : d.Names path p) : d.isFile path = true ↔ ∃ b, d.get? p = some (.file b) := by
  unfold Names at h
  unfold Disk.isFile
  rw [h]
  dsimp only
  split <;> simp_all

theorem Names.read_file (h : d.Names path p) {b : Bytes} (hp : d.get? p = some (.file b)) :
    d.read path = .ok b := by
  unfold Names at h
  unfold Disk.read
  rw [h]
  simp [hp]

theorem Names.openWith_file (h : d.Names path p) (content : Bytes → Bytes) {b : Bytes}
    (hp : d.get? p = some (.file b)) :
    d.openWith content path = .ok (d.set p (.file (content b))) := by
  unfold Names at h
  unfold Disk.openWith
  rw [h]
  simp [hp]

theorem Names.openWith_none (h : d.Names path p) (content : Bytes → Bytes)
    (hp : d.get? p = none) : d.openWith content path = .ok (d.set p (.file [])) := by
  unfold Names at h
  unfold Disk.openWith
  rw [h]
  simp [hp]

theorem Names.openWith_directory (h : d.Names path p) (content : Bytes → Bytes)
    (hp : d.get? p = some .directory) : d.openWith content path = .error .isADirectory := by
  unfold Names at h
  unfold Disk.openWith
  rw [h]
  simp [hp]

theorem Names.write_file (h : d.Names path p) {old : Bytes} (new : Bytes)
    (hp : d.get? p = some (.file old)) :
    d.write path new = .ok (d.set p (.file (old ++ new))) := by
  unfold Names at h
  unfold Disk.write Disk.append
  rw [h]
  simp [hp]

theorem Names.rename_file (h : d.Names path p) (k : d.Names target q) (hl : q.length = p.length)
    {b : Bytes} (hp : d.get? p = some (.file b)) (hq : d.get? q ≠ some .directory) :
    d.rename path target = .ok (d.move p q (.file b)) := by
  unfold Names at h k
  unfold Disk.rename
  rw [h, k]
  have hn : q <+: p → q = p := fun hpq => hpq.eq_of_length hl
  simpa [hp, hq] using hn

theorem Names.rename_directory (h : d.Names path p) (k : d.Names target q)
    (hl : q.length = p.length) {b : Bytes} (hp : d.get? p = some (.file b))
    (hq : d.get? q = some .directory) : d.rename path target = .error .isADirectory := by
  unfold Names at h k
  unfold Disk.rename
  rw [h, k]
  have hn : q <+: p → q = p := fun hpq => hpq.eq_of_length hl
  simpa [hp, hq] using fun hpq hne => absurd (hn hpq) hne

theorem Names.rename_ok (h : d.Names path p) (k : d.Names target q) (hr : d.rename path target = .ok e) :
    ∃ x, d.get? p = some x ∧ x ≠ .directory ∧ d.get? q ≠ some .directory ∧ e = d.move p q x := by
  obtain ⟨s, t, x, hs, ht, hp, hx, hq, rfl⟩ := Disk.rename_ok hr
  cases h.symm.trans hs
  cases k.symm.trans ht
  exact ⟨x, hp, hx, hq, rfl⟩

end Disk

end NumericSteps
