import NumericSteps.Proofs.Workspace.Files

namespace NumericSteps.Workspace

open Script Text

variable {mayFail : Disk → Change → Prop} {w : Workspace} {d e : Disk} {course : Course}
  {paths staged : List Path} {entries : List (Slot × Matrix Float)} {s r : Slot} {u : Unit}

theorem other_staging (hs : w.names.Sound) (ha : w.Apart) (s r : Slot) :
    w.Other (w.names.name s) (w.stagingPath r) :=
  ⟨_, rfl, plain_stagingName (hs.plain r), (ha s r).symm⟩

theorem staging_other_path (hs : w.names.Sound) (ha : w.Apart) (s r : Slot) :
    w.Other (stagingName (w.names.name s)) (w.path r) :=
  ⟨_, rfl, hs.plain r, ha r s⟩

theorem staging_other_staging (hs : w.names.Sound) (h : r ≠ s) :
    w.Other (stagingName (w.names.name s)) (w.stagingPath r) :=
  ⟨_, rfl, plain_stagingName (hs.plain r), fun he => h (hs.inj (stagingName_inj he))⟩

theorem uses_stage {P : Path → Prop} (hp : ∀ p ∈ staged, P p)
    (he : ∀ x ∈ entries, P (w.stagingPath x.1)) : (w.stage staged entries).Uses P := by
  induction entries generalizing staged with
  | nil => trivial
  | cons x entries ih =>
    rw [List.forall_mem_cons] at he
    refine (uses_writeFile he.1 _).bind fun res => ?_
    cases res with
    | error g => exact (uses_unstage hp he.1).bind fun _ => trivial
    | ok u => exact ih (List.forall_mem_append.2 ⟨hp, List.forall_mem_singleton.2 he.1⟩) he.2

theorem only_stage (hp : ∀ p ∈ staged, p ∈ paths) (he : ∀ x ∈ entries, w.stagingPath x.1 ∈ paths) :
    (w.stage staged entries).Only (Change.Within paths) :=
  Uses.only (uses_stage hp he)

theorem uses_takeOver {P : Path → Prop} {ss : List Slot}
    (h : ∀ s ∈ ss, P (w.path s) ∧ P (w.stagingPath s)) : (w.takeOver ss).Uses P := by
  induction ss with
  | nil => trivial
  | cons s ss ih =>
    rw [List.forall_mem_cons] at h
    refine ⟨h.1.symm, fun r => ?_⟩
    cases r with
    | error f => trivial
    | ok u => exact ih h.2

theorem uses_writeMatrices {P : Path → Prop}
    (hp : ∀ x ∈ entries, P (w.path x.1) ∧ P (w.stagingPath x.1)) :
    (w.writeMatrices entries).Uses P := by
  refine (uses_stage (by simp) fun x hx => (hp x hx).2).bind fun res => ?_
  cases res with
  | error g => trivial
  | ok u =>
    refine uses_takeOver fun s hs => ?_
    obtain ⟨x, hx, rfl⟩ := List.mem_map.1 hs
    exact hp x hx

theorem only_writeMatrices (hp : ∀ x ∈ entries, w.path x.1 ∈ paths ∧ w.stagingPath x.1 ∈ paths) :
    (w.writeMatrices entries).Only (Change.Within paths) :=
  Uses.only (uses_writeMatrices hp)

/-- Once all are staged, every staging file is complete. -/
theorem ends_stage_ok (hs : w.names.Sound) (hn : (entries.map Prod.fst).Nodup)
    (h : Ends mayFail (w.stage staged entries) d course (.ok u) e) :
    d.SameBut (w.stagingPaths entries) e ∧ ∀ x ∈ entries,
      (∀ full, d.look (w.stagingPath x.1) ≠ some (.device full)) →
        e.look (w.stagingPath x.1) = some (.file (encode x.2.chars)) := by
  induction entries generalizing staged d course with
  | nil =>
    obtain ⟨-, -, rfl⟩ := h.of_done
    exact ⟨Disk.SameBut.refl _ _, by simp⟩
  | cons x entries ih =>
    obtain ⟨s, m⟩ := x
    rw [List.map_cons, List.nodup_cons] at hn
    obtain ⟨res, d', front, back, hfile, hback, -⟩ := Ends.of_bind h
    cases res with
    | error g =>
      obtain ⟨_, _, _, _, -, hlast, -⟩ := Ends.of_bind hback
      obtain ⟨he, -⟩ := Ends.of_done hlast
      cases he
    | ok u =>
      have hsame : d.SameBut [w.stagingPath s] d' :=
        hfile.sameBut (only_writeFile List.mem_cons_self _)
      have hne : ∀ y ∈ entries, s ≠ y.1 := by
        rintro y hy rfl
        exact hn.1 (List.mem_map.2 ⟨y, hy, rfl⟩)
      have hkept : ∀ y ∈ entries, d'.look (w.stagingPath y.1) = d.look (w.stagingPath y.1) := by
        intro y hy
        exact look_eq_of_other (plain_stagingName (hs.plain y.1)) hsame hfile.sameFolders
          (List.forall_mem_singleton.2 (staging_other_staging hs (hne y hy)))
      obtain ⟨hrest, hnew⟩ := ih hn.2 hback
      have hstays : e.look (w.stagingPath s) = d'.look (w.stagingPath s) := by
        apply look_eq_of_other (plain_stagingName (hs.plain s)) hrest hback.sameFolders
        exact List.forall_mem_map.2 fun y hy => staging_other_staging hs (hne y hy).symm
      refine ⟨?_, List.forall_mem_cons.2 ⟨fun hd => ?_, fun y hy hd => hnew y hy ?_⟩⟩
      · exact (hsame.mono (by simp [stagingPaths])).trans hfile.sameFolders
          (hrest.mono (by simp [stagingPaths]))
      · rcases ends_writeFile_ok hfile with ⟨⟨full, hfull⟩, -⟩ | hwritten
        · exact absurd hfull (hd full)
        · rw [hstays, hwritten, flatten_matrixLines]
      · rw [hkept y hy]
        exact hd

/-- However far the renames have come, a name has what it had or what was staged for it. -/
theorem leads_takeOver {ss : List Slot} {t : Script (Except Failure Unit)} (hs : w.names.Sound)
    (ha : w.Apart) (hn : ss.Nodup) (h : Leads mayFail (w.takeOver ss) d course t e) :
    ∀ s ∈ ss, e.look (w.path s) = d.look (w.path s) ∨
      e.look (w.path s) = d.look (w.stagingPath s) := by
  induction ss generalizing d course with
  | nil => simp
  | cons s ss ih =>
    rw [List.nodup_cons] at hn
    unfold takeOver at h
    cases h with
    | here => exact fun _ _ => Or.inl rfl
    | @change _ _ _ d' _ _ _ res hg hl =>
      cases res with
      | error f =>
        have hd' : d' = d := by
          apply hg.error_eq
          intro b hb
          cases hb
        cases hl
        rw [hd']
        exact fun _ _ => Or.inl rfl
      | ok u =>
        have hmoved : d'.look (w.path s) = d.look (w.stagingPath s) := Disk.look_rename hg.ok_apply
        have hsame : d.SameBut [w.stagingPath s, w.path s] d' := hg.sameBut ⟨by simp, by simp⟩
        have hne : ∀ r ∈ ss, s ≠ r := by
          rintro r hr rfl
          exact hn.1 hr
        rw [List.forall_mem_cons]
        constructor
        · right
          have hrest : d'.SameBut (ss.flatMap fun r => [w.stagingPath r, w.path r]) e := by
            apply hl.sameBut
            apply only_takeOver
            intro r hr
            exact ⟨List.mem_flatMap.2 ⟨r, hr, by simp⟩, List.mem_flatMap.2 ⟨r, hr, by simp⟩⟩
          rw [← hmoved]
          apply look_eq_of_other (hs.plain s) hrest hl.sameFolders
          intro path hp
          obtain ⟨r, hr, hp⟩ := List.mem_flatMap.1 hp
          rcases List.mem_pair.1 hp with rfl | rfl
          · exact other_staging hs ha s r
          · exact other_path hs (hne r hr).symm
        · intro r hr
          have hname : d'.look (w.path r) = d.look (w.path r) := by
            apply look_eq_of_other (hs.plain r) hsame hg.sameFolders
            exact List.forall_mem_cons.2 ⟨other_staging hs ha r s,
              List.forall_mem_singleton.2 (other_path hs (hne r hr))⟩
          have hstaging : d'.look (w.stagingPath r) = d.look (w.stagingPath r) := by
            apply look_eq_of_other (plain_stagingName (hs.plain r)) hsame hg.sameFolders
            exact List.forall_mem_cons.2 ⟨staging_other_staging hs (hne r hr),
              List.forall_mem_singleton.2 (staging_other_path hs ha r s)⟩
          rw [← hname, ← hstaging]
          exact ih hn.2 hl r hr

theorem leads_writeMatrices {t : Script (Except Failure Unit)} (hs : w.names.Sound) (ha : w.Apart)
    (hn : (entries.map Prod.fst).Nodup)
    (h : Leads mayFail (w.writeMatrices entries) d course t e) :
    ∀ x ∈ entries, (∀ full, d.look (w.stagingPath x.1) ≠ some (.device full)) →
      e.look (w.path x.1) = d.look (w.path x.1) ∨ w.Holds e x := by
  have hstaging : (w.stage [] entries).Only (Change.Within (w.stagingPaths entries)) :=
    only_stage (by simp) fun x hx => List.mem_map_of_mem hx
  rcases h.of_bind with ⟨t', hstage⟩ | ⟨res, d', front, back, hstage, htake, -⟩
  · intro x _ _
    have hsame : d.SameBut (w.stagingPaths entries) e := hstage.sameBut hstaging
    exact Or.inl (look_of_sameBut_staging hs ha hsame hstage.sameFolders x.1)
  · have hname : ∀ r, d'.look (w.path r) = d.look (w.path r) :=
      look_of_sameBut_staging hs ha (hstage.sameBut hstaging) hstage.sameFolders
    cases res with
    | error g =>
      cases htake
      exact fun x _ _ => Or.inl (hname x.1)
    | ok u =>
      obtain ⟨-, hnew⟩ := ends_stage_ok hs hn hstage
      intro x hx hd
      have htaken := leads_takeOver hs ha hn htake x.1 (List.mem_map_of_mem hx)
      rw [hname, hnew x hx hd] at htaken
      exact htaken

/-- At every instant of the writing of matrices as one unit, whatever fails, each of their files is
as it was or holds the whole text of its new matrix, unless its staging file is a device, and nothing
else differs but staging files. -/
theorem old_or_new_throughout {t : Script (Except Failure Unit)} (hw : w.names = {})
    (hn : (entries.map Prod.fst).Nodup)
    (h : Leads mayFail (w.writeMatrices entries) d course t e) :
    (∀ x ∈ entries, (∀ full, d.look (w.stagingPath x.1) ≠ some (.device full)) →
        e.look (w.path x.1) = d.look (w.path x.1) ∨ w.Holds e x) ∧
      d.SameBut (entries.map (fun x => w.path x.1) ++ w.stagingPaths entries) e := by
  have hp : ∀ x ∈ entries,
      w.path x.1 ∈ entries.map (fun x => w.path x.1) ++ w.stagingPaths entries ∧
      w.stagingPath x.1 ∈ entries.map (fun x => w.path x.1) ++ w.stagingPaths entries := by
    intro x hx
    have htarget : w.path x.1 ∈ entries.map (fun x => w.path x.1) := List.mem_map_of_mem hx
    have hstaging : w.stagingPath x.1 ∈ w.stagingPaths entries := List.mem_map_of_mem hx
    exact ⟨List.mem_append_left _ htarget, List.mem_append_right _ hstaging⟩
  constructor
  · exact leads_writeMatrices (sound_default hw) (apart_default hw) hn h
  · exact h.sameBut (only_writeMatrices hp)

/-- The writing is cut off between two renames: the first name has its new text, and the second
text still waits in its staging file. -/
def cutDisk : Disk :=
  (((leftDisk.set ["r", ".m1.partial"] (.file [])).set ["r", ".m2.partial"] (.file [10])).move
    ["r", ".m1.partial"] ["r", "m1"] (.file []))

theorem old_or_new_throughout_cut :
    top.names = {} ∧ (narrowPair.map Prod.fst).Nodup ∧
      ∃ course t, Leads (fun _ _ => True) (top.writeMatrices narrowPair) leftDisk course t cutDisk ∧
        (∀ x ∈ narrowPair, cutDisk.look (top.path x.1) = leftDisk.look (top.path x.1) ∨
          top.Holds cutDisk x) ∧
        leftDisk.SameBut
          (narrowPair.map (fun x => top.path x.1) ++ top.stagingPaths narrowPair) cutDisk := by
  have hn : (narrowPair.map Prod.fst).Nodup := by decide
  have hcut : cutDisk ∈ (top.writeMatrices narrowPair).states [none, none, none, none] leftDisk := by
    decide
  obtain ⟨course, t, h⟩ := leads_of_mem_states hcut
  obtain ⟨hall, hsame⟩ := old_or_new_throughout rfl hn h
  have hd : ∀ x ∈ narrowPair, ∀ full,
      leftDisk.look (top.stagingPath x.1) ≠ some (.device full) := by decide
  exact ⟨rfl, hn, course, t, h, fun x hx => hall x hx (hd x hx), hsame⟩

end NumericSteps.Workspace
