import NumericSteps.Proofs.Disk.Content

namespace NumericSteps

namespace Script

variable {α β : Type} {mayFail : Disk → Change → Prop} {d e : Disk} {course : Course}

/-- A course through two scripts in a row stops in the first, or comes to its end and goes on in the
second. -/
theorem Leads.of_bind {s : Script α} {f : α → Script β} {t : Script β}
    (h : Leads mayFail (s >>= f) d course t e) :
    (∃ t', Leads mayFail s d course t' e) ∨ ∃ a d' front back, Ends mayFail s d front a d' ∧
      Leads mayFail (f a) d' back t e ∧ course = front ++ back := by
  change Leads mayFail (s.bind f) d course t e at h
  induction s generalizing d course with
  | done a => exact Or.inr ⟨a, d, [], course, .here _ d, h, rfl⟩
  | read path next ih =>
    cases h with
    | here => exact Or.inl ⟨_, .here _ _⟩
    | read hl =>
      rcases ih _ hl with ⟨t', hs⟩ | ⟨a, d', front, back, hs, hf, he⟩
      · exact Or.inl ⟨t', .read hs⟩
      · exact Or.inr ⟨a, d', front, back, .read hs, hf, he⟩
  | isFile path next ih =>
    cases h with
    | here => exact Or.inl ⟨_, .here _ _⟩
    | isFile hl =>
      rcases ih _ hl with ⟨t', hs⟩ | ⟨a, d', front, back, hs, hf, he⟩
      · exact Or.inl ⟨t', .isFile hs⟩
      · exact Or.inr ⟨a, d', front, back, .isFile hs, hf, he⟩
  | change c next ih =>
    cases h with
    | here => exact Or.inl ⟨_, .here _ _⟩
    | change hg hl =>
      rcases ih _ hl with ⟨t', hs⟩ | ⟨a, d', front, back, hs, hf, rfl⟩
      · exact Or.inl ⟨t', .change hg hs⟩
      · exact Or.inr ⟨a, d', _ :: front, back, .change hg hs, hf, rfl⟩

/-- What is kept by every change that a script can ask for is kept along its courses. -/
theorem Leads.closed {R : Disk → Disk → Prop} {P : Change → Prop} {s t : Script α}
    (refl : ∀ d, R d d) (trans : ∀ {d e f}, R d e → R e f → R d f)
    (step : ∀ {d c r e}, P c → Change.Goes mayFail d c r e → R d e)
    (h : Leads mayFail s d course t e) (hs : s.Only P) : R d e := by
  induction h with
  | here s d => exact refl d
  | read _ ih => exact ih (hs _)
  | isFile _ ih => exact ih (hs _)
  | change hg _ ih => exact trans (step hs.1 hg) (ih (hs.2 _))

theorem Only.mono {P Q : Change → Prop} {s : Script α} (hs : s.Only P) (h : ∀ c, P c → Q c) :
    s.Only Q := by
  induction s with
  | done a => trivial
  | read path next ih => exact fun r => ih r (hs r)
  | isFile path next ih => exact fun r => ih r (hs r)
  | change c next ih => exact ⟨h c hs.1, fun r => ih r (hs.2 r)⟩

/-- Whatever the replies, the script asks for such changes alone and comes to such a result. -/
def Keeps (P : Change → Prop) (Q : α → Prop) : Script α → Prop
  | .done a => Q a
  | .read _ next => ∀ r, (next r).Keeps P Q
  | .isFile _ next => ∀ r, (next r).Keeps P Q
  | .change c next => P c ∧ ∀ r, (next r).Keeps P Q

theorem Keeps.bind {P : Change → Prop} {Q : α → Prop} {R : β → Prop} {s : Script α} {f : α → Script β}
    (hs : s.Keeps P Q) (hf : ∀ a, Q a → (f a).Keeps P R) : (s >>= f).Keeps P R := by
  change (s.bind f).Keeps P R
  induction s with
  | done a => exact hf a hs
  | read path next ih => exact fun r => ih r (hs r)
  | isFile path next ih => exact fun r => ih r (hs r)
  | change c next ih => exact ⟨hs.1, fun r => ih r (hs.2 r)⟩

theorem Keeps.only {P : Change → Prop} {Q : α → Prop} {s : Script α} (hs : s.Keeps P Q) : s.Only P := by
  induction s with
  | done a => trivial
  | read path next ih => exact fun r => ih r (hs r)
  | isFile path next ih => exact fun r => ih r (hs r)
  | change c next ih => exact ⟨hs.1, fun r => ih r (hs.2 r)⟩

/-- Two courses in a row are a course of two scripts in a row. -/
theorem Ends.bind {s : Script α} {f : α → Script β} {a : α} {b : β} {d' : Disk} {front back : Course}
    (hs : Ends mayFail s d front a d') (hf : Ends mayFail (f a) d' back b e) :
    Ends mayFail (s >>= f) d (front ++ back) b e := by
  change Leads mayFail (s.bind f) d (front ++ back) (.done b) e
  induction s generalizing d front with
  | done a' =>
    obtain ⟨rfl, rfl, rfl⟩ := hs.of_done
    exact hf
  | read path next ih =>
    cases hs with
    | read hl => exact .read (ih _ hl)
  | isFile path next ih =>
    cases hs with
    | isFile hl => exact .isFile (ih _ hl)
  | change c next ih =>
    cases hs with
    | change hg hl => exact .change hg (ih _ hl)

theorem Ends.map {s : Script α} {a : α} (h : Ends mayFail s d course a e) (f : α → β) :
    Ends mayFail (f <$> s) d course (f a) e := by
  have hlast : Ends mayFail (pure (f a)) e [] (f a) e := .here _ e
  rw [map_eq_pure_bind, ← List.append_nil course]
  exact h.bind hlast

theorem Ends.of_map {s : Script α} {f : α → β} {b : β} (h : Ends mayFail (f <$> s) d course b e) :
    ∃ a, f a = b ∧ Ends mayFail s d course a e := by
  rw [map_eq_pure_bind] at h
  obtain ⟨a, d', front, back, hs, hlast, rfl⟩ := Ends.of_bind h
  obtain ⟨rfl, rfl, rfl⟩ := Ends.of_done hlast
  exact ⟨a, rfl, by simpa using hs⟩

/-- A script that asks for no changes only looks, and sees what it sees in a run. -/
theorem Ends.of_idle {s : Script α} {a : α} (h : Ends mayFail s d course a e)
    (hs : s.Only fun _ => False) : course = [] ∧ e = d ∧ a = (s.run d).1 := by
  induction s generalizing course with
  | done b =>
    obtain ⟨rfl, rfl, rfl⟩ := h.of_done
    exact ⟨rfl, rfl, rfl⟩
  | read path next ih =>
    cases h with
    | read hl => exact ih _ hl (hs _)
  | isFile path next ih =>
    cases h with
    | isFile hl => exact ih _ hl (hs _)
  | change c next ih => exact hs.1.elim

/-- Where a script that only looks comes first, the rest goes on from what it sees. -/
theorem Ends.of_bind_idle {s : Script α} {f : α → Script β} {b : β}
    (h : Ends mayFail (s >>= f) d course b e) (hs : s.Only fun _ => False) :
    Ends mayFail (f (s.run d).1) d course b e := by
  obtain ⟨a, d', front, back, hfront, hback, rfl⟩ := Ends.of_bind h
  obtain ⟨rfl, rfl, rfl⟩ := hfront.of_idle hs
  exact hback

/-- Where what is read first is missing and that ends all, nothing has been touched. -/
theorem Ends.of_bind_read {ε : Type} {s : Script (Except ε α)} {f : Except ε α → Script β} {b : β}
    {stop : ε → β} (h : Ends mayFail (s >>= f) d course b e) (hs : s.Only fun _ => False)
    (hf : ∀ g, f (.error g) = .done (stop g)) :
    (∃ g, b = stop g) ∧ course = [] ∧ e = d ∨
      ∃ a, (s.run d).1 = .ok a ∧ Ends mayFail (f (.ok a)) d course b e := by
  have h := Ends.of_bind_idle h hs
  cases hx : (s.run d).1 with
  | error g =>
    rw [hx, hf g] at h
    obtain ⟨rfl, rfl, rfl⟩ := h.of_done
    exact Or.inl ⟨⟨g, rfl⟩, rfl, rfl⟩
  | ok a =>
    rw [hx] at h
    exact Or.inr ⟨a, rfl, h⟩

/-- Two scripts in a row, of which the second is left out where the first fails, have both worked if
the result is no error. -/
theorem Ends.of_bind_ok {δ ε : Type} {s : Script (Except δ α)}
    {f : Except δ α → Script (Except ε β)} {b : β} (h : Ends mayFail (s >>= f) d course (.ok b) e)
    (hf : ∀ g, ∃ g', f (.error g) = .done (.error g')) :
    ∃ a d' front back, Ends mayFail s d front (.ok a) d' ∧
      Ends mayFail (f (.ok a)) d' back (.ok b) e := by
  obtain ⟨res, d', front, back, hfront, hback, -⟩ := Ends.of_bind h
  cases res with
  | error g =>
    obtain ⟨g', hg'⟩ := hf g
    rw [hg'] at hback
    cases (Ends.of_done hback).1
  | ok a => exact ⟨a, d', front, back, hfront, hback⟩

theorem Ends.of_change_ok {ε : Type} {c : Change} {b : β}
    {next : Except OsFault Unit → Script (Except ε β)}
    (h : Ends mayFail (.change c next) d course (.ok b) e)
    (hf : ∀ g, ∃ g', next (.error g) = .done (.error g')) :
    ∃ d' rest, c.apply d = .ok d' ∧ Ends mayFail (next (.ok ())) d' rest (.ok b) e := by
  obtain ⟨res, d', rest, hg, -, hrest⟩ := h.of_change
  cases res with
  | error g =>
    obtain ⟨g', hg'⟩ := hf g
    rw [hg'] at hrest
    cases (Ends.of_done hrest).1
  | ok u => exact ⟨d', rest, hg.ok_apply, hrest⟩

theorem Leads.grows {s t : Script α} (h : Leads mayFail s d course t e) (hs : s.Only Change.Adds)
    (path : Path) : d.Grows path e :=
  h.closed (fun _ => Disk.Grows.of_look_eq rfl) Disk.Grows.trans (fun hc hg => hg.grows hc path) hs

/-- The disks that a script goes through, with chosen changes failing, are reached by courses. -/
theorem leads_of_mem_states {s : Script α} {fates : List (Option OsFault)}
    (h : e ∈ s.states fates d) : ∃ course t, Leads (fun _ _ => True) s d course t e := by
  induction s generalizing fates d with
  | done a =>
    rw [states, List.mem_singleton] at h
    subst h
    exact ⟨[], _, .here _ e⟩
  | read path next ih =>
    obtain ⟨course, t, hl⟩ := ih _ h
    exact ⟨course, t, .read hl⟩
  | isFile path next ih =>
    obtain ⟨course, t, hl⟩ := ih _ h
    exact ⟨course, t, .isFile hl⟩
  | change c next ih =>
    cases fates with
    | nil =>
      rw [states, List.mem_singleton] at h
      subst h
      exact ⟨[], _, .here _ e⟩
    | cons fate fates =>
      cases fate with
      | some f =>
        rw [states, List.mem_cons] at h
        rcases h with rfl | h
        · exact ⟨[], _, .here _ e⟩
        · obtain ⟨course, t, hl⟩ := ih _ h
          exact ⟨_, t, .change (.failed f trivial) hl⟩
      | none =>
        rw [states, List.mem_cons] at h
        rcases h with rfl | h
        · exact ⟨[], _, .here _ e⟩
        · obtain ⟨course, t, hl⟩ := ih _ h
          exact ⟨_, t, .change (.asAsked c) hl⟩

end Script

/-- Calls one after the other, where `Takes c d e` says that call `c` can lead from `d` to `e`. -/
inductive Calls {κ : Type} (Takes : κ → Disk → Disk → Prop) : Disk → List κ → Disk → Prop
  | nil (d : Disk) : Calls Takes d [] d
  | cons {c : κ} {cs : List κ} {d d' e : Disk} :
      Takes c d d' → Calls Takes d' cs e → Calls Takes d (c :: cs) e

/-- What every call keeps is kept by all of them in a row. -/
theorem Calls.closed {κ : Type} {Takes : κ → Disk → Disk → Prop} {R : Disk → Disk → Prop}
    {cs : List κ} {d e : Disk} (refl : ∀ d, R d d) (trans : ∀ {d e f}, R d e → R e f → R d f)
    (step : ∀ c ∈ cs, ∀ {d e}, Takes c d e → R d e) (h : Calls Takes d cs e) : R d e := by
  induction h with
  | nil d => exact refl d
  | cons ht _ ih =>
    have hfirst := step _ List.mem_cons_self ht
    have hrest := ih fun c hc => step c (List.mem_cons_of_mem _ hc)
    exact trans hfirst hrest

end NumericSteps
