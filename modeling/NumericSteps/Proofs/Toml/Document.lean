import NumericSteps.Proofs.Toml.Number
import NumericSteps.Proofs.Toml.Text

namespace NumericSteps.Toml

section Lines

/-- A key that stands for itself. -/
structure IsBare (k : Key) : Prop where
  ne_nil : k ≠ []
  bare : ∀ c ∈ k, isBareKey c = true

instance (k : Key) : Decidable (IsBare k) :=
  decidable_of_iff (k ≠ [] ∧ k.all isBareKey = true)
    ⟨fun h => ⟨h.1, List.all_eq_true.1 h.2⟩, fun h => ⟨h.1, List.all_eq_true.2 h.2⟩⟩

/-- The text lists the statements, line by line. -/
inductive Lists : List Char → List Statement → Prop
  | nil : Lists [] []
  | line {cs rest : List Char} {s : Option Statement} {ss : List Statement} :
      line cs = some (s, rest) → rest.length < cs.length → Lists rest ss → Lists cs (s.toList ++ ss)

variable {k : Key} {c : Char} {cs rest written : List Char} {ss : List Statement} {v : Value} {n : Nat}

theorem Lists.statements (h : Lists cs ss) {fuel : Nat} (hf : cs.length ≤ fuel) :
    statements fuel cs = some ss := by
  induction h generalizing fuel with
  | nil => cases fuel <;> rfl
  | @line cs rest s ss hl hlt _ ih =>
    obtain ⟨fuel, rfl⟩ := Nat.exists_eq_succ_of_ne_zero (n := fuel) (by omega)
    obtain ⟨c, tail, rfl⟩ := List.exists_cons_of_ne_nil (l := cs) (by
      rintro rfl
      simp at hlt)
    rw [Toml.statements, hl]
    · dsimp only
      rw [ih (by omega)]
      rfl
    · simp

theorem read_of_lists (h : Lists cs ss) (hm : dropMark cs = cs) : read cs = build ss := by
  unfold read
  dsimp only
  rw [hm, h.statements le_rfl]
  rfl

/-- A bare key starts with none of the characters that have a meaning of their own. -/
theorem IsBare.head (hk : IsBare k) : ∃ x xs, k = x :: xs ∧ ∀ c, isBareKey c = false → x ≠ c := by
  obtain ⟨x, xs, rfl⟩ := List.exists_cons_of_ne_nil hk.ne_nil
  refine ⟨x, xs, rfl, ?_⟩
  rintro c hc rfl
  rw [hk.bare x List.mem_cons_self] at hc
  cases hc

theorem keyPart_bare (hk : IsBare k) (hc : isBareKey c = false) :
    keyPart (k ++ c :: cs) = some (k, c :: cs) := by
  obtain ⟨x, xs, rfl, hx⟩ := hk.head
  have htake : ((x :: xs) ++ c :: cs).takeWhile isBareKey = x :: xs := by
    rw [List.takeWhile_append_of_pos hk.bare]
    simp [hc]
  have hdrop : ((x :: xs) ++ c :: cs).dropWhile isBareKey = c :: cs := by
    rw [List.dropWhile_append_of_pos hk.bare]
    simp [hc]
  unfold keyPart
  split
  · rename_i hquote
    exact absurd (List.cons.inj hquote).1 (hx _ rfl)
  · rename_i hapostrophe
    exact absurd (List.cons.inj hapostrophe).1 (hx _ rfl)
  · rw [htake, hdrop]

theorem blanks_bare (hk : IsBare k) (t : List Char) : blanks (k ++ t) = k ++ t := by
  obtain ⟨x, xs, rfl, hx⟩ := hk.head
  have hgap : isGap x = false := by simp [isGap, hx ' ' rfl, hx '\t' rfl]
  rw [blanks, List.cons_append, List.dropWhile_cons, hgap]
  rfl

/-- A bare key ends where another character follows; behind blanks it is a path by itself. -/
theorem keyPath_bare (hk : IsBare k) (hc : isBareKey c = false)
    (hp : ∀ more, blanks (c :: cs) ≠ '.' :: more) :
    keyPath depth (k ++ c :: cs) = some (([], k), blanks (c :: cs)) := by
  unfold depth keyPath
  rw [blanks_bare hk, keyPart_bare hk hc]
  dsimp only
  split
  · rename_i more hmore
    exact absurd hmore (hp more)
  · rfl

theorem line_blank (rest : List Char) : line ('\n' :: rest) = some (none, rest) := rfl

theorem line_header (hk : IsBare k) (rest : List Char) :
    line ('[' :: (k ++ ']' :: '\n' :: rest)) = some (some (.header [] k), rest) := by
  have hclose (more : List Char) : blanks (']' :: '\n' :: rest) ≠ '.' :: more := by
    intro h
    cases h
  have hpath := keyPath_bare hk rfl hclose
  obtain ⟨x, xs, rfl, hx⟩ := hk.head
  have hblanks : blanks ('[' :: (x :: xs ++ ']' :: '\n' :: rest)) =
      '[' :: (x :: xs ++ ']' :: '\n' :: rest) := rfl
  unfold line
  rw [hblanks]
  split
  · rename_i hopen
    exact absurd (List.cons.inj (List.cons.inj hopen).2).1 (hx _ rfl)
  · rename_i hopen
    cases (List.cons.inj hopen).2
    rw [hpath]
    rfl
  · rename_i hnot
    exact absurd rfl (hnot _)

theorem endLine_bare (hk : IsBare k) (t : List Char) : endLine (k ++ t) = none := by
  have hblanks := blanks_bare hk t
  obtain ⟨x, xs, rfl, hx⟩ := hk.head
  unfold endLine
  rw [hblanks]
  split
  · rename_i hcomment
    exact absurd (List.cons.inj hcomment).1 (hx _ rfl)
  · exact newline?_eq_none (hx _ rfl) (hx _ rfl) (xs ++ t)

/-- The line of a key and a value, of which the value starts with no blank and ends at the line end. -/
theorem line_entry (hk : IsBare k)
    (hgap : blanks (written ++ '\n' :: rest) = written ++ '\n' :: rest)
    (hv : value depth (written ++ '\n' :: rest) = some (v, '\n' :: rest)) :
    line (k ++ ' ' :: '=' :: ' ' :: (written ++ '\n' :: rest)) = some (some (.assign [] k v), rest) := by
  have hpath : keyPath depth (k ++ ' ' :: '=' :: ' ' :: (written ++ '\n' :: rest)) =
      some (([], k), '=' :: ' ' :: (written ++ '\n' :: rest)) :=
    keyPath_bare hk rfl (fun more h => nomatch h)
  have hassign : assignment (value depth) (k ++ ' ' :: '=' :: ' ' :: (written ++ '\n' :: rest)) =
      some ((([], k), v), '\n' :: rest) := by
    unfold assignment
    rw [hpath]
    change (value depth (blanks (written ++ '\n' :: rest))).map _ = _
    rw [hgap, hv]
    rfl
  have hfirst : ∀ t, k ++ ' ' :: '=' :: ' ' :: (written ++ '\n' :: rest) ≠ '[' :: t := by
    obtain ⟨x, xs, rfl, hx⟩ := hk.head
    exact fun t ht => hx _ rfl (List.cons.inj ht).1
  unfold line
  rw [blanks_bare hk]
  split
  · rename_i hopen
    exact absurd hopen (hfirst _)
  · rename_i hopen
    exact absurd hopen (hfirst _)
  · rw [endLine_bare hk, hassign]
    rfl

end Lines

section Values

variable {k : Key} {c : Char} {cs rest written : List Char} {v : Value} {x : Float}

/-- On a line of its own, the text gives the key the value. -/
def Gives (k : Key) (written : List Char) (v : Value) : Prop :=
  ∀ rest, line (k ++ ' ' :: '=' :: ' ' :: (written ++ '\n' :: rest)) =
    some (some (.assign [] k v), rest)

theorem value_leaf (hb : c ≠ '[') (hc : c ≠ '\x7b') : value depth (c :: cs) = leaf (c :: cs) := by
  unfold depth value
  split
  · rename_i h
    exact absurd (List.cons.inj h).1 hb
  · rename_i h
    exact absurd (List.cons.inj h).1 hc
  · rfl

/-- What starts with no blank and no bracket, and is read as a value that holds no others. -/
theorem gives_of_leaf (hk : IsBare k) (hw : written = c :: cs) (hg : isGap c = false) (hb : c ≠ '[')
    (hc : c ≠ '\x7b') (hv : ∀ rest, leaf (written ++ '\n' :: rest) = some (v, '\n' :: rest)) :
    Gives k written v := by
  intro rest
  subst hw
  refine line_entry hk ?_ ?_
  · rw [blanks, List.cons_append, List.dropWhile_cons, hg]
    rfl
  · rw [← hv rest]
    exact value_leaf hb hc

theorem gives_text (hk : IsBare k) (cs : List Char) : Gives k (writeText cs) (.text cs) := by
  have hleaf (rest : List Char) :
      leaf (writeText cs ++ '\n' :: rest) = some (.text cs, '\n' :: rest) := by
    rw [leaf, readText_writeText]
  unfold writeText at hleaf ⊢
  cases hform : form cs <;> rw [hform] at hleaf
  all_goals exact gives_of_leaf hk rfl rfl (by decide) (by decide) hleaf

theorem readText_eq_none (hq : c ≠ '"') (ha : c ≠ '\'') (t : List Char) : readText (c :: t) = none := by
  unfold readText
  split <;> simp_all

theorem gives_float (hk : IsBare k) (hx : x.isFinite = true) : Gives k (writeFloat x) (.float x) := by
  obtain ⟨c, cs, he, hc⟩ := (pointed_writeFloat hx).head
  have hgap : isGap c = false := by
    simp [isGap, hc ' ' rfl (by decide) (by decide), hc '\t' rfl (by decide) (by decide)]
  have hbracket : c ≠ '[' := hc _ rfl (by decide) (by decide)
  have hbrace : c ≠ '\x7b' := hc _ rfl (by decide) (by decide)
  refine gives_of_leaf hk he hgap hbracket hbrace fun rest => ?_
  have htext : readText (writeFloat x ++ '\n' :: rest) = none := by
    rw [he]
    exact readText_eq_none (hc _ rfl (by decide) (by decide)) (hc _ rfl (by decide) (by decide)) _
  rw [leaf, htext]
  exact word_writeFloat hx rest

theorem Lists.entry (key : String) {ss : List Statement} (h : Gives key.toList written v)
    (hs : Lists rest ss) :
    Lists (entryLine key written ++ rest) (.assign [] key.toList v :: ss) := by
  have hline := h rest
  have hsplit : entryLine key written ++ rest =
      key.toList ++ ' ' :: '=' :: ' ' :: (written ++ '\n' :: rest) := by
    simp [entryLine]
  rw [← hsplit] at hline
  refine .line hline ?_ hs
  rw [hsplit]
  simp
  omega

/-- Lines one after the other, each of which gives its key its value. -/
theorem lists_entries {α : Type} {xs : List α} {key : α → String} {written : α → List Char}
    {v : α → Value} {ss : List Statement} (h : ∀ x ∈ xs, Gives (key x).toList (written x) (v x))
    (hs : Lists rest ss) :
    Lists (xs.flatMap (fun x => entryLine (key x) (written x)) ++ rest)
      (xs.map (fun x => .assign [] (key x).toList (v x)) ++ ss) := by
  induction xs with
  | nil => exact hs
  | cons x xs ih =>
    rw [List.forall_mem_cons] at h
    rw [List.flatMap_cons, List.append_assoc]
    exact .entry (key x) h.1 (ih h.2)

theorem Lists.header {ss : List Statement} (hk : IsBare k) (hs : Lists rest ss) :
    Lists ('\n' :: '[' :: (k ++ ']' :: '\n' :: rest)) (.header [] k :: ss) :=
  .line (line_blank _) (by simp) (.line (line_header hk rest) (by simp; omega) hs)

end Values

section Tables

variable {k : Key} {v : Value} {t es front entries : Table}

theorem get?_none (h : k ∉ t.map Prod.fst) : Table.get? t k = none := by
  rw [Table.get?, List.lookup_eq_none_iff]
  intro e he
  have hne : k ≠ e.1 := fun heq => h (heq ▸ List.mem_map_of_mem he)
  simpa using hne

theorem get?_of_mem (hn : (t.map Prod.fst).Nodup) (h : (k, v) ∈ t) : Table.get? t k = some v := by
  induction t with
  | nil => cases h
  | cons e t ih =>
    rw [List.map_cons, List.nodup_cons] at hn
    rcases List.mem_cons.1 h with rfl | hm
    · exact List.lookup_cons_self
    · have hne : k ≠ e.1 := fun heq => hn.1 (heq ▸ List.mem_map_of_mem hm)
      have hskip : (k == e.1) = false := by simpa using hne
      rw [Table.get?, List.lookup_cons, hskip]
      exact ih hn.2 hm

theorem get?_last (h : k ∉ front.map Prod.fst) : Table.get? (front ++ [(k, v)]) k = some v := by
  rw [Table.get?, List.lookup_append]
  have hnone : front.lookup k = none := get?_none h
  rw [hnone]
  exact List.lookup_cons_self

theorem replace_last (h : k ∉ front.map Prod.fst) (new : Value) :
    Table.replace (front ++ [(k, v)]) k new = front ++ [(k, new)] := by
  have hfront : front.map (fun e => if e.1 = k then (k, new) else e) = front := by
    refine (List.map_congr_left fun e he => if_neg fun heq => ?_).trans (List.map_id front)
    exact h (heq ▸ List.mem_map_of_mem he)
  rw [Table.replace, List.map_append, hfront]
  simp

theorem put_new (h : k ∉ t.map Prod.fst) : Table.put k v t = some (t ++ [(k, v)]) := by
  rw [Table.put, get?_none h]
  rfl

theorem step_root (h : k ∉ t.map Prod.fst) :
    Filling.step ⟨t, []⟩ (.assign [] k v) = some ⟨t ++ [(k, v)], []⟩ := by
  change (Table.put k v t).map _ = _
  rw [put_new h]
  rfl

theorem step_header (h : k ∉ t.map Prod.fst) :
    Filling.step ⟨t, []⟩ (.header [] k) = some ⟨t ++ [(k, .table .header [])], [k]⟩ := by
  change (Table.start k .header t).map _ = _
  rw [Table.start, get?_none h]
  rfl

theorem step_under {name : Key} (hname : name ∉ front.map Prod.fst) (h : k ∉ t.map Prod.fst) :
    Filling.step ⟨front ++ [(name, .table .header t)], [name]⟩ (.assign [] k v) =
      some ⟨front ++ [(name, .table .header (t ++ [(k, v)]))], [name]⟩ := by
  have hput : Table.assign [] k v .header t = some (t ++ [(k, v)]) := put_new h
  have halter : Table.alter Table.passesHeader .implied (Table.assign [] k v) [name] .header
      (front ++ [(name, .table .header t)]) =
        some (front ++ [(name, .table .header (t ++ [(k, v)]))]) := by
    rw [Table.alter, get?_last hname]
    change ((Table.assign [] k v .header t).map _) = _
    rw [hput, Option.map_some, replace_last hname]
  change (Table.alter Table.passesHeader .implied (Table.assign [] k v) [name] .header
    (front ++ [(name, .table .header t)])).map _ = _
  rw [halter]
  rfl

/-- The statements that give the keys their values, one by one. -/
def assigns (es : Table) : List Statement := es.map fun e => .assign [] e.1 e.2

/-- Where an entry with a new key is added to the table that is being filled, so are several. -/
theorem foldlM_assigns (fill : Table → Filling)
    (hstep : ∀ {t k v}, k ∉ t.map Prod.fst → (fill t).step (.assign [] k v) = some (fill (t ++ [(k, v)])))
    (h : ((t ++ es).map Prod.fst).Nodup) :
    (assigns es).foldlM Filling.step (fill t) = some (fill (t ++ es)) := by
  induction es generalizing t with
  | nil => simp [assigns]
  | cons e es ih =>
    have hnew : e.1 ∉ t.map Prod.fst := by
      rw [List.map_append, List.map_cons, List.nodup_append] at h
      exact fun hm => h.2.2 _ hm _ List.mem_cons_self rfl
    rw [List.append_cons] at h ⊢
    rw [← ih h]
    change ((fill t).step (.assign [] e.1 e.2)).bind _ = _
    rw [hstep hnew]
    rfl

/-- The document of entries and then of one table with entries, under keys that all differ. -/
theorem build_assigns {name : Key} (hname : name ∉ es.map Prod.fst) (he : (es.map Prod.fst).Nodup)
    (ht : (entries.map Prod.fst).Nodup) :
    build (assigns es ++ .header [] name :: assigns entries) =
      some (es ++ [(name, .table .header entries)]) := by
  have hroot : (assigns es).foldlM Filling.step ⟨[], []⟩ = some ⟨es, []⟩ :=
    foldlM_assigns (fun t => ⟨t, []⟩) step_root (t := []) he
  have hunder : (assigns entries).foldlM Filling.step ⟨es ++ [(name, .table .header [])], [name]⟩ =
      some ⟨es ++ [(name, .table .header entries)], [name]⟩ :=
    foldlM_assigns (fun t => ⟨es ++ [(name, .table .header t)], [name]⟩) (step_under hname) (t := [])
      ht
  rw [build, List.foldlM_append, hroot]
  change (((Filling.step ⟨es, []⟩ (.header [] name)).bind fun f =>
    (assigns entries).foldlM Filling.step f).map _) = _
  rw [step_header hname, Option.bind_some, hunder]
  rfl

end Tables

end NumericSteps.Toml
