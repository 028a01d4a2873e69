import NumericSteps.Text.Cut
import NumericSteps.Text.Utf8

namespace NumericSteps.Text

theorem decode_encode (cs : List Char) : decode (encode cs) = some cs := by
  have h : ByteArray.mk (encode cs).toArray = cs.utf8Encode := by
    rw [List.utf8Encode]
    exact ByteArray.ext List.data_toByteArray.symm
  rw [decode, h, List.utf8Decode?_utf8Encode]
  simp

theorem encode_of_decode {bytes : Bytes} {cs : List Char} (h : decode bytes = some cs) :
    encode cs = bytes := by
  obtain ⟨chars, hchars, rfl⟩ := Option.map_eq_some_iff.1 h
  have hsome : (ByteArray.mk bytes.toArray).utf8Decode?.isSome = true := by
    rw [hchars]
    rfl
  have hback : chars.toList.utf8Encode = ByteArray.mk bytes.toArray := by
    simpa [hchars] using ByteArray.utf8Encode_get_utf8Decode? (h := hsome)
  rw [List.utf8Encode] at hback
  unfold encode
  simpa using congrArg (fun b : ByteArray => b.data.toList) hback

/-- Bytes are a text if they are the bytes of one. -/
theorem decode_ne_none_iff {bytes : Bytes} : decode bytes ≠ none ↔ ∃ cs, encode cs = bytes := by
  constructor
  · intro h
    obtain ⟨cs, hcs⟩ := Option.ne_none_iff_exists'.1 h
    exact ⟨cs, encode_of_decode hcs⟩
  · rintro ⟨cs, rfl⟩
    rw [decode_encode]
    exact Option.some_ne_none cs

/-- A byte below 128 stands for its own character alone. -/
theorem toNat_of_mem_encode {b : UInt8} (hb : b.toNat < 128) {cs : List Char}
    (h : b ∈ encode cs) : ∃ c ∈ cs, c.toNat = b.toNat := by
  obtain ⟨c, hc, hm⟩ := List.mem_flatMap.1 h
  refine ⟨c, hc, ?_⟩
  have high (n : Nat) (hn : 128 ≤ n % 256) : b ≠ UInt8.ofNat n := by
    rintro rfl
    rw [UInt8.toNat_ofNat'] at hb
    omega
  unfold String.utf8EncodeChar at hm
  dsimp only at hm
  split at hm
  · rename_i hv
    rw [List.mem_singleton.1 hm, UInt8.toNat_ofNat']
    change c.val.toNat = _
    omega
  · split at hm
    · simp only [List.mem_cons, List.not_mem_nil, or_false] at hm
      rcases hm with hm | hm <;> exact absurd hm (high _ (by omega))
    · split at hm
      · simp only [List.mem_cons, List.not_mem_nil, or_false] at hm
        rcases hm with hm | hm | hm <;> exact absurd hm (high _ (by omega))
      · simp only [List.mem_cons, List.not_mem_nil, or_false] at hm
        rcases hm with hm | hm | hm | hm <;> exact absurd hm (high _ (by omega))

theorem lineFeed_mem_encode_iff {cs : List Char} : lineFeed ∈ encode cs ↔ '\n' ∈ cs := by
  constructor
  · intro h
    obtain ⟨c, hc, he⟩ := toNat_of_mem_encode (by decide) h
    have hnewline : c = '\n' := Char.toNat_inj.1 he
    exact hnewline ▸ hc
  · intro h
    exact List.mem_flatMap.2 ⟨'\n', h, by decide⟩

/-- A line feed stands between characters, so what is in front of it is a text by itself, and so is
what is behind it. -/
theorem decode_append_lineFeed {p : Bytes} (hp : lineFeed ∉ p) (rest : Bytes) :
    decode (p ++ lineFeed :: rest) =
      (decode p).bind fun l => (decode rest).map fun r => l ++ '\n' :: r := by
  have hjoin (l r : List Char) : encode (l ++ '\n' :: r) = encode l ++ lineFeed :: encode r :=
    encode_append l ('\n' :: r)
  cases hd : decode (p ++ lineFeed :: rest) with
  | some cs =>
    have hback := encode_of_decode hd
    have hfeed : lineFeed ∈ encode cs := by simp [hback]
    obtain ⟨l, r, rfl, hl⟩ := List.eq_append_cons_of_mem (lineFeed_mem_encode_iff.1 hfeed)
    rw [hjoin] at hback
    have hcut := congrArg (cut lineFeed) hback
    rw [cut_append_sep lineFeed _ _ (mt lineFeed_mem_encode_iff.1 hl), cut_append_sep lineFeed p _ hp] at hcut
    obtain rfl : encode l = p := (List.cons.inj hcut).1
    obtain rfl : encode r = rest := (List.cons.inj (List.append_cancel_left hback)).2
    rw [decode_encode, decode_encode]
    rfl
  | none =>
    cases hl : decode p with
    | none => rfl
    | some l =>
      cases hr : decode rest with
      | none => rfl
      | some r =>
        rw [← encode_of_decode hl, ← encode_of_decode hr, ← hjoin, decode_encode] at hd
        cases hd

section Lines

variable {α : Type} [DecidableEq α] {mark feed : α}

theorem closeLines_ended {ps : List (List α)} (h : ∀ p ∈ ps, p.getLast? ≠ some mark) :
    closeLines mark (ps ++ [[]]) = ps := by
  induction ps with
  | nil => rfl
  | cons p ps ih =>
    obtain ⟨q, qs, hq⟩ := List.exists_cons_of_ne_nil (l := ps ++ [[]]) (by simp)
    have hrest := ih fun p hp => h p (List.mem_cons_of_mem _ hp)
    rw [List.cons_append, hq, closeLines, ← hq, hrest, dropEnd,
      if_neg (h p List.mem_cons_self)]

/-- Lines that are ended one by one. -/
theorem lines_ended {ps : List (List α)} (hf : ∀ p ∈ ps, feed ∉ p)
    (hm : ∀ p ∈ ps, p.getLast? ≠ some mark) :
    lines mark feed (ps.flatMap fun p => p ++ [feed]) = ps := by
  have hcut : cut feed (ps.flatMap fun p => p ++ [feed]) = ps ++ [[]] := by
    clear hm
    induction ps with
    | nil => rfl
    | cons p ps ih =>
      rw [List.flatMap_cons, List.append_assoc, List.singleton_append,
        cut_append_sep feed p _ (hf p List.mem_cons_self),
        ih fun q hq => hf q (List.mem_cons_of_mem _ hq), List.cons_append]
  rw [lines, hcut, closeLines_ended hm]

/-- Each line is ended by a `feed`, and a `mark` right before that is dropped. What stands behind the
last `feed` is a line if it holds anything. -/
inductive Lined (mark feed : α) : List α → List (List α) → Prop
  | none : Lined mark feed [] []
  | last {p : List α} : feed ∉ p → p ≠ [] → Lined mark feed p [p]
  | ended {p rest : List α} {ls : List (List α)} : feed ∉ p → Lined mark feed rest ls →
      Lined mark feed (p ++ feed :: rest) (dropEnd mark p :: ls)

theorem lines_append_feed {p : List α} (h : feed ∉ p) (rest : List α) :
    lines mark feed (p ++ feed :: rest) = dropEnd mark p :: lines mark feed rest := by
  obtain ⟨q, qs, hq⟩ := List.exists_cons_of_ne_nil (cut_ne_nil feed rest)
  rw [lines, lines, cut_append_sep feed p rest h, hq, closeLines]

theorem lines_of_not_mem {p : List α} (h : feed ∉ p) (hne : p ≠ []) : lines mark feed p = [p] := by
  rw [lines, cut_of_not_mem feed p h, closeLines, if_neg hne]

theorem lined_iff {xs : List α} {ls : List (List α)} :
    Lined mark feed xs ls ↔ ls = lines mark feed xs := by
  constructor
  · intro h
    induction h with
    | none => rfl
    | last hp hne => exact (lines_of_not_mem hp hne).symm
    | ended hp _ ih => rw [lines_append_feed hp, ih]
  · rintro rfl
    -- on the length: what is left behind a `feed` is shorter
    induction hn : xs.length using Nat.strongRecOn generalizing xs with
    | ind n ih =>
      by_cases hm : feed ∈ xs
      · obtain ⟨p, rest, rfl, hp⟩ := List.eq_append_cons_of_mem hm
        rw [lines_append_feed hp]
        exact .ended hp (ih rest.length (by simp at hn; omega) rfl)
      · by_cases hne : xs = []
        · rw [hne]
          exact .none
        · rw [lines_of_not_mem hm hne]
          exact .last hm hne

/-- What comes behind a text whose last line is ended makes lines of its own. -/
theorem lines_append {xs : List α} (h : xs = [] ∨ xs.getLast? = some feed) (ys : List α) :
    lines mark feed (xs ++ ys) = lines mark feed xs ++ lines mark feed ys := by
  induction hn : xs.length using Nat.strongRecOn generalizing xs with
  | ind n ih =>
    rcases h with rfl | hlast
    · rfl
    · obtain ⟨p, rest, rfl, hp⟩ := List.eq_append_cons_of_mem (List.mem_of_getLast? hlast)
      have hend : rest = [] ∨ rest.getLast? = some feed := by
        cases rest with
        | nil => exact Or.inl rfl
        | cons x rest => simpa using hlast
      have hrest := ih rest.length (by simp at hn; omega) hend rfl
      rw [List.append_assoc, List.cons_append, lines_append_feed hp, lines_append_feed hp, hrest,
        List.cons_append]

/-- The mark at the end of a line is a character of its own. -/
theorem decode_of_dropEnd {bytes : Bytes} (h : decode (dropEnd carriageReturn bytes) ≠ none) :
    decode bytes ≠ none := by
  unfold dropEnd at h
  split at h
  · rename_i hmark
    obtain ⟨front, rfl⟩ := List.getLast?_eq_some_iff.1 hmark
    rw [List.dropLast_concat] at h
    obtain ⟨cs, hcs⟩ := decode_ne_none_iff.1 h
    refine decode_ne_none_iff.2 ⟨cs ++ ['\r'], ?_⟩
    rw [encode_append, hcs]
    rfl
  · exact h

/-- Bytes whose lines are all texts are a text. -/
theorem decode_of_lined {bytes : Bytes} {ls : List Bytes}
    (h : Lined carriageReturn lineFeed bytes ls) (htext : ∀ l ∈ ls, decode l ≠ none) :
    decode bytes ≠ none := by
  induction h with
  | none => exact decode_ne_none_iff.2 ⟨[], rfl⟩
  | last => exact htext _ List.mem_cons_self
  | ended hp _ ih =>
    rw [List.forall_mem_cons] at htext
    obtain ⟨front, hfront⟩ := Option.ne_none_iff_exists'.1 (decode_of_dropEnd htext.1)
    obtain ⟨back, hback⟩ := Option.ne_none_iff_exists'.1 (ih htext.2)
    rw [decode_append_lineFeed hp, hfront, hback]
    exact nofun

end Lines

end NumericSteps.Text
