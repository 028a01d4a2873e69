import NumericSteps.Event.Json
import NumericSteps.Proofs.Json.ReadBack
import NumericSteps.Proofs.Text.Lines

namespace NumericSteps

open Json

namespace Occurrence

def title : Occurrence → String
  | .matrixRead .. => "MatrixRead"
  | .matrixWritten .. => "MatrixWritten"
  | .decomposed .. => "Decomposed"
  | .compared .. => "Compared"
  | .descent .. => "Descent"

/-- The names of the fields. -/
def names : Occurrence → List String
  | .matrixRead .. => ["source", "rows", "cols"]
  | .matrixWritten .. => ["target", "rows", "cols"]
  | .decomposed .. => ["rank_bound", "largest", "smallest"]
  | .compared .. => ["norm", "tolerance", "passed"]
  | .descent .. => ["old", "grad", "new", "converged"]

def ofText (s : String) : Json := .text (some s.toList)

def ofNat (n : Nat) : Json := .number (writeNat n)

def ofNext (new : Option Float) : Json := (new.map ofFloat).getD .null

/-- What the texts of the fields are read as. -/
def values : Occurrence → List Json
  | .matrixRead source rows cols => [ofText source, ofNat rows, ofNat cols]
  | .matrixWritten target rows cols => [ofText target, ofNat rows, ofNat cols]
  | .decomposed rankBound largest smallest => [ofNat rankBound, ofFloat largest, ofFloat smallest]
  | .compared norm tolerance passed => [ofFloat norm, ofFloat tolerance, .bool passed]
  | .descent old grad new converged => [ofFloat old, ofFloat grad, ofNext new, .bool converged]

def sizes : Occurrence → List Nat
  | .matrixRead _ rows cols => [rows, cols]
  | .matrixWritten _ rows cols => [rows, cols]
  | .decomposed rankBound _ _ => [rankBound]
  | .compared .. => []
  | .descent .. => []

def floats : Occurrence → List Float
  | .matrixRead .. => []
  | .matrixWritten .. => []
  | .decomposed _ largest smallest => [largest, smallest]
  | .compared norm tolerance _ => [norm, tolerance]
  | .descent old grad new _ => old :: grad :: new.toList

/-- The sizes are those of a machine of 64 bits. -/
def InRange (w : Occurrence) : Prop := ∀ n ∈ w.sizes, n < wordLimit

instance (w : Occurrence) : Decidable w.InRange := inferInstanceAs (Decidable (∀ n ∈ w.sizes, _))

/-- Every double in it reads back. -/
def Exact (w : Occurrence) : Prop := ∀ x ∈ w.floats, Json.Exact x

instance (w : Occurrence) : Decidable w.Exact := inferInstanceAs (Decidable (∀ x ∈ w.floats, _))

def rereadNext : Option Float → Option (Option Float)
  | none => some none
  | some x => if x.isFinite then (Json.reread x).map some else some none

/-- What is read where it was written: with doubles that may be others, and no next approximation if
that is not finite. -/
def reread : Occurrence → Option Occurrence
  | .decomposed rankBound largest smallest => do
    return .decomposed rankBound (← Json.reread largest) (← Json.reread smallest)
  | .compared norm tolerance passed => do
    return .compared (← Json.reread norm) (← Json.reread tolerance) passed
  | .descent old grad new converged => do
    return .descent (← Json.reread old) (← Json.reread grad) (← rereadNext new) converged
  | w => some w

variable {w : Occurrence}

theorem denotes_next (new : Option Float) :
    Denotes ((new.map writeNumber).getD ['n', 'u', 'l', 'l']) (ofNext new) := by
  cases new with
  | none => exact denotes_null
  | some x => exact denotes_number x

theorem toOption_ofNext (new : Option Float) : toOption toFloat (ofNext new) = rereadNext new := by
  cases new with
  | none => rfl
  | some x => exact toOption_ofFloat x

theorem denotes_fields (w : Occurrence) :
    Denotes (writeObject w.fields.2) (.object (keyed w.names w.values)) := by
  have hfields : List.Forall₂ (fun m j => Denotes m.2 j) w.fields.2 w.values := by
    cases w <;> simp only [fields, values, List.forall₂_cons, List.Forall₂.nil, and_true]
    case matrixRead source rows cols => exact ⟨denotes_text source, denotes_nat rows, denotes_nat cols⟩
    case matrixWritten target rows cols =>
      exact ⟨denotes_text target, denotes_nat rows, denotes_nat cols⟩
    case decomposed rankBound largest smallest =>
      exact ⟨denotes_nat rankBound, denotes_number largest, denotes_number smallest⟩
    case compared norm tolerance passed =>
      exact ⟨denotes_number norm, denotes_number tolerance, denotes_bool passed⟩
    case descent old grad new converged =>
      exact ⟨denotes_number old, denotes_number grad, denotes_next new, denotes_bool converged⟩
  have hnames : w.fields.2.map Prod.fst = w.names := by cases w <;> rfl
  rw [← hnames]
  exact denotes_object hfields

theorem record_values (w : Occurrence) :
    record w.names (.object (keyed w.names w.values)) = some (w.values.map some) :=
  record_object (by cases w <;> simp [names]) (by cases w <;> rfl)

/-- How occurrences of this kind are read. -/
def reader : Occurrence → Json → Option Occurrence
  | .matrixRead .. => matrixReadOf
  | .matrixWritten .. => matrixWrittenOf
  | .decomposed .. => decomposedOf
  | .compared .. => comparedOf
  | .descent .. => descentOf

theorem ofJson_title (w : Occurrence) (content : Json) :
    ofJson (.object (keyed [w.title] [content])) = w.reader content := by
  have hchoice : choice (.object (keyed [w.title] [content])) = some (w.title.toList, some content) :=
    rfl
  rw [ofJson, hchoice]
  cases w <;> dsimp only [title, reader]
  case matrixRead => rw [if_pos rfl]
  case matrixWritten => rw [if_neg (by decide), if_pos rfl]
  case decomposed => rw [if_neg (by decide), if_neg (by decide), if_pos rfl]
  case compared => rw [if_neg (by decide), if_neg (by decide), if_neg (by decide), if_pos rfl]
  case descent =>
    rw [if_neg (by decide), if_neg (by decide), if_neg (by decide), if_neg (by decide), if_pos rfl]

theorem reader_values (h : w.InRange) :
    w.reader (.object (keyed w.names w.values)) = w.reread := by
  have hrecord := record_values w
  cases w with
  | matrixRead source rows cols =>
    obtain ⟨hr, hc⟩ : rows < wordLimit ∧ cols < wordLimit := by simpa [InRange, sizes] using h
    simp only [names] at hrecord ⊢
    simp only [reader, matrixReadOf, hrecord]
    simp [values, ofText, ofNat, toText_writeText, toNat_writeNat, hr, hc, reread]
  | matrixWritten target rows cols =>
    obtain ⟨hr, hc⟩ : rows < wordLimit ∧ cols < wordLimit := by simpa [InRange, sizes] using h
    simp only [names] at hrecord ⊢
    simp only [reader, matrixWrittenOf, hrecord]
    simp [values, ofText, ofNat, toText_writeText, toNat_writeNat, hr, hc, reread]
  | decomposed rankBound largest smallest =>
    have hk : rankBound < wordLimit := by simpa [InRange, sizes] using h
    simp only [names] at hrecord ⊢
    simp only [reader, decomposedOf, hrecord]
    simp [values, ofNat, toNat_writeNat, hk, toFloat_ofFloat, reread]
  | compared norm tolerance passed =>
    simp only [names] at hrecord ⊢
    simp only [reader, comparedOf, hrecord]
    simp [values, toFloat_ofFloat, Json.toBool, reread]
  | descent old grad new converged =>
    simp only [names] at hrecord ⊢
    simp only [reader, descentOf, hrecord]
    simp [values, toFloat_ofFloat, toOption_ofNext, Json.toBool, reread]

theorem denotes_json (w : Occurrence) :
    Denotes w.json (.object (keyed [w.title] [.object (keyed w.names w.values)])) := by
  have htitle : w.fields.1 = w.title := by cases w <;> rfl
  rw [json, htitle]
  exact denotes_object (.cons w.denotes_fields .nil)

theorem rereadNext_eq_iff (new : Option Float) :
    rereadNext new = some new ↔ ∀ x ∈ new.toList, Json.Exact x := by
  cases new with
  | none => simp [rereadNext]
  | some x =>
    cases hx : x.isFinite with
    | true => simp [rereadNext, hx, Json.Exact]
    | false =>
      have hnot : ¬ Json.Exact x := fun h => by simp [h.isFinite] at hx
      simp [rereadNext, hx, hnot]

theorem reread_eq_iff (w : Occurrence) : w.reread = some w ↔ w.Exact := by
  cases w with
  | matrixRead source rows cols => simp [reread, Exact, floats]
  | matrixWritten target rows cols => simp [reread, Exact, floats]
  | decomposed rankBound largest smallest =>
    simp [reread, Exact, floats, Json.Exact, Option.bind_eq_some_iff]
  | compared norm tolerance passed =>
    simp [reread, Exact, floats, Json.Exact, Option.bind_eq_some_iff]
  | descent old grad new converged =>
    simp only [Exact, floats, List.forall_mem_cons, ← rereadNext_eq_iff]
    simp [reread, Json.Exact, Option.bind_eq_some_iff]

end Occurrence

namespace Event

variable {e : Event}

theorem denotes_json (e : Event) :
    Denotes e.json (.object (keyed ["step", "kind"] [Occurrence.ofText e.step.key,
      .object (keyed [e.what.title] [.object (keyed e.what.names e.what.values)])])) :=
  denotes_object (.cons (denotes_text e.step.key) (.cons e.what.denotes_json .nil))

theorem read_json (h : e.what.InRange) : read e.json = e.what.reread.map (Event.mk e.step) := by
  have hstep : word (Occurrence.ofText e.step.key) = some e.step.key := by
    simp [word, choice, Occurrence.ofText]
  have hwhat : Occurrence.ofJson (.object (keyed [e.what.title]
      [.object (keyed e.what.names e.what.values)])) = e.what.reread := by
    rw [Occurrence.ofJson_title, Occurrence.reader_values h]
  rw [read, e.denotes_json.read_eq, Option.bind_some, ofJson, record_object (by simp) rfl]
  simp [hstep, StepName.ofKey?_key, hwhat, Option.map_eq_bind]

theorem read_json_iff (h : e.what.InRange) : read e.json = some e ↔ e.what.Exact := by
  rw [read_json h, ← Occurrence.reread_eq_iff, Option.map_eq_some_iff]
  constructor
  · rintro ⟨w, hw, he⟩
    rw [hw, ← he]
  · exact fun hw => ⟨e.what, hw, rfl⟩

/-- The JSON of an event stands on one line. -/
theorem printed_encode (e : Event) : ∀ b ∈ Text.encode e.json, 0x20 ≤ b.toNat := by
  intro b hb
  by_contra hlow
  obtain ⟨c, hc, he⟩ := Text.toNat_of_mem_encode (by omega) hb
  have := e.denotes_json.printed c hc
  omega

end Event

end NumericSteps
