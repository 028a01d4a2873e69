import NumericSteps.Disk.Fault
import NumericSteps.Matrix.Text
import NumericSteps.Step.Outcome

namespace NumericSteps

/-- What an output does with a text, and what it does when all has been written. -/
structure Output (σ : Type) where
  write : List Char → σ → Except OsFault Unit × σ
  flush : σ → Except OsFault Unit × σ

namespace Output

variable {σ : Type}

/-- Writes lines up to the first that is refused. -/
def put (o : Output σ) : List (List Char) → σ → Except OsFault Unit × σ
  | [], s => o.flush s
  | line :: lines, s =>
    match o.write line s with
    | (.error f, s) => (.error f, s)
    | (.ok (), s) => put o lines s

/-- An output that keeps all it is given. -/
def memory : Output (List Char) where
  write cs s := (.ok (), s ++ cs)
  flush s := (.ok (), s)

theorem put_memory (lines : List (List Char)) (s : List Char) :
    memory.put lines s = (.ok (), s ++ lines.flatten) := by
  induction lines generalizing s with
  | nil => simp [put, memory]
  | cons line lines ih =>
    rw [put]
    change memory.put lines (s ++ line) = _
    rw [ih, List.flatten_cons, List.append_assoc]

/-- The end of a step whose result goes to an output, and is reported once it is there. -/
def conclude (o : Output σ) (s : σ) (m : Matrix Float) (events : List Event) (written : Event) :
    Outcome (Matrix Float) × σ :=
  match o.put m.rowLines s with
  | (.error f, s) => (.failed (.stream f) events, s)
  | (.ok (), s) => (.passed m (events ++ [written]), s)

section Ends

variable {o : Output σ} {s : σ} {m : Matrix Float} {events : List Event} {written : Event}

theorem conclude_ok {a : Matrix Float} (h : (o.conclude s m events written).1.result = .ok a) :
    a = m ∧ (o.conclude s m events written).1.events = events ++ [written] := by
  unfold conclude at h ⊢
  split at h
  · cases h
  · cases h
    exact ⟨rfl, rfl⟩

theorem conclude_error {g : Failure} (h : (o.conclude s m events written).1.result = .error g) :
    (o.conclude s m events written).1.events = events := by
  unfold conclude at h ⊢
  split at h
  · rfl
  · cases h

end Ends

/-- A step together with the text that it wrote. -/
def gather (x : Outcome (Matrix Float) × List Char) : Outcome (Matrix Float) :=
  { x.1 with output := x.2 }

theorem gather_conclude (m : Matrix Float) (events : List Event) (written : Event) :
    gather (memory.conclude [] m events written) = ⟨.ok m, events ++ [written], m.chars⟩ := by
  rw [conclude, put_memory]
  rfl

end Output

end NumericSteps
