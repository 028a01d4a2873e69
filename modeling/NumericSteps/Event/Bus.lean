import NumericSteps.Event.Basic

namespace NumericSteps

/-- A bus over sinks of any kind. -/
structure Bus (σ : Type) where
  enabled : Bool := true
  /-- The events that have not been flushed, the oldest first. -/
  pending : List Event := []
  sinks : List σ := []

namespace Bus

variable {σ : Type}

/-- A bus that drops every event. -/
def disabled : Bus σ := { enabled := false }

def addSink (b : Bus σ) (s : σ) : Bus σ := { b with sinks := b.sinks ++ [s] }

def setEnabled (b : Bus σ) (on : Bool) : Bus σ := { b with enabled := on }

/-- A disabled bus drops what is emitted; what waits already is kept. -/
def emit (b : Bus σ) (e : Event) : Bus σ :=
  if b.enabled then { b with pending := b.pending ++ [e] } else b

def emitAll (b : Bus σ) (es : List Event) : Bus σ := es.foldl emit b

theorem emitAll_of_enabled (b : Bus σ) (es : List Event) (h : b.enabled = true) :
    b.emitAll es = { b with pending := b.pending ++ es } := by
  induction es generalizing b with
  | nil => simp [emitAll]
  | cons e es ih =>
    have hb : (b.emit e).enabled = true := by simp [emit, h]
    show (b.emit e).emitAll es = _
    rw [ih _ hb]
    simp [emit, h]

theorem emitAll_of_disabled (b : Bus σ) (es : List Event) (h : b.enabled = false) :
    b.emitAll es = b := by
  induction es with
  | nil => rfl
  | cons e es ih =>
    show (b.emit e).emitAll es = _
    rw [emit, h]
    exact ih

variable {m : Type → Type} [Monad m]

/-- Each event goes to all the sinks before the next one does. -/
def deliver (handle : Event → σ → m σ) : List Event → List σ → m (List σ)
  | [], ss => return ss
  | e :: es, ss => do deliver handle es (← ss.mapM (handle e))

def flush (handle : Event → σ → m σ) (b : Bus σ) : m (Bus σ) := do
  return { b with pending := [], sinks := ← deliver handle b.pending b.sinks }

/-- Flushes, then closes off every sink. -/
def finish (handle : Event → σ → m σ) (finalize : σ → m σ) (b : Bus σ) : m (Bus σ) := do
  let b ← flush handle b
  return { b with sinks := ← b.sinks.mapM finalize }

end Bus

end NumericSteps
