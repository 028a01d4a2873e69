import Mathlib.Data.List.DropRight
import NumericSteps.Event.Sink

namespace NumericSteps.Bus

/-- What can be done with a bus. -/
inductive Op (σ : Type)
  | addSink (s : σ)
  | emit (e : Event)
  | setEnabled (on : Bool)
  | flush
  | finish

variable {σ : Type} {on : Bool} {ops before after : List (Op σ)} {op : Op σ}

@[simp] theorem emit_enabled (b : Bus σ) (e : Event) : (b.emit e).enabled = b.enabled := by
  unfold emit
  split <;> rfl

@[simp] theorem emit_sinks (b : Bus σ) (e : Event) : (b.emit e).sinks = b.sinks := by
  unfold emit
  split <;> rfl

@[simp] theorem emitAll_sinks (b : Bus σ) (es : List Event) : (b.emitAll es).sinks = b.sinks := by
  cases h : b.enabled with
  | true => rw [emitAll_of_enabled b es h]
  | false => rw [emitAll_of_disabled b es h]

/-- A bus on which nothing has been done, enabled or not. -/
def start (on : Bool) : Bus σ := if on then {} else disabled

section Running

variable {m : Type → Type} [Monad m] (handle : Event → σ → m σ) (finalize : σ → m σ)

def perform (b : Bus σ) : Op σ → m (Bus σ)
  | .addSink s => return b.addSink s
  | .emit e => return b.emit e
  | .setEnabled on => return b.setEnabled on
  | .flush => b.flush handle
  | .finish => b.finish handle finalize

def performAll (b : Bus σ) : List (Op σ) → m (Bus σ)
  | [] => return b
  | op :: ops => do performAll (← perform handle finalize b op) ops

end Running

/-- The bus with other sinks. -/
def withSinks {ρ : Type} (b : Bus ρ) (ss : List σ) : Bus σ :=
  { enabled := b.enabled, pending := b.pending, sinks := ss }

theorem withSinks_emit {ρ : Type} (b : Bus ρ) (e : Event) (ss : List σ) :
    (b.emit e).withSinks ss = (b.withSinks ss).emit e := by
  cases h : b.enabled <;> simp [emit, withSinks, h]

section Recording

/-- A sink with the events that it has handled. -/
abbrev Recorded (σ : Type) := σ × List Event

def Op.recorded : Op σ → Op (Recorded σ)
  | .addSink s => .addSink (s, [])
  | .emit e => .emit e
  | .setEnabled on => .setEnabled on
  | .flush => .flush
  | .finish => .finish

/-- Sinks without what is kept for each of them, and what is kept. -/
def apart {ρ : Type} (ss : List (σ × ρ)) : List σ × List ρ := (ss.map Prod.fst, ss.map Prod.snd)

/-- The bus without the records, and a bus on which each sink is its record. -/
def split (b : Bus (Recorded σ)) : Bus σ × Bus (List Event) :=
  (b.withSinks (apart b.sinks).1, b.withSinks (apart b.sinks).2)

/-- What an operation does to the records. -/
def post (l : Bus (List Event)) : Op σ → Bus (List Event)
  | .addSink _ => l.addSink []
  | .emit e => l.emit e
  | .setEnabled on => l.setEnabled on
  | .flush | .finish => { l with pending := [], sinks := l.sinks.map (· ++ l.pending) }

variable {m : Type → Type} [Monad m]

def recordHandle (handle : Event → σ → m σ) (e : Event) (s : Recorded σ) : m (Recorded σ) :=
  return (← handle e s.1, s.2 ++ [e])

def recordFinalize (finalize : σ → m σ) (s : Recorded σ) : m (Recorded σ) :=
  return (← finalize s.1, s.2)

/-- Running `x` is running `y`, and what `p` takes apart from its result is `r`. -/
def Splits {α β ρ : Type} (p : α → β × ρ) (x : m α) (y : m β) (r : ρ) : Prop :=
  p <$> x = (fun b => (b, r)) <$> y

variable [LawfulMonad m] {handle : Event → σ → m σ} {finalize : σ → m σ}

theorem Splits.pure {α β ρ : Type} {p : α → β × ρ} {a : α} {b : β} {r : ρ} (h : p a = (b, r)) :
    Splits (m := m) p (Pure.pure a) (Pure.pure b) r := by
  simp [Splits, h]

/-- What is split stays split when it goes on, if every way on is split by itself. -/
theorem Splits.bind {α β γ δ ρ θ : Type} {p : α → β × ρ} {q : γ → δ × θ} {x : m α} {y : m β} {r : ρ}
    {f : α → m γ} {g : β → m δ} {t : ρ → θ} (hx : Splits p x y r)
    (hf : ∀ a, Splits q (f a) (g (p a).1) (t (p a).2)) : Splits q (x >>= f) (y >>= g) (t r) := by
  unfold Splits at hx hf ⊢
  have hgo : (fun a => q <$> f a) =
      fun a => (fun c : β × ρ => (fun d => (d, t c.2)) <$> g c.1) (p a) := funext hf
  calc q <$> (x >>= f)
      = (p <$> x) >>= fun c => (fun d => (d, t c.2)) <$> g c.1 := by
        rw [map_bind, hgo, bind_map_left]
    _ = (fun d => (d, t r)) <$> (y >>= g) := by
        rw [hx, bind_map_left, map_bind]

/-- The sinks of a bus are exchanged for those that come out split. -/
theorem Splits.sinks {x : m (List (Recorded σ))} {y : m (List σ)} {rs : List (List Event)}
    (h : Splits apart x y rs) (on : Bool) (es : List Event) :
    Splits split (do return { enabled := on, pending := es, sinks := ← x })
      (do return { enabled := on, pending := es, sinks := ← y })
      { enabled := on, pending := es, sinks := rs } :=
  h.bind (q := split) (f := fun ss => Pure.pure { enabled := on, pending := es, sinks := ss })
    (g := fun ss => Pure.pure { enabled := on, pending := es, sinks := ss })
    (t := fun rs => { enabled := on, pending := es, sinks := rs }) fun _ => Splits.pure rfl

theorem splits_recordHandle (e : Event) (s : Recorded σ) :
    Splits id (recordHandle handle e s) (handle e s.1) (s.2 ++ [e]) := by
  simp [Splits, recordHandle]

theorem splits_recordFinalize (s : Recorded σ) :
    Splits id (recordFinalize finalize s) (finalize s.1) s.2 := by
  simp [Splits, recordFinalize]

theorem splits_mapM {ρ : Type} {f : σ × ρ → m (σ × ρ)} {g : σ → m σ} {t : ρ → ρ}
    (h : ∀ s, Splits id (f s) (g s.1) (t s.2)) (ss : List (σ × ρ)) :
    Splits apart (ss.mapM f) ((apart ss).1.mapM g) ((apart ss).2.map t) := by
  induction ss with
  | nil => exact Splits.pure rfl
  | cons s ss ih =>
    change Splits apart ((s :: ss).mapM f) ((s.1 :: (apart ss).1).mapM g) (t s.2 :: (apart ss).2.map t)
    rw [List.mapM_cons, List.mapM_cons]
    refine (h s).bind (t := fun r => r :: (apart ss).2.map t) fun a => ?_
    exact ih.bind (t := fun rs => a.2 :: rs) fun bs => Splits.pure rfl

/-- What is kept for a sink follows the events that it handles. -/
theorem splits_deliver {ρ : Type} {keep : Event → σ × ρ → m (σ × ρ)} {t : Event → ρ → ρ}
    (h : ∀ e s, Splits id (keep e s) (handle e s.1) (t e s.2)) (es : List Event) (ss : List (σ × ρ)) :
    Splits apart (deliver keep es ss) (deliver handle es (apart ss).1)
      ((apart ss).2.map fun r => es.foldl (fun r e => t e r) r) := by
  induction es generalizing ss with
  | nil => exact Splits.pure (by simp [apart])
  | cons e es ih =>
    have hfirst : Splits apart (ss.mapM (keep e)) ((apart ss).1.mapM (handle e))
        ((apart ss).2.map (t e)) := splits_mapM (h e) ss
    have hall := hfirst.bind (t := fun rs => rs.map fun r => es.foldl (fun r e => t e r) r)
      fun a => ih a
    simpa [deliver, List.map_map, Function.comp_def] using hall

theorem foldl_concat {ρ : Type} (f : Event → ρ) (es : List Event) (rs : List ρ) :
    es.foldl (fun r e => r ++ [f e]) rs = rs ++ es.map f := by
  rw [List.foldl_append_eq_append, ← List.flatMap_def, ← List.map_eq_flatMap]

theorem splits_flush (b : Bus (Recorded σ)) :
    Splits split (b.flush (recordHandle handle)) ((split b).1.flush handle)
      (post (split b).2 (.flush : Op σ)) := by
  have hdeliver : Splits apart (deliver (recordHandle handle) b.pending b.sinks)
      (deliver handle b.pending (apart b.sinks).1) ((apart b.sinks).2.map (· ++ b.pending)) := by
    have hhandle (e : Event) (s : Recorded σ) : Splits id (recordHandle handle e s) (handle e s.1)
        (s.2 ++ [e]) := splits_recordHandle e s
    have hkept := splits_deliver (t := fun e r => r ++ [e]) hhandle b.pending b.sinks
    have hconcat (fs : List Event) : b.pending.foldl (fun r e => r ++ [e]) fs = fs ++ b.pending := by
      simpa using foldl_concat id b.pending fs
    simp only [hconcat] at hkept
    exact hkept
  exact hdeliver.sinks b.enabled []

theorem splits_finish (b : Bus (Recorded σ)) :
    Splits split (b.finish (recordHandle handle) (recordFinalize finalize))
      ((split b).1.finish handle finalize) (post (split b).2 (.finish : Op σ)) := by
  refine (splits_flush b).bind (t := id) fun a => ?_
  have hclose : Splits apart (a.sinks.mapM (recordFinalize finalize))
      ((apart a.sinks).1.mapM finalize) ((apart a.sinks).2.map id) :=
    splits_mapM splits_recordFinalize a.sinks
  rw [List.map_id] at hclose
  exact hclose.sinks a.enabled a.pending

theorem splits_perform (b : Bus (Recorded σ)) (op : Op σ) :
    Splits split (b.perform (recordHandle handle) (recordFinalize finalize) op.recorded)
      ((split b).1.perform handle finalize op) (post (split b).2 op) := by
  cases op with
  | addSink s => exact Splits.pure (by simp [split, withSinks, apart, addSink, post])
  | emit e =>
    refine Splits.pure ?_
    rw [split, withSinks_emit, withSinks_emit, emit_sinks]
    rfl
  | setEnabled on => exact Splits.pure rfl
  | flush => exact splits_flush b
  | finish => exact splits_finish b

theorem splits_performAll (b : Bus (Recorded σ)) (ops : List (Op σ)) :
    Splits split (b.performAll (recordHandle handle) (recordFinalize finalize) (ops.map Op.recorded))
      ((split b).1.performAll handle finalize ops) (ops.foldl post (split b).2) := by
  induction ops generalizing b with
  | nil => exact Splits.pure rfl
  | cons op ops ih => exact (splits_perform b op).bind (t := fun l => ops.foldl post l) fun a => ih a

end Recording

section Delivered

def Op.adds : Op σ → Bool
  | .addSink _ => true
  | _ => false

def Op.flushes : Op σ → Bool
  | .flush | .finish => true
  | _ => false

/-- Whether a bus is enabled after the operations. -/
def enabledAfter (on : Bool) : List (Op σ) → Bool
  | [] => on
  | .setEnabled on' :: ops => enabledAfter on' ops
  | _ :: ops => enabledAfter on ops

/-- The events that are emitted while the bus is enabled. -/
def emitted (on : Bool) : List (Op σ) → List Event
  | [] => []
  | .emit e :: ops => if on then e :: emitted on ops else emitted on ops
  | .setEnabled on' :: ops => emitted on' ops
  | _ :: ops => emitted on ops

/-- Those of them that have been flushed: the ones emitted before the last flush. -/
def flushed (on : Bool) (ops : List (Op σ)) : List Event :=
  emitted on (ops.rdropWhile fun op => !op.flushes)

theorem enabledAfter_append (on : Bool) (xs ys : List (Op σ)) :
    enabledAfter on (xs ++ ys) = enabledAfter (enabledAfter on xs) ys := by
  induction xs generalizing on with
  | nil => rfl
  | cons op xs ih => cases op <;> exact ih _

theorem emitted_append (on : Bool) (xs ys : List (Op σ)) :
    emitted on (xs ++ ys) = emitted on xs ++ emitted (enabledAfter on xs) ys := by
  induction xs generalizing on with
  | nil => rfl
  | cons op xs ih =>
    cases op with
    | emit e => cases on <;> simp [emitted, enabledAfter, ih]
    | _ => exact ih _

theorem flushed_concat (on : Bool) (ops : List (Op σ)) (op : Op σ) :
    flushed on (ops ++ [op]) = if op.flushes then emitted on (ops ++ [op]) else flushed on ops := by
  unfold flushed
  rw [List.rdropWhile_concat]
  cases op.flushes <;> simp

/-- The records on the bus are those of the operations: what waits has been emitted and not flushed, and
a sink has handled what was flushed since it was added. -/
structure Accounts (on : Bool) (ops : List (Op σ)) (l : Bus (List Event)) : Prop where
  enabled : l.enabled = enabledAfter on ops
  pending : flushed on ops ++ l.pending = emitted on ops
  count : l.sinks.length = ops.countP Op.adds
  records : ∀ i s, ops[i]? = some (.addSink s) → ∃ es,
    l.sinks[(ops.take i).countP Op.adds]? = some es ∧ flushed on (ops.take i) ++ es = flushed on ops

variable {l : Bus (List Event)}

theorem accounts_start (on : Bool) : Accounts on ([] : List (Op σ)) { enabled := on } :=
  ⟨rfl, rfl, rfl, by simp⟩

/-- What waits after an operation is what has been emitted and not flushed. -/
theorem Accounts.pending_post (h : Accounts on ops l) (op : Op σ) :
    flushed on (ops ++ [op]) ++ (post l op).pending = emitted on (ops ++ [op]) := by
  have henabled := h.enabled
  have hpending := h.pending
  rw [flushed_concat, emitted_append]
  cases op with
  | emit e =>
    cases he : enabledAfter on ops <;>
      simp [Op.flushes, post, Bus.emit, emitted, henabled, he, ← hpending]
  | _ => simp [Op.flushes, post, addSink, setEnabled, emitted, hpending]

/-- A record gains what waits if the operation flushes. -/
theorem Accounts.record_post (h : Accounts on ops l) (op : Op σ) {i : Nat} {front es : List Event}
    (hi : l.sinks[i]? = some es) (hes : front ++ es = flushed on ops) :
    ∃ es', (post l op).sinks[i]? = some es' ∧ front ++ es' = flushed on (ops ++ [op]) := by
  have hall : front ++ (es ++ l.pending) = emitted on ops := by
    rw [← List.append_assoc, hes, h.pending]
  rw [flushed_concat, emitted_append]
  cases op with
  | addSink s =>
    have hlt : i < l.sinks.length := (List.getElem?_eq_some_iff.1 hi).1
    exact ⟨es, (List.getElem?_append_left hlt).trans hi, hes⟩
  | emit e =>
    exact ⟨es, (congrArg (·[i]?) (emit_sinks l e)).trans hi, hes⟩
  | setEnabled on' => exact ⟨es, hi, hes⟩
  | flush => exact ⟨es ++ l.pending, by simp [post, hi], by simpa [Op.flushes, emitted] using hall⟩
  | finish => exact ⟨es ++ l.pending, by simp [post, hi], by simpa [Op.flushes, emitted] using hall⟩

/-- A sink that has just been added has handled nothing. -/
theorem Accounts.record_addSink (h : Accounts on ops l) (s : σ) :
    (post l (.addSink s : Op σ)).sinks[ops.countP Op.adds]? = some [] ∧
      flushed on (ops ++ [.addSink s]) = flushed on ops := by
  rw [← h.count, flushed_concat]
  exact ⟨by simp [post, addSink], rfl⟩

theorem Accounts.post (h : Accounts on ops l) (op : Op σ) :
    Accounts on (ops ++ [op]) (post l op) where
  enabled := by
    rw [enabledAfter_append, ← h.enabled]
    cases op with
    | emit e => exact emit_enabled l e
    | _ => rfl
  pending := h.pending_post op
  count := by
    rw [List.countP_append, ← h.count]
    cases op <;> simp [Bus.post, addSink, setEnabled, Op.adds]
  records := by
    intro i s hi
    by_cases hlt : i < ops.length
    · rw [List.getElem?_append_left hlt] at hi
      obtain ⟨es, hes, hflushed⟩ := h.records i s hi
      rw [List.take_append_of_le_length hlt.le]
      exact h.record_post op hes hflushed
    · obtain ⟨rfl, rfl⟩ : i = ops.length ∧ op = .addSink s := by
        rw [List.getElem?_append_right (Nat.le_of_not_lt hlt), List.getElem?_singleton] at hi
        split at hi
        · exact ⟨by omega, Option.some.inj hi⟩
        · cases hi
      obtain ⟨hnone, hsame⟩ := h.record_addSink s
      rw [List.take_left, hsame]
      exact ⟨[], hnone, List.append_nil _⟩

theorem accounts_foldl (on : Bool) (ops : List (Op σ)) :
    Accounts on ops (ops.foldl Bus.post { enabled := on }) := by
  -- on the last operation, since what is flushed depends on whether that one flushes
  induction ops using List.reverseRecOn with
  | nil => exact accounts_start on
  | append_singleton ops op ih =>
    rw [List.foldl_append]
    exact ih.post op

/-- What is emitted is flushed when anything later flushes, whatever else is done in between. -/
theorem emitted_prefix_flushed (on : Bool) (before : List (Op σ)) (h : ∃ op ∈ after, op.flushes) :
    emitted on before <+: flushed on (before ++ after) := by
  induction after using List.reverseRecOn with
  | nil => simp at h
  | append_singleton after op ih =>
    rw [← List.append_assoc, flushed_concat]
    by_cases hop : op.flushes
    · rw [if_pos hop, List.append_assoc, emitted_append]
      exact List.prefix_append _ _
    · rw [if_neg hop]
      exact ih (by simpa [hop] using h)

end Delivered

section Runs

variable {m : Type → Type} [Monad m] [LawfulMonad m] {handle : Event → σ → m σ} {finalize : σ → m σ}

theorem start_eq (on : Bool) : (start on : Bus σ) = { enabled := on } := by
  cases on <;> rfl

theorem performAll_append (b : Bus σ) (xs ys : List (Op σ)) :
    b.performAll handle finalize (xs ++ ys) =
      b.performAll handle finalize xs >>= fun b => b.performAll handle finalize ys := by
  induction xs generalizing b with
  | nil => simp [performAll]
  | cons op xs ih => simp [performAll, ih]

/-- The records of a run from the start. -/
theorem splits_start (handle : Event → σ → m σ) (finalize : σ → m σ) (on : Bool) (ops : List (Op σ)) :
    Splits split ((start on).performAll (recordHandle handle) (recordFinalize finalize)
      (ops.map Op.recorded)) ((start on).performAll handle finalize ops)
      (ops.foldl post { enabled := on }) := by
  rw [start_eq, start_eq]
  exact splits_performAll _ ops

/-- Whether the bus is enabled after a run and what waits on it does not depend on how its sinks handle
events. -/
theorem performAll_start (handle : Event → σ → m σ) (finalize : σ → m σ) (on : Bool)
    (ops : List (Op σ)) :
    ∃ l : Bus (List Event), l.enabled = enabledAfter on ops ∧
      (start on).performAll handle finalize ops =
        (fun b => l.withSinks b.sinks) <$> (start on).performAll handle finalize ops := by
  have hrun := splits_start handle finalize on ops
  refine ⟨_, (accounts_foldl on ops).enabled, ?_⟩
  generalize ops.foldl post { enabled := on } = l at hrun ⊢
  -- the records of the same run tell what is on the bus, whatever monad it runs in
  have hplain : Prod.fst <$> split <$> (start on).performAll (recordHandle handle)
      (recordFinalize finalize) (ops.map Op.recorded) = (start on).performAll handle finalize ops := by
    rw [hrun]
    simp
  have hshared : Prod.fst ∘ split =
      (fun c : Bus σ × Bus (List Event) => c.2.withSinks c.1.sinks) ∘ split := rfl
  calc (start on).performAll handle finalize ops
      = (fun c : Bus σ × Bus (List Event) => c.2.withSinks c.1.sinks) <$> split <$>
          (start on).performAll (recordHandle handle) (recordFinalize finalize)
            (ops.map Op.recorded) := by
        rw [← hplain, ← comp_map, hshared, comp_map]
    _ = (fun b => l.withSinks b.sinks) <$> (start on).performAll handle finalize ops := by
        rw [hrun, ← comp_map]
        rfl

/-- A disabled bus goes on as if nothing had been emitted. -/
theorem performAll_emit_of_disabled (before : List (Op σ)) (e : Event) (after : List (Op σ))
    (h : enabledAfter on before = false) :
    (start on).performAll handle finalize (before ++ .emit e :: after) =
      (start on).performAll handle finalize (before ++ after) := by
  obtain ⟨l, henabled, hbefore⟩ := performAll_start handle finalize on before
  rw [performAll_append, performAll_append, hbefore, bind_map_left, bind_map_left]
  simp [performAll, perform, emit, withSinks, henabled, h]

theorem deliver_no_sinks (es : List Event) : deliver handle es ([] : List σ) = pure [] := by
  induction es with
  | nil => rfl
  | cons e es ih => simp [deliver, ih]

/-- Without sinks nothing happens but on the bus, and a flush empties it. -/
theorem perform_of_no_sinks (handle : Event → σ → m σ) (finalize : σ → m σ) (b : Bus σ)
    (hb : b.sinks = []) (hop : op.adds = false) :
    ∃ waiting, b.perform handle finalize op =
        pure { enabled := enabledAfter b.enabled [op], pending := waiting } ∧
      (op.flushes → waiting = []) := by
  obtain ⟨enabled, pending, sinks⟩ := b
  obtain rfl : sinks = [] := hb
  cases op with
  | addSink s => simp [Op.adds] at hop
  | emit e => cases enabled <;> exact ⟨_, rfl, by simp [Op.flushes]⟩
  | setEnabled on => exact ⟨pending, rfl, by simp [Op.flushes]⟩
  | flush => exact ⟨[], by simp [perform, flush, deliver_no_sinks, enabledAfter], fun _ => rfl⟩
  | finish => exact ⟨[], by simp [perform, finish, flush, deliver_no_sinks, enabledAfter], fun _ => rfl⟩

theorem performAll_of_no_sinks (handle : Event → σ → m σ) (finalize : σ → m σ) (b : Bus σ)
    (hb : b.sinks = []) (h : ∀ op ∈ ops, op.adds = false) :
    ∃ waiting, b.performAll handle finalize ops =
      pure { enabled := enabledAfter b.enabled ops, pending := waiting } := by
  induction ops generalizing b with
  | nil => exact ⟨b.pending, by rw [← hb]; rfl⟩
  | cons op ops ih =>
    rw [List.forall_mem_cons] at h
    obtain ⟨waiting, hop, -⟩ := perform_of_no_sinks handle finalize b hb h.1
    obtain ⟨waiting', hops⟩ := ih { enabled := enabledAfter b.enabled [op], pending := waiting } rfl h.2
    refine ⟨waiting', ?_⟩
    rw [performAll, hop, pure_bind, hops, ← enabledAfter_append]
    rfl

/-- What waits on a bus without sinks is gone when it is flushed. -/
theorem performAll_flush_of_no_sinks (on : Bool) (after : List (Op σ))
    (h : ∀ op ∈ before, op.adds = false) (hop : op.flushes) :
    (start on).performAll handle finalize (before ++ op :: after) =
      (start (enabledAfter on before)).performAll handle finalize after := by
  obtain ⟨hadds, hkeeps⟩ : op.adds = false ∧ ∀ on, enabledAfter on [op] = on := by
    cases op <;> first | exact ⟨rfl, fun _ => rfl⟩ | cases hop
  rw [start_eq, start_eq, performAll_append]
  obtain ⟨waiting, hbefore⟩ := performAll_of_no_sinks handle finalize
    ({ enabled := on } : Bus σ) rfl h
  obtain ⟨waiting', hflush, hempty⟩ := perform_of_no_sinks handle finalize
    ({ enabled := enabledAfter on before, pending := waiting } : Bus σ) rfl hadds
  rw [hbefore, pure_bind, performAll, hflush, pure_bind, hkeeps, hempty hop]

/-- Any operations in a row on a new bus do the same whether or not the sinks keep records, and the
records are accounted for. What was emitted before the bus is disabled is still flushed, what is emitted
while it is disabled makes no difference, and what is flushed without sinks is gone. -/
theorem handled_in_order (handle : Event → σ → m σ) (finalize : σ → m σ) (on : Bool)
    (ops : List (Op σ)) :
    ∃ l : Bus (List Event),
      split <$> (start on).performAll (recordHandle handle) (recordFinalize finalize)
          (ops.map Op.recorded) =
        (fun b => (b, l)) <$> (start on).performAll handle finalize ops ∧
      Accounts on ops l ∧
      (∀ before after, ops = before ++ .setEnabled false :: after → (∃ op ∈ after, op.flushes) →
        emitted on before <+: flushed on ops) ∧
      (∀ before e after, ops = before ++ .emit e :: after → enabledAfter on before = false →
        (start on).performAll handle finalize ops =
          (start on).performAll handle finalize (before ++ after)) ∧
      ∀ before op after, ops = before ++ op :: after → op.flushes → (∀ o ∈ before, o.adds = false) →
        (start on).performAll handle finalize ops =
          (start (enabledAfter on before)).performAll handle finalize after := by
  refine ⟨_, splits_start handle finalize on ops, accounts_foldl on ops, ?_, ?_, ?_⟩
  · rintro before after rfl ⟨op, hop, hflushes⟩
    exact emitted_prefix_flushed on before ⟨op, List.mem_cons_of_mem _ hop, hflushes⟩
  · rintro before e after rfl hdisabled
    exact performAll_emit_of_disabled before e after hdisabled
  · rintro before op after rfl hflushes hbare
    exact performAll_flush_of_no_sinks on after hbare hflushes

def reported (n : Nat) : Event := ⟨.generate, .matrixWritten "-" n n⟩

/-- A collector comes late, and the bus is disabled before it is finished. -/
def lateCollector : List (Op Sink) :=
  [.emit (reported 1), .flush, .emit (reported 2), .addSink (.collector "late"), .setEnabled false,
    .emit (reported 3), .finish]

theorem handled_in_order_late_collector :
    ∃ l : Bus (List Event),
      split <$> (start true).performAll (recordHandle Sink.handle) (recordFinalize Sink.finalize)
          (lateCollector.map Op.recorded) =
        (fun b => (b, l)) <$> (start true).performAll Sink.handle Sink.finalize lateCollector ∧
      l.sinks = [[reported 2]] ∧ l.pending = [] ∧
      [reported 1, reported 2] <+: flushed true lateCollector ∧
      (start true).performAll Sink.handle Sink.finalize lateCollector =
        (start true).performAll Sink.handle Sink.finalize
          [.emit (reported 1), .flush, .emit (reported 2), .addSink (.collector "late"),
            .setEnabled false, .finish] ∧
      (start true).performAll Sink.handle Sink.finalize lateCollector =
        (start true).performAll Sink.handle Sink.finalize
          [.emit (reported 2), .addSink (.collector "late"), .setEnabled false, .emit (reported 3),
            .finish] := by
  obtain ⟨l, hrun, hacc, hkept, hdropped, hdiscarded⟩ :=
    handled_in_order Sink.handle Sink.finalize true lateCollector
  have hsinks : l.sinks = [[reported 2]] := by
    obtain ⟨es, hes⟩ := List.length_eq_one_iff.1 hacc.count
    obtain ⟨es', hes', hflushed⟩ := hacc.records 3 _ rfl
    rw [hes] at hes'
    obtain rfl : es = es' := Option.some.inj hes'
    have hlist : [reported 1] ++ es = [reported 1] ++ [reported 2] := hflushed
    rw [hes, List.append_cancel_left hlist]
  have hpending : [reported 1, reported 2] ++ l.pending = [reported 1, reported 2] ++ [] := hacc.pending
  exact ⟨l, hrun, hsinks, List.append_cancel_left hpending,
    hkept [.emit (reported 1), .flush, .emit (reported 2), .addSink (.collector "late")] _ rfl
      ⟨.finish, by simp, rfl⟩,
    hdropped [.emit (reported 1), .flush, .emit (reported 2), .addSink (.collector "late"),
      .setEnabled false] (reported 3) [.finish] rfl rfl,
    hdiscarded [.emit (reported 1)] .flush _ rfl rfl (by simp [Op.adds])⟩

end Runs

end NumericSteps.Bus
