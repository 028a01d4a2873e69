import NumericSteps.Proofs.Disk.History
import NumericSteps.Proofs.Event.Delivery

namespace NumericSteps

namespace Bus

/-- What a bus can ask of a sink. -/
inductive Request
  | handle (e : Event)
  | finalize
deriving DecidableEq

/-- What a bus that is finished has to ask of each sink: every event that waits, in its turn, and then the
end. -/
def requests (es : List Event) : List Request := es.map .handle ++ [.finalize]

/-- A sink with all that has been asked of it. -/
abbrev Asked (σ : Type) := σ × List Request

section Asking

variable {σ : Type} {m : Type → Type} [Monad m]

def askHandle (handle : Event → σ → m σ) (e : Event) (s : Asked σ) : m (Asked σ) :=
  return (← handle e s.1, s.2 ++ [.handle e])

def askFinalize (finalize : σ → m σ) (s : Asked σ) : m (Asked σ) :=
  return (← finalize s.1, s.2 ++ [.finalize])

/-- A bus of which nothing has been asked. -/
def unasked (b : Bus σ) : Bus (Asked σ) := b.withSinks (b.sinks.map fun s => (s, []))

variable [LawfulMonad m] {handle : Event → σ → m σ} {finalize : σ → m σ}

theorem splits_askHandle (e : Event) (s : Asked σ) :
    Splits id (askHandle handle e s) (handle e s.1) (s.2 ++ [.handle e]) := by
  simp [Splits, askHandle]

theorem splits_askFinalize (s : Asked σ) :
    Splits id (askFinalize finalize s) (finalize s.1) (s.2 ++ [.finalize]) := by
  simp [Splits, askFinalize]

theorem finish_eq (b : Bus σ) :
    b.finish handle finalize = deliver handle b.pending b.sinks >>= fun ss => ss.mapM finalize >>=
      fun ss => pure { enabled := b.enabled, pending := [], sinks := ss } := by
  simp [finish, flush]

/-- The same is done whether or not it is kept what is asked of the sinks. -/
theorem splits_finish_unasked (b : Bus σ) :
    Splits (fun b => apart b.sinks) (b.unasked.finish (askHandle handle) (askFinalize finalize))
      (do return (← b.finish handle finalize).sinks) (b.sinks.map fun _ => requests b.pending) := by
  have hhandle (e : Event) (s : Asked σ) :
      Splits id (askHandle handle e s) (handle e s.1) (s.2 ++ [.handle e]) := splits_askHandle e s
  have hdeliver := splits_deliver (t := fun e r => r ++ [.handle e]) hhandle b.pending b.unasked.sinks
  have hstart : apart b.unasked.sinks = (b.sinks, b.sinks.map fun _ => []) := by
    simp [apart, unasked, withSinks, Function.comp_def]
  have hrequests : (b.sinks.map fun _ => requests b.pending) =
      ((b.sinks.map fun _ => []).map fun r => b.pending.foldl (fun r e => r ++ [.handle e]) r).map
        fun r => r ++ [.finalize] := by
    simp only [List.map_map, Function.comp_def, foldl_concat, List.nil_append]
    rfl
  rw [hstart] at hdeliver
  rw [finish_eq, finish_eq, hrequests, bind_assoc]
  refine hdeliver.bind (t := fun rs => rs.map fun r => r ++ [.finalize]) fun ss => ?_
  rw [bind_assoc]
  refine (splits_mapM splits_askFinalize ss).bind (t := id) fun ss => ?_
  rw [pure_bind]
  exact Splits.pure rfl

end Asking

end Bus

namespace Journaling

open Script

variable {α β ρ : Type} {mayFail : Disk → Change → Prop} {d e : Disk} {course : Course}
  {j j' : Journal}

/-- A run of which something is told has gone on as the one that it is told of. -/
theorem ends_of_splits {p : α → β × ρ} {x : Journaling α} {y : Journaling β} {r : ρ} {b : β}
    (h : Bus.Splits p x y r) (hy : Ends mayFail (y.run j) d course (b, j') e) :
    ∃ a, p a = (b, r) ∧ Ends mayFail (x.run j) d course (a, j') e := by
  have hruns : (p <$> x).run j = ((fun b => (b, r)) <$> y).run j := congrArg (StateT.run · j) h
  rw [StateT.run_map, StateT.run_map] at hruns
  have htold := hy.map fun c : β × Journal => ((c.1, r), c.2)
  rw [← hruns] at htold
  obtain ⟨c, hc, hx⟩ := Ends.of_map htold
  obtain ⟨hp, rfl⟩ := Prod.mk.inj hc
  exact ⟨c.1, hp, hx⟩

theorem run_lift_bind (s : Script α) (f : α → Journaling β) (j : Journal) :
    ((liftM s : Journaling α) >>= f).run j = s >>= fun a => (f a).run j := by
  change (s >>= fun a => pure (a, j)) >>= (fun r => (f r.1).run r.2) = _
  rw [bind_assoc]
  rfl

/-- Whatever the replies, the run asks for such changes alone and comes to such a result. -/
def Keeps (P : Change → Prop) (Q : α → Prop) (x : Journaling α) : Prop :=
  ∀ j, (x.run j).Keeps P fun r => Q r.1

section Keeping

variable {P : Change → Prop} {Q : α → Prop} {R : β → Prop}

theorem Keeps.pure {a : α} (h : Q a) : Keeps P Q (Pure.pure a) := fun _ => h

theorem Keeps.bind {x : Journaling α} {f : α → Journaling β} (hx : x.Keeps P Q)
    (hf : ∀ a, Q a → (f a).Keeps P R) : (x >>= f).Keeps P R :=
  fun j => (hx j).bind fun r hr => hf r.1 hr r.2

theorem Keeps.lift {s : Script α} (h : s.Keeps P Q) : Keeps P Q (s : Journaling α) :=
  fun _ => h.bind fun _ ha => ha

theorem Keeps.mapM {f : α → Journaling α} (hf : ∀ a, Q a → (f a).Keeps P Q) {as : List α}
    (has : ∀ a ∈ as, Q a) : (as.mapM f).Keeps P fun bs => ∀ b ∈ bs, Q b := by
  induction as with
  | nil => exact Keeps.pure (by simp)
  | cons a as ih =>
    rw [List.forall_mem_cons] at has
    rw [List.mapM_cons]
    refine (hf a has.1).bind fun b hb => (ih has.2).bind fun bs hbs => Keeps.pure ?_
    exact List.forall_mem_cons.2 ⟨hb, hbs⟩

end Keeping

end Journaling

/-- The change writes to a file that is held open under such a handle. -/
def Change.WritesTo (H : Nat → Prop) : Change → Prop
  | .writeHeld n _ => H n
  | _ => False

/-- A write to what is held open changes the file that stands there, and keeps it open. -/
theorem Change.WritesTo.frame {H : Nat → Prop} {mayFail : Disk → Change → Prop} {d e : Disk} {c : Change}
    {r : Except OsFault Unit} (hc : c.WritesTo H) (h : Goes mayFail d c r e) :
    e.held = d.held ∧ ∀ q, (∀ n, H n → d.held.lookup n ≠ some q) → e.get? q = d.get? q := by
  cases c with
  | writeHeld n bytes =>
    refine ⟨?_, fun q hq => h.frame (by simpa [places] using hq n hc)⟩
    have happly {bytes : Bytes} {d' : Disk} (ha : d.writeHeld n bytes = .ok d') : d'.held = d.held := by
      obtain rfl | ⟨p, -, -, rfl | ⟨b, rfl⟩⟩ := Disk.writeHeld_ok ha <;> rfl
    cases h with
    | asAsked =>
      unfold perform
      cases ha : (Change.writeHeld n bytes).apply d with
      | ok d' => exact happly ha
      | error f => rfl
    | failed => rfl
    | brokenOff f _ hf ha =>
      cases hf with
      | writeHeld => exact happly ha
  | _ => exact hc.elim

theorem Script.Leads.frame_held {α : Type} {H : Nat → Prop} {mayFail : Disk → Change → Prop}
    {d e : Disk} {course : Course} {s t : Script α} (h : Leads mayFail s d course t e)
    (hs : s.Only (Change.WritesTo H)) :
    e.held = d.held ∧ ∀ q, (∀ n, H n → d.held.lookup n ≠ some q) → e.get? q = d.get? q := by
  refine h.closed (R := fun d e => e.held = d.held ∧
    ∀ q, (∀ n, H n → d.held.lookup n ≠ some q) → e.get? q = d.get? q)
    (fun _ => ⟨rfl, fun _ _ => rfl⟩) ?_ (fun hc hg => hc.frame hg) hs
  rintro d e f ⟨hheld, hget⟩ ⟨hheld', hget'⟩
  refine ⟨hheld'.trans hheld, fun q hq => (hget' q ?_).trans (hget q hq)⟩
  rw [hheld]
  exact hq

namespace Appender

variable {H : Nat → Prop} {a : Appender}

theorem keeps_flush (h : H a.handle) :
    a.flush.Keeps (Change.WritesTo H) fun r => H r.2.handle := by
  unfold flush
  split
  · exact h
  · refine ⟨h, fun r => ?_⟩
    cases r with
    | ok u => exact h
    | error f => exact h

theorem keeps_put (h : H a.handle) (piece : Bytes) :
    (a.put piece).Keeps (Change.WritesTo H) fun r => H r.2.handle := by
  unfold put
  split
  · exact h
  · exact ⟨h, fun _ => h⟩

theorem keeps_add (h : H a.handle) (piece : Bytes) :
    (a.add piece).Keeps (Change.WritesTo H) fun r => H r.2.handle := by
  unfold add
  split
  · exact keeps_put h piece
  · refine (keeps_flush h).bind fun r hr => ?_
    match r with
    | (.ok (), a) => exact keeps_put hr piece
    | (.error f, a) => exact hr

theorem keeps_addLine (h : H a.handle) (line : Bytes) :
    (a.addLine line).Keeps (Change.WritesTo H) fun r => H r.2.handle := by
  refine (keeps_add h line).bind fun r hr => ?_
  match r with
  | (.ok (), a) => exact keeps_add hr _
  | (.error f, a) => exact hr

end Appender

namespace Sink

/-- A sink that keeps a file open does so under such a handle. -/
def Under (H : Nat → Prop) : Sink → Prop
  | .jsonLines file => H file.handle
  | _ => True

variable {H : Nat → Prop} {s : Sink}

theorem keeps_goOn (complaint : OsFault → LogLine) {x : Script (Except OsFault Unit × Appender)}
    (hx : x.Keeps (Change.WritesTo H) fun r => H r.2.handle) :
    (goOn complaint x).Keeps (Change.WritesTo H) (Under H) := by
  refine (Journaling.Keeps.lift hx).bind fun r hr => ?_
  match r with
  | (.ok (), a) => exact Journaling.Keeps.pure hr
  | (.error f, a) => exact fun _ => hr

theorem keeps_handle (e : Event) (h : s.Under H) :
    (s.handle e).Keeps (Change.WritesTo H) (Under H) := by
  cases s with
  | collector name => exact fun _ => h
  | log level => exact fun _ => h
  | jsonLines a =>
    -- The line is any line: to look into this one would be to compute its length.
    rw [handle]
    generalize Text.encode e.json = line
    exact keeps_goOn .lostEvent (Appender.keeps_addLine h line)

theorem keeps_finalize (h : s.Under H) : s.finalize.Keeps (Change.WritesTo H) (Under H) := by
  cases s with
  | collector name => exact Journaling.Keeps.pure h
  | log level => exact Journaling.Keeps.pure h
  | jsonLines a => exact keeps_goOn _ (Appender.keeps_flush h)

theorem keeps_drop (h : s.Under H) : s.drop.Keeps (Change.WritesTo H) fun _ => True := by
  cases s with
  | collector name => trivial
  | log level => trivial
  | jsonLines a => exact (Appender.keeps_flush h).bind fun _ _ => trivial

end Sink

namespace Bus

variable {H : Nat → Prop} {b : Bus Sink} {ss : List Sink}

theorem keeps_deliver (hss : ∀ s ∈ ss, s.Under H) (es : List Event) :
    Journaling.Keeps (Change.WritesTo H) (fun ss => ∀ s ∈ ss, Sink.Under H s)
      (deliver Sink.handle es ss) := by
  induction es generalizing ss with
  | nil => exact Journaling.Keeps.pure hss
  | cons e es ih =>
    exact (Journaling.Keeps.mapM (fun s hs => Sink.keeps_handle e hs) hss).bind fun ss hss => ih hss

/-- The end of a bus writes to what its sinks hold open, and changes nothing else. -/
theorem keeps_finishSinks (hb : ∀ s ∈ b.sinks, s.Under H) :
    Journaling.Keeps (Change.WritesTo H) (fun b => ∀ s ∈ b.sinks, Sink.Under H s) b.finishSinks := by
  unfold finishSinks
  rw [finish_eq]
  refine (keeps_deliver hb b.pending).bind fun ss hss => ?_
  refine (Journaling.Keeps.mapM (fun s hs => Sink.keeps_finalize hs) hss).bind fun ss hss => ?_
  exact Journaling.Keeps.pure hss

theorem keeps_drop (hb : ∀ s ∈ b.sinks, s.Under H) :
    b.drop.Keeps (Change.WritesTo H) fun _ => True := by
  unfold drop
  generalize b.sinks = ss at hb
  induction ss with
  | nil => trivial
  | cons s ss ih =>
    rw [List.forall_mem_cons] at hb
    exact (Sink.keeps_drop hb.1).bind fun _ _ => ih hb.2

end Bus

end NumericSteps
