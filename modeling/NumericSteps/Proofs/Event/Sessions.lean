import NumericSteps.Proofs.Disk.Appender
import NumericSteps.Proofs.Event.Delivery
import NumericSteps.Proofs.Event.ReadBack

namespace NumericSteps

open Text

/-- A run that says nothing and comes from one disk to another. -/
def Journaling.Leads {α : Type} (x : Journaling α) (d : Disk) (a : α) (e : Disk) : Prop :=
  ∀ j : Journal, (x.run j).run d = ((a, j), e)

namespace Journaling

variable {α β : Type} {x : Journaling α} {f : α → Journaling β} {d e e' : Disk} {a : α} {b : β}

theorem Leads.pure (a : α) (d : Disk) : Leads (pure a) d a d := fun _ => rfl

theorem Leads.bind (hx : Leads x d a e) (hf : Leads (f a) e b e') : Leads (x >>= f) d b e' := by
  intro j
  rw [StateT.run_bind, Script.run_bind, hx j]
  exact hf j

theorem Leads.lift {s : Script α} (h : s.run d = (a, e)) : Leads (liftM s) d a e := by
  intro j
  change (s >>= fun a => Pure.pure (a, j)).run d = _
  rw [Script.run_bind, h]
  rfl

end Journaling

namespace Event

def line (e : Event) : Bytes := encode e.json

/-- The lines of events, each with its end. -/
def linesOf (es : List Event) : Bytes := es.flatMap fun e => e.line ++ [lineFeed]

theorem linesOf_append (es fs : List Event) : linesOf (es ++ fs) = linesOf es ++ linesOf fs :=
  List.flatMap_append

theorem linesOf_cons (e : Event) (es : List Event) :
    linesOf (e :: es) = e.line ++ [lineFeed] ++ linesOf es := rfl

/-- The event that a line of the log holds. -/
def readLine (l : Bytes) : Option Event := (decode l).bind Event.read

theorem readLine_line {e : Event} (hr : e.what.InRange) (hx : e.what.Exact) :
    readLine e.line = some e := by
  rw [readLine, line, decode_encode, Option.bind_some]
  exact (read_json_iff hr).2 hx

/-- No control character stands in a line. -/
theorem not_mem_line (e : Event) {b : UInt8} (hb : b.toNat < 0x20) : b ∉ e.line := by
  intro h
  have hprinted : 0x20 ≤ b.toNat := e.printed_encode b h
  omega

end Event

namespace Bus

variable {b : Bus Sink} {a : Appender} {p : Place} {d e : Disk} {text : Bytes} {op : Op Sink}
  {ops : List (Op Sink)}

/-- A script of the file that works is gone on with, and nothing is told the log. -/
theorem leads_goOn {s : Script (Except OsFault Unit × Appender)} (complaint : OsFault → LogLine)
    (h : s.run d = ((.ok (), a), e)) : Journaling.Leads (Sink.goOn complaint s) d (.jsonLines a) e :=
  (Journaling.Leads.lift h).bind (Journaling.Leads.pure _ _)

/-- The events that are handled become lines, one for each and in their order. -/
theorem leads_deliver (h : a.Stands p text d) (es : List Event) :
    ∃ a' e, Journaling.Leads (deliver Sink.handle es [.jsonLines a]) d [.jsonLines a'] e ∧
      a'.Stands p (text ++ Event.linesOf es) e ∧ Disk.SameFolders d e := by
  induction es generalizing a text d with
  | nil => exact ⟨a, d, .pure _ _, by simpa [Event.linesOf] using h, Disk.SameFolders.refl d⟩
  | cons ev es ih =>
    obtain ⟨a', e, hrun, hstands, hfolders⟩ := Appender.leaves_addLine h ev.line
    obtain ⟨a'', e', hrest, hafter, hfolders'⟩ := ih hstands
    have hhandle : Journaling.Leads ([Sink.jsonLines a].mapM (Sink.handle ev)) d [.jsonLines a'] e := by
      rw [List.mapM_cons]
      exact (leads_goOn .lostEvent hrun).bind (.pure _ _)
    refine ⟨a'', e', hhandle.bind hrest, ?_, hfolders.trans hfolders'⟩
    rw [Event.linesOf_cons, ← List.append_assoc]
    exact hafter

/-- The file, what waits for it, and the lines of what waits on the bus make up the text. -/
structure Writes (b : Bus Sink) (p : Place) (text : Bytes) (d : Disk) : Prop where
  made : ∃ a written, b.sinks = [.jsonLines a] ∧ a.Stands p written d ∧
    written ++ Event.linesOf b.pending = text

theorem leads_flush (h : b.Writes p text d) :
    ∃ a e, Journaling.Leads (b.flush Sink.handle) d
        { enabled := b.enabled, pending := [], sinks := [.jsonLines a] } e ∧
      a.Stands p text e ∧ Disk.SameFolders d e := by
  obtain ⟨a, written, hsinks, hstands, rfl⟩ := h.made
  obtain ⟨a', e, hrun, hafter, hfolders⟩ := leads_deliver hstands b.pending
  refine ⟨a', e, ?_, hafter, hfolders⟩
  rw [flush, hsinks]
  exact hrun.bind (.pure _ _)

/-- A bus that is finished has brought all of the text to the file. -/
theorem leads_finish (h : b.Writes p text d) :
    ∃ a e, Journaling.Leads (b.finish Sink.handle Sink.finalize) d
        { enabled := b.enabled, pending := [], sinks := [.jsonLines a] } e ∧
      a.waiting = [] ∧ a.Stands p text e ∧ Disk.SameFolders d e := by
  obtain ⟨a, e, hflush, hstands, hfolders⟩ := leads_flush h
  obtain ⟨e', hclose, hafter, hfolders'⟩ := Appender.run_flush hstands
  refine ⟨{ a with waiting := [] }, e', ?_, rfl, hafter, hfolders.trans hfolders'⟩
  have hfinal : Journaling.Leads ([Sink.jsonLines a].mapM Sink.finalize) e
      [.jsonLines { a with waiting := [] }] e' := by
    rw [List.mapM_cons]
    exact (leads_goOn .lostFlush hclose).bind (.pure _ _)
  exact hflush.bind (hfinal.bind (.pure _ _))

/-- Any operation but one more sink adds the lines of what it emits. -/
theorem leads_perform (h : b.Writes p text d) (hop : op.adds = false) :
    ∃ b' e, Journaling.Leads (b.perform Sink.handle Sink.finalize op) d b' e ∧
      b'.Writes p (text ++ Event.linesOf (emitted b.enabled [op])) e ∧
      b'.enabled = enabledAfter b.enabled [op] ∧ Disk.SameFolders d e := by
  cases op with
  | addSink s => cases hop
  | emit ev =>
    refine ⟨b.emit ev, d, .pure _ _, ⟨?_⟩, emit_enabled b ev, Disk.SameFolders.refl d⟩
    obtain ⟨a, written, hsinks, hstands, rfl⟩ := h.made
    refine ⟨a, written, (emit_sinks b ev).trans hsinks, hstands, ?_⟩
    cases hb : b.enabled <;> simp [emit, hb, emitted, Event.linesOf]
  | setEnabled on =>
    refine ⟨b.setEnabled on, d, .pure _ _, ⟨?_⟩, rfl, Disk.SameFolders.refl d⟩
    simpa [setEnabled, emitted, Event.linesOf] using h.made
  | flush =>
    obtain ⟨a, e, hrun, hstands, hfolders⟩ := leads_flush h
    refine ⟨_, e, hrun, ⟨a, text, rfl, hstands, ?_⟩, rfl, hfolders⟩
    simp [emitted, Event.linesOf]
  | finish =>
    obtain ⟨a, e, hrun, -, hstands, hfolders⟩ := leads_finish h
    refine ⟨_, e, hrun, ⟨a, text, rfl, hstands, ?_⟩, rfl, hfolders⟩
    simp [emitted, Event.linesOf]

theorem leads_performAll (h : b.Writes p text d) (hops : ∀ op ∈ ops, op.adds = false) :
    ∃ b' e, Journaling.Leads (b.performAll Sink.handle Sink.finalize ops) d b' e ∧
      b'.Writes p (text ++ Event.linesOf (emitted b.enabled ops)) e ∧ Disk.SameFolders d e := by
  induction ops generalizing b text d with
  | nil => exact ⟨b, d, .pure _ _, by simpa [emitted, Event.linesOf] using h, Disk.SameFolders.refl d⟩
  | cons op ops ih =>
    obtain ⟨hop, hrest⟩ := List.forall_mem_cons.1 hops
    obtain ⟨b', e, hrun, hwrites, henabled, hfolders⟩ := leads_perform h hop
    obtain ⟨b'', e', hruns, hafter, hfolders'⟩ := ih hwrites hrest
    refine ⟨b'', e', hrun.bind hruns, ?_, hfolders.trans hfolders'⟩
    have hemitted : emitted b.enabled (op :: ops) =
        emitted b.enabled [op] ++ emitted b'.enabled ops := by
      rw [henabled]
      exact emitted_append b.enabled [op] ops
    rw [hemitted, Event.linesOf_append, ← List.append_assoc]
    exact hafter

/-- Nothing waits for the file any more when the bus is let go. -/
theorem run_drop (hsinks : b.sinks = [.jsonLines a]) (hempty : a.waiting = []) (d : Disk) :
    b.drop.run d = ((), d) := by
  have hflush : a.flush.run d = ((.ok (), a), d) := by
    rw [Appender.flush, if_pos hempty]
    rfl
  rw [drop, hsinks]
  change (Sink.drop (.jsonLines a) >>= fun _ => pure ()).run d = _
  rw [Script.run_bind, Sink.drop, Script.run_bind, hflush]
  rfl

end Bus

/-- What is done with a bus that has the log as its one sink, from the opening of the log under a handle
until the bus is let go. -/
structure Session where
  handle : Nat
  ops : List (Bus.Op Sink)

namespace Session

variable {s : Session} {ss : List Session} {path : Path} {p : Place} {d : Disk} {old : Bytes}

/-- What is emitted while the bus is enabled, as it is at first. -/
def emitted (s : Session) : List Event := Bus.emitted true s.ops

/-- The bus is finished at the end, whatever has been done with it. -/
def run (path : Path) (s : Session) : Journaling (Except OsFault Unit) := do
  match ← Sink.jsonLinesAt s.handle path with
  | .error f => return .error f
  | .ok sink =>
    let used ← ((Bus.start true).addSink sink).performAll Sink.handle Sink.finalize s.ops
    let finished ← used.finishSinks
    finished.drop
    return .ok ()

/-- Sessions one after the other, up to the first whose log cannot be opened. -/
def runAll (path : Path) : List Session → Journaling (Except OsFault Unit)
  | [] => return .ok ()
  | s :: ss => do
    match ← run path s with
    | .error f => return .error f
    | .ok () => runAll path ss

/-- No second sink is added. -/
def Lone (s : Session) : Prop := ∀ op ∈ s.ops, op.adds = false

theorem leads_run (hp : d.Names path p) (hold : d.Content path old) (hs : s.Lone) :
    ∃ e, Journaling.Leads (run path s) d (.ok ()) e ∧ e.Names path p ∧
      e.Content path (old ++ Event.linesOf s.emitted) := by
  obtain ⟨e₁, hopen, hstands, hf₁⟩ := Appender.run_openAt s.handle hp hold
  have hstart : Bus.Writes ((Bus.start true).addSink (.jsonLines ⟨s.handle, []⟩)) p old e₁ :=
    ⟨⟨s.handle, []⟩, old, rfl, hstands, List.append_nil old⟩
  obtain ⟨b, e₂, hops, hwrites, hf₂⟩ := Bus.leads_performAll hstart hs
  obtain ⟨a, e₃, hfinish, hempty, hall, hf₃⟩ := Bus.leads_finish hwrites
  have hdrop : Journaling.Leads (liftM (Bus.drop
      { enabled := b.enabled, pending := [], sinks := [.jsonLines a] })) e₃ () e₃ :=
    Journaling.Leads.lift (Bus.run_drop rfl hempty e₃)
  have hsink : Journaling.Leads (liftM (Sink.jsonLinesAt s.handle path)) d
      (.ok (.jsonLines ⟨s.handle, []⟩)) e₁ := by
    apply Journaling.Leads.lift
    rw [Sink.jsonLinesAt, Script.run_bind, hopen]
    rfl
  have hnames : e₃.Names path p := hp.of_sameFolders (hf₁.trans (hf₂.trans hf₃))
  refine ⟨e₃, hsink.bind (hops.bind (hfinish.bind (hdrop.bind (.pure _ _)))), hnames, ?_⟩
  obtain ⟨written, hfile, hmade⟩ := hall.made
  rw [hempty, List.append_nil] at hmade
  rw [Disk.Content, hnames.look, hfile, hmade]
  exact Or.inl rfl

theorem leads_runAll (hp : d.Names path p) (hold : d.Content path old) (hs : ∀ s ∈ ss, s.Lone) :
    ∃ e, Journaling.Leads (runAll path ss) d (.ok ()) e ∧
      e.Content path (old ++ Event.linesOf (ss.flatMap emitted)) := by
  induction ss generalizing d old with
  | nil => exact ⟨d, .pure _ _, by simpa [Event.linesOf] using hold⟩
  | cons s ss ih =>
    obtain ⟨hlone, hrest⟩ := List.forall_mem_cons.1 hs
    obtain ⟨e, hrun, hnames, hcontent⟩ := leads_run hp hold hlone
    obtain ⟨e', hruns, hafter⟩ := ih hnames hcontent hrest
    refine ⟨e', hrun.bind hruns, ?_⟩
    rw [List.flatMap_cons, Event.linesOf_append, ← List.append_assoc]
    exact hafter

/-- Sessions in a row keep what the log holds and add a line for each event they emit, in order. No line
end stands inside a line, and every line reads back as its event, provided that the doubles of the events
are finite and their own texts read back. Where the last line of the log was ended before, its lines are
those it had and the new ones. -/
theorem recorded_in_order (hp : d.Names path p) (hold : d.Content path old) (hs : ∀ s ∈ ss, s.Lone)
    (hrange : ∀ ev ∈ ss.flatMap emitted, ev.what.InRange)
    (hfinite : ∀ ev ∈ ss.flatMap emitted, ∀ x ∈ ev.what.floats, x.isFinite = true)
    (hback : ∀ ev ∈ ss.flatMap emitted, ∀ x ∈ ev.what.floats, x.isFinite = true → Json.Exact x)
    (hended : old = [] ∨ old.getLast? = some lineFeed) :
    ∃ (added : List Bytes) (e : Disk), Journaling.Leads (runAll path ss) d (.ok ()) e ∧
      e.Content path (old ++ added.flatMap fun l => l ++ [lineFeed]) ∧
      (∀ l ∈ added, lineFeed ∉ l) ∧
      added.map Event.readLine = (ss.flatMap emitted).map some ∧
      lines carriageReturn lineFeed (old ++ added.flatMap fun l => l ++ [lineFeed]) =
        lines carriageReturn lineFeed old ++ added := by
  obtain ⟨e, hrun, hcontent⟩ := leads_runAll hp hold hs
  have hlines : ((ss.flatMap emitted).map Event.line).flatMap (fun l => l ++ [lineFeed]) =
      Event.linesOf (ss.flatMap emitted) := by
    rw [List.flatMap_map]
    rfl
  have hplain : ∀ l ∈ (ss.flatMap emitted).map Event.line,
      lineFeed ∉ l ∧ l.getLast? ≠ some carriageReturn := by
    intro l hl
    obtain ⟨ev, -, rfl⟩ := List.mem_map.1 hl
    refine ⟨ev.not_mem_line (by decide), fun hlast => ?_⟩
    exact ev.not_mem_line (by decide) (List.mem_of_getLast? hlast)
  refine ⟨(ss.flatMap emitted).map Event.line, e, hrun, ?_, fun l hl => (hplain l hl).1, ?_, ?_⟩
  · rw [hlines]
    exact hcontent
  · rw [List.map_map]
    apply List.map_congr_left
    intro ev hev
    apply Event.readLine_line (hrange ev hev)
    intro x hx
    exact hback ev hev x hx (hfinite ev hev x hx)
  · rw [lines_append hended, lines_ended (fun l hl => (hplain l hl).1) fun l hl => (hplain l hl).2]

def logPath : Path := ⟨["", "log"]⟩

/-- A disk with a log of one line. -/
def logDisk : Disk := ⟨[(["log"], .file [123, 125, 10])], [], []⟩

/-- Two sessions, with a name that is hard to write, a descent without a next approximation, and the
least of all doubles. -/
def hardSessions : List Session :=
  [⟨0, [.emit ⟨.generate, .matrixRead "a\"b\\c\n\x01é" 2 3⟩, .flush,
    .emit ⟨.update, .descent 1.0 (-0.5) none true⟩]⟩,
    ⟨0, [.emit ⟨.compare, .compared 1.0e-5 5e-324 false⟩]⟩]

theorem recorded_in_order_hard :
    logDisk.Names logPath ["log"] ∧ logDisk.Content logPath [123, 125, 10] ∧
      (∀ s ∈ hardSessions, s.Lone) ∧ (∀ ev ∈ hardSessions.flatMap emitted, ev.what.InRange) ∧
      (∀ ev ∈ hardSessions.flatMap emitted, ∀ x ∈ ev.what.floats, x.isFinite = true ∧ Json.Exact x) ∧
      ∃ (added : List Bytes) (e : Disk),
        Journaling.Leads (runAll logPath hardSessions) logDisk (.ok ()) e ∧
        e.Content logPath ([123, 125, 10] ++ added.flatMap fun l => l ++ [lineFeed]) ∧
        (∀ l ∈ added, lineFeed ∉ l) ∧
        added.map Event.readLine = [some ⟨.generate, .matrixRead "a\"b\\c\n\x01é" 2 3⟩,
          some ⟨.update, .descent 1.0 (-0.5) none true⟩,
          some ⟨.compare, .compared 1.0e-5 5e-324 false⟩] ∧
        lines carriageReturn lineFeed ([123, 125, 10] ++ added.flatMap fun l => l ++ [lineFeed]) =
          [123, 125] :: added := by
  have hnames : logDisk.Names logPath ["log"] := rfl
  have hold : logDisk.Content logPath [123, 125, 10] := Or.inl (by decide)
  have hlone : ∀ s ∈ hardSessions, s.Lone := by simp [hardSessions, Lone, Bus.Op.adds]
  have hrange : ∀ ev ∈ hardSessions.flatMap emitted, ev.what.InRange := by decide
  have hexact : ∀ ev ∈ hardSessions.flatMap emitted, ∀ x ∈ ev.what.floats,
      x.isFinite = true ∧ Json.Exact x := by decide +kernel
  exact ⟨hnames, hold, hlone, hrange, hexact,
    recorded_in_order hnames hold hlone hrange (fun ev hev x hx => (hexact ev hev x hx).1)
      (fun ev hev x hx _ => (hexact ev hev x hx).2) (Or.inr rfl)⟩

end Session

end NumericSteps
