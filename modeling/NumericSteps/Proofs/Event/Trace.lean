import NumericSteps.Event.Bus
import NumericSteps.Proofs.Event.Reported
import NumericSteps.Proofs.Matrix.Conformant
import NumericSteps.Step.Generate

namespace NumericSteps

open Script Workspace

namespace Bus

variable {τ α : Type} {b : Bus τ} {out : Outcome α} {events : List Event}

/-- These events and no others reach the bus from a step. -/
def Gets (b : Bus τ) (out : Outcome α) (events : List Event) : Prop :=
  (b.emitAll out.events).pending = b.pending ++ events

theorem gets_iff (hb : b.enabled = true) : b.Gets out events ↔ out.events = events := by
  rw [Gets, emitAll_of_enabled b _ hb]
  exact List.append_right_inj _

/-- One event from a step that works, and none from one that fails. -/
structure GetsOne (b : Bus τ) (out : Outcome α) : Prop where
  ok_iff : (∃ a, out.result = .ok a) ↔ ∃ ev, b.Gets out [ev]
  error_iff : (∃ g, out.result = .error g) ↔ b.Gets out []

theorem getsOne_of_ok (hb : b.enabled = true) {a : α} {ev : Event} (hr : out.result = .ok a)
    (he : out.events = [ev]) : b.GetsOne out where
  ok_iff := iff_of_true ⟨a, hr⟩ ⟨ev, (gets_iff hb).2 he⟩
  error_iff := by
    rw [gets_iff hb, hr, he]
    simp

theorem getsOne_of_error (hb : b.enabled = true) {g : Failure} (hr : out.result = .error g)
    (he : out.events = []) : b.GetsOne out where
  ok_iff := by
    simp only [gets_iff hb, hr, he]
    simp
  error_iff := iff_of_true ⟨g, hr⟩ ((gets_iff hb).2 he)

end Bus

variable {τ : Type} {b : Bus τ} {mayFail : Disk → Change → Prop} {w : Workspace} {d e : Disk}
  {course : Course}

/-- There are as many singular values as the shorter side is long, whatever finds the vectors. -/
theorem Svd.rankBound_decomposeWith {routine : Matrix Float → SvdMode → Except String Found}
    {a : Matrix Float} {mode : SvdMode} {s : Svd} (h : decomposeWith routine a mode = .ok s) :
    s.rankBound = min a.rows a.cols := by
  by_cases hk : min a.rows a.cols = 0
  · obtain ⟨s', hs', hshaped⟩ := decomposeWith_empty routine mode hk
    obtain rfl : s' = s := Except.ok.inj (hs'.symm.trans h)
    exact hshaped.values
  · obtain ⟨x, -, rfl⟩ := decomposeWith_elements h hk
    simp [rankBound]

namespace Decompose

variable {routine : Matrix Float → SvdMode → Except String Svd.Found} {input : Bytes} {mode : SvdMode}
  {out : Outcome Factors}

/-- What reaches a bus if all three factors of a matrix have been written. -/
def complete (w : Workspace) (a : Matrix Float) (s : Svd) : List Event :=
  [⟨.decompose, .matrixRead "-" a.rows a.cols⟩,
    ⟨.decompose, .decomposed (min a.rows a.cols) s.largest s.smallest⟩,
    ⟨.decompose, .matrixWritten (w.names.name .factorU) s.u.rows s.u.cols⟩,
    ⟨.decompose, .matrixWritten (w.names.name .factorS) s.sigma.rows s.sigma.cols⟩,
    ⟨.decompose, .matrixWritten (w.names.name .factorVt) s.vt.rows s.vt.cols⟩]

/-- What reaches a bus from a decomposition, by how far it comes. The factors of `s` are written with
the result `res` where `writes s res`. -/
structure Told (b : Bus τ) (svd : Matrix Float → SvdMode → Except Failure Svd) (input : Bytes)
    (w : Workspace) (mode : SvdMode) (writes : Svd → Except Failure Unit → Prop)
    (out : Outcome Factors) : Prop where
  unread : ∀ g, Matrix.ofBytes input = .error g → out.result = .error g ∧ b.Gets out []
  undecomposed : ∀ a g, Matrix.ofBytes input = .ok a → svd a mode = .error g →
    out.result = .error g ∧ b.Gets out [⟨.decompose, .matrixRead "-" a.rows a.cols⟩]
  decomposed : ∀ a s, Matrix.ofBytes input = .ok a → svd a mode = .ok s → ∃ res, writes s res ∧
    (∀ g, res = .error g → out.result = .error g ∧
      b.Gets out [⟨.decompose, .matrixRead "-" a.rows a.cols⟩,
        ⟨.decompose, .decomposed (min a.rows a.cols) s.largest s.smallest⟩]) ∧
    (res = .ok () → out.result = .ok (.ofSvd s) ∧ b.Gets out (complete w a s))
  complete_iff : (∃ f, out.result = .ok f) ↔ ∃ a s, Matrix.ofBytes input = .ok a ∧
    svd a mode = .ok s ∧ b.Gets out (complete w a s)

theorem told_of_ends (hb : b.enabled = true)
    (h : Ends mayFail (runWith (Svd.decomposeWith routine) input w mode) d course out e) :
    Told b (Svd.decomposeWith routine) input w mode (fun s res =>
      Ends mayFail (w.writeMatrices (entries (.ofSvd s))) d course res e) out := by
  cases ha : Matrix.ofBytes input with
  | error g =>
    rw [runWith_unread ha] at h
    obtain ⟨rfl, -, -⟩ := h.of_done
    constructor <;> simp [ha, Bus.gets_iff hb, Outcome.failed, complete]
  | ok a =>
    cases hs : Svd.decomposeWith routine a mode with
    | error g =>
      rw [runWith_undecomposed ha hs] at h
      obtain ⟨rfl, -, -⟩ := h.of_done
      refine ⟨fun g' hg => (nomatch ha.symm.trans hg), fun a' g' ha' hg => ?_, fun a' s ha' hok => ?_, ?_⟩
      · obtain rfl : a = a' := Except.ok.inj (ha.symm.trans ha')
        obtain rfl : g = g' := Except.error.inj (hs.symm.trans hg)
        exact ⟨rfl, (Bus.gets_iff hb).2 rfl⟩
      · obtain rfl : a = a' := Except.ok.inj (ha.symm.trans ha')
        cases hs.symm.trans hok
      · simp [Bus.gets_iff hb, Outcome.failed, complete]
    | ok s =>
      have hrank : s.rankBound = min a.rows a.cols := Svd.rankBound_decomposeWith hs
      have hdecomposed : decomposed s =
          ⟨.decompose, .decomposed (min a.rows a.cols) s.largest s.smallest⟩ := by
        rw [decomposed, hrank]
      rw [runWith_decomposed ha hs] at h
      obtain ⟨res, f, front, back, hwrite, hlast, rfl⟩ := Ends.of_bind h
      obtain ⟨rfl, rfl, rfl⟩ := hlast.of_done
      rw [List.append_nil]
      refine ⟨fun g hg => (nomatch ha.symm.trans hg), fun a' g ha' hg => ?_, fun a' s' ha' hs' => ?_, ?_⟩
      · obtain rfl : a = a' := Except.ok.inj (ha.symm.trans ha')
        cases hs.symm.trans hg
      · obtain rfl : a = a' := Except.ok.inj (ha.symm.trans ha')
        obtain rfl : s = s' := Except.ok.inj (hs.symm.trans hs')
        refine ⟨res, hwrite, ?_, ?_⟩
        · rintro g rfl
          exact ⟨rfl, (Bus.gets_iff hb).2 (by rw [← hdecomposed]; rfl)⟩
        · rintro rfl
          exact ⟨rfl, (Bus.gets_iff hb).2 (by rw [complete, ← hdecomposed]; rfl)⟩
      · cases res with
        | error g => simp [Bus.gets_iff hb, outcome, Outcome.failed, complete]
        | ok u =>
          refine iff_of_true ⟨_, rfl⟩ ⟨a, s, ha, hs, (Bus.gets_iff hb).2 ?_⟩
          rw [complete, ← hdecomposed]
          rfl

end Decompose

namespace Recompose

variable {times : Grid Float → Grid Float → Grid Float} {σ : Type} {o : Output σ} {s : σ}
  {out : Outcome (Matrix Float) × σ}

/-- What reaches a bus from a recomposition that has read these factors, one by one. -/
structure Told (b : Bus τ) (times : Grid Float → Grid Float → Grid Float) (w : Workspace) (d : Disk)
    (out : Outcome (Matrix Float)) (seen : List (Slot × Matrix Float)) : Prop where
  order : seen.map Prod.fst <+: [.factorU, .factorS, .factorVt]
  read : ∀ x ∈ seen, ((w.readMatrix x.1).run d).1 = .ok x.2
  stopped : ∀ s rest, [.factorU, .factorS, .factorVt] = seen.map Prod.fst ++ s :: rest →
    ∃ g, ((w.readMatrix s).run d).1 = .error g ∧ out.result = .error g
  ok : ∀ a, out.result = .ok a → Matrix.chainWith times (seen.map Prod.snd) = .ok a ∧
    b.Gets out (seen.map (fun x =>
      ⟨.recompose, .matrixRead (w.names.name x.1) x.2.rows x.2.cols⟩) ++
        [⟨.recompose, .matrixWritten "-" a.rows a.cols⟩])
  error : ∀ g, out.result = .error g → b.Gets out (seen.map fun x =>
    ⟨.recompose, .matrixRead (w.names.name x.1) x.2.rows x.2.cols⟩)

/-- Factors are read up to the first that fails, and each of them is reported. -/
theorem ends_readFactors {ss : List Slot} {x : List Event × Except Failure (List (Matrix Float))}
    (h : Ends mayFail (readFactors w ss) d course x e) :
    ∃ (seen : List (Slot × Matrix Float)) (rest : List Slot), ss = seen.map Prod.fst ++ rest ∧
      (∀ x ∈ seen, ((w.readMatrix x.1).run d).1 = .ok x.2) ∧
      x.1 = seen.map (fun x => read w x.1 x.2) ∧
      (rest = [] ∧ x.2 = .ok (seen.map Prod.snd) ∨
        ∃ s tail g, rest = s :: tail ∧ ((w.readMatrix s).run d).1 = .error g ∧ x.2 = .error g) := by
  induction ss generalizing course x with
  | nil =>
    obtain ⟨rfl, -, -⟩ := h.of_done
    exact ⟨[], [], rfl, by simp, rfl, Or.inl ⟨rfl, rfl⟩⟩
  | cons s ss ih =>
    have h := Ends.of_bind_idle h (only_readMatrix w s)
    cases hm : ((w.readMatrix s).run d).1 with
    | error g =>
      rw [hm] at h
      obtain ⟨rfl, -, -⟩ := h.of_done
      exact ⟨[], s :: ss, rfl, by simp, rfl, Or.inr ⟨s, ss, g, rfl, hm, rfl⟩⟩
    | ok m =>
      rw [hm] at h
      obtain ⟨y, f, front, back, hrest, hlast, rfl⟩ := Ends.of_bind h
      obtain ⟨rfl, rfl, rfl⟩ := hlast.of_done
      obtain ⟨seen, rest, rfl, hseen, hevents, hend⟩ := ih hrest
      refine ⟨(s, m) :: seen, rest, rfl, List.forall_mem_cons.2 ⟨hm, hseen⟩, ?_, ?_⟩
      · rw [hevents]
        rfl
      · rcases hend with ⟨hnil, hy⟩ | ⟨s', tail, g, hcons, hg, hy⟩
        · exact Or.inl ⟨hnil, by rw [hy]; rfl⟩
        · exact Or.inr ⟨s', tail, g, hcons, hg, by rw [hy]; rfl⟩

theorem told_of_ends (hb : b.enabled = true)
    (h : Ends mayFail (runToWith times o s w) d course out e) : ∃ seen, Told b times w d out.1 seen := by
  obtain ⟨x, f, front, back, hread, hlast, rfl⟩ := Ends.of_bind h
  obtain ⟨seen, rest, hsplit, hseen, hevents, hend⟩ := ends_readFactors hread
  have horder : seen.map Prod.fst <+: [Slot.factorU, .factorS, .factorVt] := ⟨rest, hsplit.symm⟩
  obtain ⟨events, factors⟩ := x
  dsimp only at hevents hend hlast
  subst hevents
  refine ⟨seen, ?_⟩
  rcases hend with ⟨rfl, rfl⟩ | ⟨s', tail, g, rfl, hg, rfl⟩
  · have hall : [Slot.factorU, .factorS, .factorVt] = seen.map Prod.fst := by
      rw [hsplit, List.append_nil]
    have hstopped (s' : Slot) (rest : List Slot) :
        [Slot.factorU, .factorS, .factorVt] ≠ seen.map Prod.fst ++ s' :: rest := by
      rw [hall]
      simp
    have hchained : (Except.ok (seen.map Prod.snd)).bind (Matrix.chainWith times) =
        Matrix.chainWith times (seen.map Prod.snd) := rfl
    rw [hchained] at hlast
    cases hchain : Matrix.chainWith times (seen.map Prod.snd) with
    | error g =>
      rw [hchain] at hlast
      obtain ⟨rfl, -, -⟩ := hlast.of_done
      refine ⟨horder, hseen, fun s' rest hs => absurd hs (hstopped s' rest), ?_, ?_⟩
      · intro a ha
        cases ha
      · intro g' _
        exact (Bus.gets_iff hb).2 rfl
    | ok a =>
      rw [hchain] at hlast
      obtain ⟨rfl, -, -⟩ := hlast.of_done
      refine ⟨horder, hseen, fun s' rest hs => absurd hs (hstopped s' rest), ?_, ?_⟩
      · intro a' ha'
        obtain ⟨rfl, he⟩ := Output.conclude_ok ha'
        exact ⟨hchain, (Bus.gets_iff hb).2 he⟩
      · intro g' hg'
        exact (Bus.gets_iff hb).2 (Output.conclude_error hg')
  · obtain ⟨rfl, -, -⟩ := hlast.of_done
    refine ⟨horder, hseen, fun s'' rest hs => ?_, ?_, ?_⟩
    · have htail : s' :: tail = s'' :: rest := List.append_cancel_left (hsplit.symm.trans hs)
      cases htail
      exact ⟨g, hg, rfl⟩
    · intro a ha
      cases ha
    · intro g' _
      exact (Bus.gets_iff hb).2 rfl

end Recompose

namespace Compare

variable {tolerance : Float} {out : Outcome Float}

/-- Both files hold a matrix, of one shape. -/
def Met (w : Workspace) (d : Disk) : Prop :=
  ∃ computed expected, ((w.readMatrix .matrixIn).run d).1 = .ok computed ∧
    ((w.readMatrix .matrixOut).run d).1 = .ok expected ∧ computed.shape = expected.shape

/-- What reaches a bus from a comparison: the verdict on matrices that can be compared. -/
structure Told (b : Bus τ) (w : Workspace) (d : Disk) (tolerance : Float) (out : Outcome Float) :
    Prop where
  one_iff : (∃ ev, b.Gets out [ev]) ↔ Met w d
  compared : ∀ ev, b.Gets out [ev] → ∃ norm passed,
    ev = ⟨.compare, .compared norm tolerance passed⟩ ∧
      (passed = true ↔ ∃ x, out.result = .ok x)
  none_iff : b.Gets out [] ↔ ¬ Met w d

theorem lt_iff_exists_compare {x y : Matrix Float} {norm : Float} (h : x.distance y = .ok norm) :
    norm < tolerance ↔ ∃ z, compare x y tolerance = .ok z := by
  constructor
  · exact fun hlt => ⟨norm, compare_ok_iff.2 ⟨h, hlt⟩⟩
  · rintro ⟨z, hz⟩
    obtain ⟨hdistance, hlt⟩ := compare_ok_iff.1 hz
    obtain rfl : norm = z := Except.ok.inj (h.symm.trans hdistance)
    exact hlt

theorem told_of_unmet (hb : b.enabled = true) (hm : ¬ Met w d) (he : out.events = []) :
    Told b w d tolerance out where
  one_iff := by
    simp only [Bus.gets_iff hb, he]
    simp [hm]
  compared ev hev := by
    rw [Bus.gets_iff hb, he] at hev
    cases hev
  none_iff := iff_of_true ((Bus.gets_iff hb).2 he) hm

theorem told_of_ends (hb : b.enabled = true) (h : Ends mayFail (run w tolerance) d course out e) :
    Told b w d tolerance out := by
  have h := Ends.of_bind_idle h (only_readMatrix w .matrixIn)
  cases hx : ((w.readMatrix .matrixIn).run d).1 with
  | error g =>
    rw [hx] at h
    obtain ⟨rfl, -, -⟩ := h.of_done
    refine told_of_unmet hb ?_ rfl
    rintro ⟨x, y, hok, -, -⟩
    cases hx.symm.trans hok
  | ok x =>
    rw [hx] at h
    have h := Ends.of_bind_idle h (only_readMatrix w .matrixOut)
    cases hy : ((w.readMatrix .matrixOut).run d).1 with
    | error g =>
      rw [hy] at h
      obtain ⟨rfl, -, -⟩ := h.of_done
      refine told_of_unmet hb ?_ rfl
      rintro ⟨x', y, -, hok, -⟩
      cases hy.symm.trans hok
    | ok y =>
      rw [hy] at h
      obtain ⟨rfl, -, -⟩ := h.of_done
      by_cases hshape : x.shape = y.shape
      · obtain ⟨norm, hdistance⟩ : ∃ norm, x.distance y = .ok norm :=
          ⟨_, Matrix.distance_of_shape hshape⟩
        have hverdict : verdict (compare x y tolerance) tolerance =
            [compared norm tolerance (norm < tolerance)] := verdict_of_distance hdistance
        have hpassed : norm < tolerance ↔ ∃ z, compare x y tolerance = .ok z :=
          lt_iff_exists_compare hdistance
        have hmet : Met w d := ⟨x, y, hx, hy, hshape⟩
        refine ⟨iff_of_true ⟨_, (Bus.gets_iff hb).2 hverdict⟩ hmet, fun ev hev => ?_, ?_⟩
        · have hev := (Bus.gets_iff hb).1 hev
          obtain rfl : compared norm tolerance (norm < tolerance) = ev :=
            List.head_eq_of_cons_eq (hverdict.symm.trans hev)
          exact ⟨norm, _, rfl, decide_eq_true_iff.trans hpassed⟩
        · refine iff_of_false (fun hnone => ?_) (not_not_intro hmet)
          cases hverdict.symm.trans ((Bus.gets_iff hb).1 hnone)
      · refine told_of_unmet hb ?_ ?_
        · rintro ⟨x', y', hx', hy', hs⟩
          obtain rfl : x = x' := Except.ok.inj (hx.symm.trans hx')
          obtain rfl : y = y' := Except.ok.inj (hy.symm.trans hy')
          exact hshape hs
        · exact verdict_mismatch hshape

end Compare

namespace Descent

variable {threshold rate : Float} {out : Outcome Descent}

/-- The event of a step that works is about the numbers that were read. -/
theorem told_of_ends (hb : b.enabled = true) (h : Ends mayFail (run w threshold rate) d course out e) :
    b.GetsOne out ∧ ∀ step, out.result = .ok step → ∃ old grad, w.Stores d .approxOld old ∧
      w.Stores d .grad grad ∧ step = decide old grad threshold rate ∧
      b.Gets out [event old grad step] := by
  cases goes_of_ends h with
  | noOld => exact ⟨Bus.getsOne_of_error hb rfl rfl, fun step hok => nomatch hok⟩
  | noGrad => exact ⟨Bus.getsOne_of_error hb rfl rfl, fun step hok => nomatch hok⟩
  | @recorded old grad _ res _ hold hgrad _ =>
    cases res with
    | error g => exact ⟨Bus.getsOne_of_error hb rfl rfl, fun step hok => nomatch hok⟩
    | ok u =>
      refine ⟨Bus.getsOne_of_ok hb rfl rfl, fun step hok => ?_⟩
      obtain rfl := Except.ok.inj hok
      exact ⟨old, grad, run_readScalar_ok hold, run_readScalar_ok hgrad, rfl, (Bus.gets_iff hb).2 rfl⟩

end Descent

namespace Generate

variable {σ ρ : Type} {next : ρ → Float × ρ} {n : Nat} {r : ρ} {o : Output σ} {s : σ}

theorem shape_generate {m : Matrix Float} (h : (generate next n r).1 = .ok m) :
    m.rows = n ∧ m.cols = n := by
  obtain ⟨data, hdata⟩ := ofData_of_generate h
  rw [(Matrix.ofData_ok hdata).1]
  exact ⟨rfl, rfl⟩

/-- The event of a step that works has the shape of the matrix on the output. -/
theorem told_runTo (hb : b.enabled = true) :
    b.GetsOne (runTo next n r o s).1 ∧ ∀ m, (runTo next n r o s).1.result = .ok m →
      b.Gets (runTo next n r o s).1 [⟨.generate, .matrixWritten "-" m.rows m.cols⟩] := by
  cases hg : (generate next n r).1 with
  | error g =>
    have hrun : runTo next n r o s = (.failed g [], s) := by rw [runTo, hg]
    rw [hrun]
    exact ⟨Bus.getsOne_of_error hb rfl rfl, fun m hm => nomatch hm⟩
  | ok m =>
    have hrun : runTo next n r o s = o.conclude s m [] (written n) := by rw [runTo, hg]
    have hwritten : written n = ⟨.generate, .matrixWritten "-" m.rows m.cols⟩ := by
      rw [written, standardStream, (shape_generate hg).1, (shape_generate hg).2]
    rw [hrun, hwritten]
    cases hr : (o.conclude s m [] ⟨.generate, .matrixWritten "-" m.rows m.cols⟩).1.result with
    | error g =>
      exact ⟨Bus.getsOne_of_error hb hr (Output.conclude_error hr), fun m' hm' => nomatch hm'⟩
    | ok a =>
      obtain ⟨rfl, he⟩ := Output.conclude_ok hr
      refine ⟨Bus.getsOne_of_ok hb hr he, fun m' hm' => ?_⟩
      obtain rfl := Except.ok.inj hm'
      exact (Bus.gets_iff hb).2 he

end Generate

/-- A bus that is on gets from every step what the step has done, however it ends, whatever the disk or the
output refuses, and whichever routines decompose and multiply. -/
theorem traces_truthful (hb : b.enabled = true) :
    (∀ routine input mode course out e,
      Ends mayFail (Decompose.runWith (Svd.decomposeWith routine) input w mode) d course out e →
        Decompose.Told b (Svd.decomposeWith routine) input w mode (fun s res =>
          Ends mayFail (w.writeMatrices (Decompose.entries (.ofSvd s))) d course res e) out) ∧
    (∀ times (σ : Type) (o : Output σ) s course out e,
      Ends mayFail (Recompose.runToWith times o s w) d course out e →
        ∃ seen, Recompose.Told b times w d out.1 seen) ∧
    (∀ tolerance course out e, Ends mayFail (Compare.run w tolerance) d course out e →
        Compare.Told b w d tolerance out) ∧
    (∀ threshold rate course out e, Ends mayFail (Descent.run w threshold rate) d course out e →
        b.GetsOne out ∧ ∀ step, out.result = .ok step → ∃ old grad, w.Stores d .approxOld old ∧
          w.Stores d .grad grad ∧ step = Descent.decide old grad threshold rate ∧
          b.Gets out [Descent.event old grad step]) ∧
    ∀ (ρ σ : Type) (next : ρ → Float × ρ) n r (o : Output σ) s,
      b.GetsOne (Generate.runTo next n r o s).1 ∧
        ∀ m, (Generate.runTo next n r o s).1.result = .ok m →
          b.Gets (Generate.runTo next n r o s).1 [⟨.generate, .matrixWritten "-" m.rows m.cols⟩] :=
  ⟨fun _ _ _ _ _ _ h => Decompose.told_of_ends hb h, fun _ _ _ _ _ _ _ h => Recompose.told_of_ends hb h,
    fun _ _ _ _ h => Compare.told_of_ends hb h, fun _ _ _ _ _ h => Descent.told_of_ends hb h,
    fun _ _ _ _ _ _ _ => Generate.told_runTo hb⟩

/-- A disk with two of three factors, matrices that differ, an approximation and a gradient. -/
def tracedDisk : Disk :=
  topDisk [("m1", .file [50, 10]), ("m2", .file [51, 10]), ("matrix_in", .file [51, 10]),
    ("matrix_out", .file [49, 10]), ("approx_old", .file [49, 10]), ("grad", .file [49, 10])]

/-- A recomposition that does not find the third factor, a comparison that does not pass, and a
decomposition and a descent that work. -/
theorem traces_truthful_traced :
    ({} : Bus Unit).enabled = true ∧
      (∃ course out e, Ends (fun _ _ => False)
          (Decompose.runWith (Svd.decomposeWith Svd.rotations) [51, 10] top .full) tracedDisk course
          out e ∧
        ∃ a s, Matrix.ofBytes [51, 10] = .ok a ∧ Svd.decomposeWith Svd.rotations a .full = .ok s ∧
          ({} : Bus Unit).Gets out (Decompose.complete top a s)) ∧
      (∃ course out e seen,
        Ends (fun _ _ => False) (Recompose.runToWith Grid.times .memory [] top) tracedDisk course out e ∧
          Recompose.Told ({} : Bus Unit) Grid.times top tracedDisk out.1 seen) ∧
      (∃ course out e, Ends (fun _ _ => False) (Compare.run top 0.5) tracedDisk course out e ∧
        ∃ ev, ({} : Bus Unit).Gets out [ev]) ∧
      (∃ course out e, Ends (fun _ _ => False) (Descent.run top 0.5 0.25) tracedDisk course out e ∧
        ∃ ev, ({} : Bus Unit).Gets out [ev]) ∧
      ({} : Bus Unit).GetsOne (Generate.runTo (fun x => (x, x)) 2 1.5 .memory []).1 := by
  have hb : ({} : Bus Unit).enabled = true := rfl
  have hruns {α : Type} (s : Script α) : ∃ course, Ends (fun _ _ => False) s tracedDisk course
      (s.run tracedDisk).1 (s.run tracedDisk).2 :=
    ends_run s tracedDisk
  obtain ⟨course₁, h₁⟩ :=
    hruns (Decompose.runWith (Svd.decomposeWith Svd.rotations) [51, 10] top .full)
  obtain ⟨course₂, h₂⟩ := hruns (Recompose.runToWith Grid.times .memory [] top)
  obtain ⟨course₃, h₃⟩ := hruns (Compare.run top 0.5)
  obtain ⟨course₄, h₄⟩ := hruns (Descent.run top 0.5 0.25)
  obtain ⟨hdecompose, hrecompose, hcompare, hdescend, hgenerate⟩ :=
    @traces_truthful Unit {} (fun _ _ => False) top tracedDisk hb
  have hdecomposed : ((Decompose.runWith (Svd.decomposeWith Svd.rotations) [51, 10] top .full).run
      tracedDisk).1.result.isOk = true := by decide +kernel
  have hmet : Compare.Met top tracedDisk :=
    ⟨⟨1, 1, [3]⟩, ⟨1, 1, [1]⟩, by decide +kernel, by decide +kernel, by decide⟩
  have hdescended : ((Descent.run top 0.5 0.25).run tracedDisk).1.result.isOk = true := by
    decide +kernel
  obtain ⟨seen, hseen⟩ := hrecompose _ _ _ _ _ _ _ h₂
  exact ⟨hb, ⟨course₁, _, _, h₁, (hdecompose _ _ _ _ _ _ h₁).complete_iff.1 (ok_of_isOk hdecomposed)⟩,
    ⟨course₂, _, _, seen, h₂, hseen⟩, ⟨course₃, _, _, h₃, (hcompare _ _ _ _ h₃).one_iff.2 hmet⟩,
    ⟨course₄, _, _, h₄, (hdescend _ _ _ _ _ h₄).1.ok_iff.1 (ok_of_isOk hdescended)⟩,
    (hgenerate _ _ _ _ _ _ _).1⟩

end NumericSteps
