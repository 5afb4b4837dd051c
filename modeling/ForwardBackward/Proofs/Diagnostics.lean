/-
# ForwardBackward.Proofs.Diagnostics -- what a failure of finiteness tells

A run that ends because something is not finite tells the iteration, a step size and a
residual norm.  The last two are copies that a passed check makes, so between two
checks they do not follow the state, however often the step size is halved and the
residual norm computed anew (`Turn.unchecked`).

Inside the loop that is right.  The launch has made a copy by then, and a finite
envelope vouches for the residual norm: a failure tells the iteration in progress, and
the finite step size and residual norm of the moment when a check was last passed
(`Solver.failure_tells_last_valid`).

At the starting point it is not.  The check of the smooth term comes before there is a
step size, and where the envelope fails, the copy is the one of that check
(`Solver.launch_breaks`).  So the failure of the first envelope tells no step size,
though there is one, and it is the only one behind the step size that does not
(`Solver.failure_tells_stepSize`, `Solver.first_envelope_tells_none`).
-/
import ForwardBackward.Proofs.Finiteness
import ForwardBackward.Proofs.Protocol

namespace ForwardBackward

set_option autoImplicit false

variable {σ R α β : Type}

/-! ## Where a run breaks -/

/-- The failure is one of finiteness. -/
def Failure.isNonFinite : Failure R → Bool
  | .nonFinite _ _ => true
  | _ => false

section

variable {m : Run σ R α} {w w' : World σ R} {what : Monitored} {d : Diagnostics R}

/-- A part of a run without a check. -/
theorem Run.FailsWith.unmonitored (others : FailsWith (fun e => e.isNonFinite = false) m) :
    m w ≠ .error (.nonFinite what d) w' :=
  fun failed => nomatch others _ _ _ failed

/-- Behind a part without a check the failure is one of what follows. -/
theorem Run.FailsWith.later {f : α → Run σ R β}
    (others : FailsWith (fun e => e.isNonFinite = false) m)
    (failed : (m >>= f) w = .error (.nonFinite what d) w') :
    ∃ a w₁, m w = .ok a w₁ ∧ f a w₁ = .error (.nonFinite what d) w' := by
  rcases bind_fails.mp failed with failed | later
  · cases others.unmonitored failed
  · exact later

end

variable [Scalar R]

/-- What a check tells that is not passed. -/
def State.lastValid (s : State R) : Diagnostics R := ⟨s.iteration, s.validGamma, s.validResidual⟩

/-- A check inside the loop that is not passed. -/
inductive Snapshot.Fails : Snapshot σ R → Monitored → Prop where
  | envelope {found : Option Bool} {left : Nat} {s : State R} {w : World σ R} :
      (Scalar.isFinite s.fxbar && Scalar.isFinite s.value) = false →
      Fails ⟨.measured found, left, s, w⟩ .envelope
  | smoothTermOrEnvelope {found : Bool} {left : Nat} {s : State R} {w : World σ R} :
      (Scalar.isFinite s.fx && s.grad.allFinite && Scalar.isFinite s.value) = false →
      Fails ⟨.moved found, left, s, w⟩ .smoothTermOrEnvelope

variable {c : Config σ R} {A : Operator σ R} {g : Prox σ R} {what : Monitored} {d : Diagnostics R}

namespace Solver

open Run.FailsWith

variable {s s₀ : State R} {w w₀ w₁ w' : World σ R} {x0 : Option (Vec R)}

theorem settle_fails (failed : settle c s w = .error (.nonFinite what d) w') :
    (Scalar.isFinite s.fxbar && Scalar.isFinite s.value) = false ∧ what = .envelope ∧
      d = s.lastValid := by
  rcases bind_fails.mp failed with failed | ⟨s₁, w₁, _, failed⟩
  · obtain ⟨infinite, same, _⟩ := State.certify_fails.mp failed
    cases same
    exact ⟨infinite, rfl, rfl⟩
  · cases unmonitored (.bind (report_failsWith c s₁) fun _ => .pure _) failed

/-- An iteration that fails a check gets there. -/
theorem iterate_breaks {left : Nat} (goes : consult c s w = .ok false w₁)
    (failed : iterate c A g s w₁ = .error (.nonFinite what d) w') :
    ∃ vs b, Course c A g ⟨.resting, left + 1, s, w⟩ vs b ∧ b.Fails what ∧
      d = b.state.lastValid := by
  obtain ⟨s₁, w₂, evaluated, failed⟩ := later (call (fun _ => rfl) _) failed
  obtain ⟨s₂, w₃, searched, failed⟩ := later (searchGamma_failsWith c A g s₁ fun _ => rfl) failed
  obtain ⟨vs, found, w₄, before, announced⟩ : ∃ vs found w₄, Course c A g
      ⟨.resting, left + 1, s, w⟩ vs ⟨.measured found, left, s₂, w₄⟩ ∧
        announce c found s₂ w₄ = .ok () w₃ := searchGamma_course goes evaluated searched
  rcases bind_fails.mp failed with failed | ⟨s₃, w₅, settled, failed⟩
  · obtain ⟨infinite, rfl, rfl⟩ := settle_fails failed
    exact ⟨vs, _, before, .envelope infinite, rfl⟩
  obtain ⟨s₄, w₆, aimed, failed⟩ := later (call (fun _ => rfl) _) failed
  obtain ⟨s₅, w₇, moved, failed⟩ := later (searchTau_failsWith c A g s₄ fun _ => rfl) failed
  obtain ⟨us, found', w₈, after, _⟩ : ∃ us found' w₈, Course c A g ⟨.aimed, left, s₄, w₆⟩ us
      ⟨.moved found', left, s₅, w₈⟩ ∧ _ := searchTau_course moved
  obtain ⟨infinite, same, _⟩ := State.certify_fails.mp failed
  cases same
  exact ⟨_, _, ((before.move (.settle announced settled)).move (.aim aimed)).trans after,
    .smoothTermOrEnvelope infinite, rfl⟩

/-- A launched run that ends because something is not finite gets to a check and fails it. -/
theorem solve_breaks (launched : launch A g x0 c w = .ok s₀ w₀)
    (failed : solve A g x0 c w = .error (.nonFinite what d) w') :
    ∃ vs b, Passes A g x0 c w vs b ∧ b.Fails what ∧ d = b.state.lastValid := by
  rcases solve_ends A g x0 c w with ⟨_, _, unlaunched, _⟩ | ⟨_, _, _, _, _, ends⟩ |
    ⟨vs, b, out, passes, resting, stops, ends⟩
  · cases launched.symm.trans unlaunched
  · cases failed.symm.trans ends
  · obtain ⟨place, left, s, w₁⟩ := b
    obtain rfl : place = .resting := resting
    rw [ends] at failed
    have concludes : ∀ status s w₁, after c (.ok (status, s) w₁) ≠ .error (.nonFinite what d) w' :=
      fun status s _ => unmonitored (.bind (conclude_failsWith c s status) fun _ => .pure _)
    cases stops with
    | spent | halted => cases concludes _ _ _ failed
    | unanswered => cases failed
    | broken told iterated =>
        cases failed
        obtain ⟨us, b, course, fails, same⟩ := iterate_breaks (consult_of_decided told) iterated
        exact ⟨vs ++ us, b, passes.trans course, fails, same⟩

/-- And a run that gets to a check and fails it ends there. -/
theorem Passes.solve_of_fails {vs : List (Snapshot σ R)} {b : Snapshot σ R}
    (passes : Passes A g x0 c w vs b) (fails : b.Fails what) :
    ∃ w', solve A g x0 c w = .error (.nonFinite what b.state.lastValid) w' := by
  rw [passes.solve_eq, Snapshot.resume]
  cases fails with
  | @envelope found left s w₁ infinite =>
      obtain ⟨w₂, announced⟩ := announce_returns c s w₁ found
      have settles : settle c s w₂ = .error (.nonFinite .envelope s.lastValid) w₂ :=
        bind_of_fails (State.certify_fails.mpr ⟨infinite, rfl, rfl⟩) _
      refine ⟨w₂, ?_⟩
      simp only [Place.resume]
      rw [bind_of_returns announced, bind_of_fails settles]
  | @smoothTermOrEnvelope found left s w₁ infinite =>
      obtain ⟨w₂, reported⟩ :=
        reportExhausted_returns c w₁ found (.tauSearchExhausted s.iteration)
      have approves : approve s w₂ = .error (.nonFinite .smoothTermOrEnvelope s.lastValid) w₂ :=
        State.certify_fails.mpr ⟨infinite, rfl, rfl⟩
      refine ⟨w₂, ?_⟩
      simp only [Place.resume]
      rw [bind_of_returns reported, bind_of_fails approves]

/-- A first envelope that is not finite ends the run, whatever the step size. -/
theorem begin_of_infinite {env₁ env₂ : σ} {gamma : R} {s₁ s₂ s₃ s₄ : State R} {w₂ : World σ R}
    (evaluates : s.evaluate A w.env = .ok s₁ env₁)
    (smooth : (Scalar.isFinite s₁.fx && s₁.grad.allFinite) = true)
    (sized : firstGamma c A s₁.markValid { w with env := env₁ } = .ok (gamma, s₂) w₂)
    (set : s₂.setGamma gamma = .ok s₃) (steps : s₃.step g w₂.env = .ok s₄ env₂)
    (infinite : Scalar.isFinite s₄.value = false) :
    begin c A g s w =
      .error (.nonFinite .envelopeAtStart s₄.lastValid) { w₂ with env := env₂ } := by
  simp only [begin, Run.lift_call, Run.lift_refuse]
  rw [bind_of_returns (Run.call_returns.mpr ⟨_, evaluates, rfl⟩),
    bind_of_returns (State.certify_returns.mpr ⟨smooth, rfl, rfl⟩), bind_of_returns sized]
  dsimp only
  rw [bind_of_returns (Run.refuse_returns.mpr ⟨set, rfl⟩),
    bind_of_returns (Run.call_returns.mpr ⟨_, steps, rfl⟩)]
  exact State.certify_fails.mpr ⟨infinite, rfl, rfl⟩

/-- The copy that a failure at the starting point tells is from before there is a step size. -/
theorem begin_breaks {x : Vec R} {memory : Nat}
    (failed : begin c A g (State.start x memory) w = .error (.nonFinite what d) w') :
    (what = .smoothTermAtStart ∨ what = .envelopeAtStart) ∧ d.iteration = 0 ∧
      d.gamma = Scalar.undefined := by
  obtain ⟨s₁, _, evaluated, failed⟩ := later (call (fun _ => rfl) _) failed
  obtain ⟨_, evaluates, rfl⟩ := Run.call_returns.mp evaluated
  obtain ⟨_, _, _, _, _, _, _, rfl⟩ := State.evaluate_returns evaluates
  rcases bind_fails.mp failed with failed | ⟨s₂, _, smooth, failed⟩
  · obtain ⟨_, same, _⟩ := State.certify_fails.mp failed
    cases same
    exact ⟨.inl rfl, rfl, rfl⟩
  obtain ⟨_, rfl, rfl⟩ := State.certify_returns.mp smooth
  obtain ⟨⟨gamma, s₃⟩, _, sized, failed⟩ := later (firstGamma_failsWith c A _ fun _ => rfl) failed
  obtain rfl := firstGamma_frame sized
  obtain ⟨s₄, _, sets, failed⟩ := later (refuse (fun _ => rfl) _) failed
  obtain ⟨set, rfl⟩ := Run.refuse_returns.mp sets
  obtain ⟨_, _, rfl⟩ := State.setGamma_accepts.mp set
  obtain ⟨s₅, _, stepped, failed⟩ := later (call (fun _ => rfl) _) failed
  obtain ⟨_, steps, rfl⟩ := Run.call_returns.mp stepped
  obtain ⟨_, _, _, _, _, _, rfl⟩ := State.step_frame steps
  obtain ⟨_, same, _⟩ := State.certify_fails.mp failed
  cases same
  -- The check before was passed without a step size, so there was none to keep.
  exact ⟨.inr rfl, rfl, ite_self _⟩

/-- A run that is not launched because something is not finite tells no step size. -/
theorem launch_breaks (failed : launch A g x0 c w = .error (.nonFinite what d) w') :
    (what = .smoothTermAtStart ∨ what = .envelopeAtStart) ∧ d.iteration = 0 ∧
      d.gamma = Scalar.undefined := by
  obtain ⟨x, _, _, failed⟩ := later (refuse (fun _ => rfl) _) failed
  obtain ⟨memory, _, _, failed⟩ := later (refuse (fun _ => rfl) _) failed
  dsimp only at failed
  split at failed
  · obtain ⟨_, _, _, failed⟩ := later (note _) failed
    exact begin_breaks failed
  · exact begin_breaks failed

end Solver

/-! ## The last check that was passed -/

/-- Places where a check has just been passed: the one of the first envelope or the one at the end
of an iteration, or the one before the envelope is recorded. -/
def Place.checked : Place R → Bool
  | .resting | .recorded _ => true
  | _ => false

namespace State

variable {s : State R}

theorem markValid_markValid (s : State R) : s.markValid.markValid = s.markValid := by
  unfold markValid
  simp only [apply_ite, ite_self]
  split <;> split <;> rfl

/-- Where a check has just been passed, what is finite is what was kept. -/
theorem validGamma_of_marked (marked : s.markValid = s) (finite : Scalar.isFinite s.gamma = true) :
    s.validGamma = s.gamma := by
  rw [← marked]
  exact if_pos finite

theorem validResidual_of_marked (marked : s.markValid = s)
    (finite : Scalar.isFinite s.residual = true) : s.validResidual = s.residual := by
  rw [← marked]
  exact if_pos finite

end State

variable {b t : Snapshot σ R} {vs : List (Snapshot σ R)}

theorem Turn.marked (turn : Turn c b t) (checked : t.place.checked = true) :
    t.state.markValid = t.state ∧ Scalar.isFinite t.state.value = true := by
  cases turn with
  | settle _ finite => exact ⟨State.markValid_markValid _, finite⟩
  | approve finite => exact ⟨State.markValid_markValid _, (Bool.and_eq_true_iff.mp finite).2⟩
  | search | skip | bounded | halve | unbounded | aim | depart | accept | reject | exhaust =>
      cases checked

/-- Without a check nothing is kept. -/
theorem Turn.unchecked (turn : Turn c b t) (unchecked : t.place.checked = false) :
    t.state.validGamma = b.state.validGamma ∧ t.state.validResidual = b.state.validResidual := by
  cases turn with
  | settle | approve => cases unchecked
  | search | skip | bounded | halve | unbounded | aim | depart | accept | reject | exhaust =>
      exact ⟨rfl, rfl⟩

/-- An iteration is in progress behind every rest that the run leaves. -/
theorem Course.iteration_begun {a : Snapshot σ R} (course : Course c A g a vs b) :
    b.state.iteration = a.state.iteration + vs.countP fun v => v.place.isResting := by
  induction course with
  | stay => rfl
  | @move vs b d _ step ih =>
      rw [step.turn.iteration_begun, ih, List.countP_append, List.countP_singleton, Nat.add_assoc]

namespace Solver

variable {x0 : Option (Vec R)} {w w₀ w' : World σ R} {s₀ : State R}

theorem launch_marked (launched : launch A g x0 c w = .ok s₀ w₀) :
    s₀.markValid = s₀ ∧ Scalar.isFinite s₀.value = true := by
  obtain ⟨_, _, _, _, _, _, _, _, _, _, _, _, _, _, _, ⟨_, finite⟩, rfl⟩ := launch_returns launched
  exact ⟨State.markValid_markValid _, finite⟩

theorem Passes.marked (passes : Passes A g x0 c w vs b) (checked : b.place.checked = true) :
    b.state.markValid = b.state ∧ Scalar.isFinite b.state.value = true := by
  obtain ⟨_, _, _, launched, _, course⟩ := passes
  exact course.invariant (P := fun v => v.place.checked = true →
      v.state.markValid = v.state ∧ Scalar.isFinite v.state.value = true)
    (fun _ _ _ step => step.turn.marked) (fun _ => launch_marked launched) checked

/-- Where no check has just been passed, what is kept is from the last one that was. -/
theorem Passes.last_checked (passes : Passes A g x0 c w vs b) (unchecked : b.place.checked = false) :
    ∃ us v ts, vs = us ++ v :: ts ∧ Passes A g x0 c w us v ∧ v.place.checked = true ∧
      (∀ t ∈ ts, t.place.checked = false) ∧ b.state.validGamma = v.state.validGamma ∧
      b.state.validResidual = v.state.validResidual := by
  obtain ⟨s₀, w₀, limit, launched, budget, course⟩ := passes
  induction course with
  | stay => cases unchecked
  | @move vs b t before step ih =>
      obtain ⟨gamma, residual⟩ := step.turn.unchecked unchecked
      rw [gamma, residual]
      cases here : b.place.checked with
      | true =>
          exact ⟨vs, b, [], rfl, ⟨s₀, w₀, limit, launched, budget, before⟩, here, by simp, rfl, rfl⟩
      | false =>
          obtain ⟨us, v, ts, rfl, passes, checked, between, kept⟩ := ih here
          refine ⟨us, v, ts ++ [b], by simp, passes, checked, fun t inside => ?_, kept⟩
          rcases List.mem_append.mp inside with inside | last
          · exact between t inside
          · rw [List.mem_singleton.mp last]
            exact here

/-- The iteration in progress is counted by the rests that the run has left. -/
theorem Passes.iteration_begun (passes : Passes A g x0 c w vs b) :
    b.state.iteration = vs.countP fun v => v.place.isResting := by
  obtain ⟨s₀, w₀, limit, launched, _, course⟩ := passes
  have zero : s₀.iteration = 0 := (launch_starts launched).1
  rw [course.iteration_begun]
  change s₀.iteration + _ = _
  rw [zero, Nat.zero_add]

/-- Between two rests an iteration is in progress. -/
theorem Passes.begun (passes : Passes A g x0 c w vs b) (inside : b.place.isResting = false) :
    1 ≤ b.state.iteration := by
  obtain ⟨_, _, _, _, _, course⟩ := passes
  refine course.invariant (P := fun v => v.place.isResting = false → 1 ≤ v.state.iteration)
    (fun v t begun step _ => ?_) nofun inside
  rw [step.turn.iteration_begun]
  cases here : v.place.isResting with
  | true => exact Nat.le_add_left 1 _
  | false => exact begun here

end Solver

/-! ## Two runs that break -/

/-- In exact arithmetic no square is too large. -/
theorem Exact.square_answers (x : Exact) : ∃ y, Scalar.square x = .ok y := by
  cases x <;> exact ⟨_, rfl⟩

/-- Fractions of any kind have a norm, whatever numbers they are. -/
theorem Vec.Inexact.sqnorm_answers {x : Vec Exact} (inexact : x.Inexact) :
    ∃ q, x.sqnorm = .ok q := by
  have each : List.Forall₂ (fun a b => NDArray.asArray a = .ok b) x.leaves
      (x.leaves.map NDArray.enter) := by
    rw [List.forall₂_map_right_iff, List.forall₂_same]
    exact fun a inside => NDArray.asArray_of_inexact (inexact a inside)
  obtain ⟨_, arrays⟩ := Tree.traverse_of_forall each
  obtain ⟨q, squared⟩ := Exact.square_answers (Vec.norm ⟨x.skeleton, x.leaves.map NDArray.enter, _⟩)
  exact ⟨q, bind_accepts.mpr ⟨_, arrays, squared⟩⟩

namespace Faulty

theorem config_checked : ∃ o halt, Config.ofSettings o halt = .ok config := by
  refine ⟨{ Settings.standard with
    tolerance := .fraction (.real 1), maxIterations := .whole 1, memory := .whole 0
    verbosity := .whole 0, stepSize := .fraction (.real (1 / 2)), searchesGamma := .flag false },
    some (.always (.decided false)), ?_⟩
  unfold Config.ofSettings
  rw [Setting.tolerance_of_positive one_pos, Setting.stepSize_of_positive one_half_pos]
  rfl

/-- The third product is spoilt, and the first check inside the loop sees it. -/
theorem breaks : ∃ s d w', Solver.launch operator prox (some Plain.start) config world =
      .ok s (used 2) ∧
    Solver.solve operator prox (some Plain.start) config world =
      .error (.nonFinite .envelope d) w' := by
  obtain ⟨s, fits, launched⟩ := launches
  obtain ⟨q, squared⟩ : ∃ q, s.xbar.spoil.sqnorm = .ok q := by
    refine Vec.Inexact.sqnorm_answers fun a inside => ?_
    obtain ⟨b, _, rfl⟩ := List.mem_map.mp inside
    exact NDArray.scale_inexact _ b
  let s₁ : State Exact := { s.nextIteration with
    axbar := s.xbar.spoil, fxbar := 0.5 * q, operatorCalls := s.operatorCalls + 1 }
  have evaluates : s.nextIteration.evaluateStep operator (used 2).env = .ok s₁ (used 3).env := by
    simp only [State.evaluateStep, State.callOperator, bind_returns, pure_returns, lift_returns]
    exact ⟨_, _, ⟨s.xbar.spoil, _, rfl, rfl, rfl⟩, q, _, ⟨squared, rfl⟩, rfl, rfl⟩
  have step : Move config operator prox (.first 1 s (used 2)) ⟨.measured none, 0, s₁, used 3⟩ :=
    .skip (Solver.consult_of_decided rfl) (Run.call_returns.mpr ⟨_, evaluates, rfl⟩) rfl
  have zero : s.iteration = 0 := (Solver.launch_starts launched).1
  have stuck : Stuck ⟨.measured none, 0, s₁, used 3⟩ :=
    Stuck.move (.inl ⟨rfl, zero, fits, rfl⟩) step
  rcases stuck with ⟨resting, _⟩ | ⟨_, infinite⟩
  · cases resting
  · have passes : Solver.Passes operator prox (some Plain.start) config world _ _ :=
      ⟨s, used 2, 1, launched, rfl, .single step⟩
    obtain ⟨w', failed⟩ := passes.solve_of_fails (.envelope (by rw [infinite]; rfl))
    exact ⟨s, _, w', launched, failed⟩

/-- The identity for pairs of numbers answers all of them. -/
theorem identity_total : identity.Total :=
  ⟨fun env _ => ⟨_, env, rfl⟩, fun env _ => ⟨_, env, rfl⟩, fun env _ => ⟨_, env, rfl⟩⟩

/-- The step that goes nowhere, with a value that is not a number. -/
noncomputable abbrev valueless : Prox Uses Exact := .limited 0 0 (some Scalar.undefined) prox

theorem valueless_answers (v : Vec Exact) (gamma : Exact) (u : Uses) :
    valueless.prox v gamma u = .ok (v, Scalar.undefined) (u.use 0) := by
  have late : decide (0 < (u.use 0).get 0) = true := decide_eq_true (Nat.succ_pos (u.get 0))
  have exceeds : Uses.exceeds 0 0 u = .ok true (u.use 0) := by
    change EStateM.Result.ok (decide (0 < (u.use 0).get 0)) (u.use 0) = _
    rw [late]
  change (Uses.exceeds 0 0 >>= _) u = _
  rw [bind_of_returns exceeds]
  rfl

theorem valueless_staysIn : valueless.StaysIn Plain.pair := by
  intro v γ p env env' fits _ returned
  cases (valueless_answers v _ env).symm.trans returned
  exact fits

/-- The first envelope is not a number, though the step size is known by then. -/
theorem breaks_at_start : ∃ d w', Solver.solve identity valueless (some Plain.start) config world =
    .error (.nonFinite .envelopeAtStart d) w' ∧ d.gamma = Scalar.undefined := by
  have fits : Plain.start.Fits Plain.pair :=
    startingPoint_fits Plain.start_finite Plain.start_accepted
  have positive : (0 : ℝ) < 1 / 2 := one_half_pos
  obtain ⟨s₁, env₁, evaluates⟩ := State.evaluate_answers (s := State.start Plain.start 0) meaning
    identity_total fits world.env
  have parts := State.evaluated_of_returns meaning evaluates fits
  obtain ⟨sigma, sized, set⟩ := State.setGamma_answers (s := s₁.markValid) positive
  obtain ⟨v, moved, _, _⟩ := parts.grad_fits.axpy (-(1 / 2)) parts.x_fits
  have stepped := valueless_answers v (.real (1 / 2)) env₁
  obtain ⟨fitsP, answered⟩ :=
    valueless_staysIn.answers positive parts.x_fits parts.grad_fits moved stepped
  obtain ⟨e, enveloped, _⟩ := parts.enveloped positive fitsP answered
  rw [← Exact.neg_real] at moved
  have steps := State.step_of_returns
    (s := { s₁.markValid with gamma := .real (1 / 2), sigma := sigma })
    (forwardBackwardStep_returns.mpr ⟨v, moved, stepped⟩) enveloped
  have infinite : Scalar.isFinite (e.bound + Scalar.undefined) = false :=
    Bool.eq_false_iff.mpr fun finite => nomatch (Floating.of_add finite).2
  have given : Solver.firstGamma config identity s₁.markValid ⟨env₁, world.notes⟩ =
      .ok (.real (1 / 2), s₁.markValid) ⟨env₁, world.notes⟩ := rfl
  have begins := Solver.begin_of_infinite evaluates parts.finite given set steps infinite
  have launched : Solver.launch identity valueless (some Plain.start) config world = _ := begins
  exact ⟨_, _, bind_of_fails launched _, (Solver.launch_breaks launched).2.2⟩

end Faulty

/-! ## What the failures tell -/

namespace Solver

section

variable (A : Operator σ R) (g : Prox σ R) (x0 : Option (Vec R)) (c : Config σ R) (w : World σ R)

/-- The failure tells the iteration in progress at `b`, where a check was not passed, and the step
size and the residual norm at `v`, where a check was passed for the last time. -/
structure Tells (what : Monitored) (d : Diagnostics R) (us : List (Snapshot σ R))
    (v : Snapshot σ R) (ts : List (Snapshot σ R)) (b : Snapshot σ R) : Prop where
  reached : Passes A g x0 c w us v
  passed : v.place.checked = true
  certified : Scalar.isFinite v.state.value = true
  between : ∀ t ∈ ts, t.place.checked = false
  breaks : Passes A g x0 c w (us ++ v :: ts) b
  fails : b.Fails what
  iteration : d.iteration = b.state.iteration
  in_progress : b.state.iteration = (us ++ v :: ts).countP fun t => t.place.isResting
  begun : 1 ≤ b.state.iteration
  gamma : d.gamma = v.state.gamma
  residual : d.residual = v.state.residual
  usable : Positive d.gamma
  finite : Scalar.isFinite d.residual = true

end

section Told

variable [Floating R] {o : Settings R} {halt : Option (Predicate σ R)} {x0 : Option (Vec R)}
  {w w₀ w' : World σ R} {s₀ : State R}

/-- Where a check has just been passed, the step size and the residual norm of the state are finite
and kept: the envelope vouches for the residual norm. -/
theorem Passes.keeps (checked : Config.ofSettings o halt = .ok c)
    (passes : Passes A g x0 c w vs b) (here : b.place.checked = true) :
    b.state.validGamma = b.state.gamma ∧ b.state.validResidual = b.state.residual ∧
      Positive b.state.gamma ∧ Scalar.isFinite b.state.residual = true := by
  obtain ⟨marked, value⟩ := passes.marked here
  have positive := passes.positive checked
  obtain ⟨_, _, _, _, _, enveloped⟩ := passes.forward
  obtain ⟨residual, _⟩ := numbers_of_envelope enveloped value
  exact ⟨State.validGamma_of_marked marked positive.finite,
    State.validResidual_of_marked marked residual, positive, residual⟩

theorem Passes.tells (checked : Config.ofSettings o halt = .ok c)
    (passes : Passes A g x0 c w vs b) (fails : b.Fails what) :
    ∃ us v ts, Tells A g x0 c w what b.state.lastValid us v ts b := by
  obtain ⟨unchecked, inside⟩ : b.place.checked = false ∧ b.place.isResting = false := by
    cases fails <;> exact ⟨rfl, rfl⟩
  obtain ⟨us, v, ts, rfl, reached, passed, between, gamma, residual⟩ :=
    passes.last_checked unchecked
  obtain ⟨validGamma, validResidual, usable, finite⟩ := reached.keeps checked passed
  have told : b.state.lastValid.gamma = v.state.gamma := gamma.trans validGamma
  have told' : b.state.lastValid.residual = v.state.residual := residual.trans validResidual
  exact ⟨us, v, ts, reached, passed, (reached.marked passed).2, between, passes, fails, rfl,
    passes.iteration_begun, passes.begun inside, told, told', told ▸ usable, told' ▸ finite⟩

/-- Inside the loop a failure of finiteness tells the iteration in progress, and the step size and
the residual norm of the moment when a check was last passed, both finite, whatever was tried
since. -/
theorem failure_tells_last_valid (checked : Config.ofSettings o halt = .ok c)
    (launched : launch A g x0 c w = .ok s₀ w₀)
    (failed : solve A g x0 c w = .error (.nonFinite what d) w') :
    ∃ us v ts b, Tells A g x0 c w what d us v ts b := by
  obtain ⟨vs, b, passes, fails, rfl⟩ := solve_breaks launched failed
  obtain ⟨us, v, ts, tells⟩ := passes.tells checked fails
  exact ⟨us, v, ts, b, tells⟩

/-- The third product of the run is spoilt: the failure is of the first iteration, and it tells the
step size and the residual norm of the launch. -/
theorem spoilt_product_tells_last_valid :
    (∃ o halt, Config.ofSettings o halt = .ok Faulty.config) ∧ ∃ s d w',
      launch Faulty.operator Faulty.prox (some Plain.start) Faulty.config Faulty.world =
        .ok s (Faulty.used 2) ∧
      solve Faulty.operator Faulty.prox (some Plain.start) Faulty.config Faulty.world =
        .error (.nonFinite .envelope d) w' ∧
      ∃ us v ts b, Tells Faulty.operator Faulty.prox (some Plain.start) Faulty.config Faulty.world
        .envelope d us v ts b := by
  obtain ⟨o, halt, checked⟩ := Faulty.config_checked
  obtain ⟨s, d, w', launched, failed⟩ := Faulty.breaks
  exact ⟨⟨o, halt, checked⟩, s, d, w', launched, failed,
    failure_tells_last_valid checked launched failed⟩

/-- A failure of finiteness behind the first envelope tells a step size, finite and positive.  One
at the starting point tells none, the one of the first envelope included. -/
theorem failure_tells_stepSize (checked : Config.ofSettings o halt = .ok c)
    (failed : solve A g x0 c w = .error (.nonFinite what d) w') :
    (what = .smoothTermAtStart ∨ what = .envelopeAtStart) ∧ d.iteration = 0 ∧
        d.gamma = Scalar.undefined ∨
      (what = .envelope ∨ what = .smoothTermOrEnvelope) ∧ 1 ≤ d.iteration ∧ Positive d.gamma := by
  cases launched : launch A g x0 c w with
  | error e w₁ =>
      have same : solve A g x0 c w = .error e w₁ := bind_of_fails launched _
      cases same.symm.trans failed
      exact .inl (launch_breaks launched)
  | ok s₀ w₀ =>
      obtain ⟨vs, b, passes, fails, rfl⟩ := solve_breaks launched failed
      obtain ⟨us, v, ts, tells⟩ := passes.tells checked fails
      refine .inr ⟨?_, Int.ofNat_le.mpr tells.begun, tells.usable⟩
      cases fails with
      | envelope => exact .inl rfl
      | smoothTermOrEnvelope => exact .inr rfl

/-- The run whose third product is spoilt fails in its first iteration. -/
theorem spoilt_product_tells_stepSize :
    (∃ o halt, Config.ofSettings o halt = .ok Faulty.config) ∧ ∃ d w',
      solve Faulty.operator Faulty.prox (some Plain.start) Faulty.config Faulty.world =
        .error (.nonFinite .envelope d) w' ∧ 1 ≤ d.iteration ∧ Positive d.gamma := by
  obtain ⟨o, halt, checked⟩ := Faulty.config_checked
  obtain ⟨_, d, w', _, failed⟩ := Faulty.breaks
  refine ⟨⟨o, halt, checked⟩, d, w', failed, ?_⟩
  rcases failure_tells_stepSize checked failed with ⟨early | early, _⟩ | ⟨_, told⟩
  · cases early
  · cases early
  · exact told

/-- The step size is `1 / 2`, and the failure of the first envelope does not tell it. -/
theorem first_envelope_tells_none :
    (∃ o halt, Config.ofSettings o halt = .ok Faulty.config) ∧
      Faulty.config.stepSize = some (.real (1 / 2)) ∧ ∃ d w',
        solve Faulty.identity Faulty.valueless (some Plain.start) Faulty.config Faulty.world =
          .error (.nonFinite .envelopeAtStart d) w' ∧ ¬Positive d.gamma := by
  obtain ⟨d, w', failed, undefined⟩ := Faulty.breaks_at_start
  refine ⟨Faulty.config_checked, rfl, d, w', failed, fun positive => ?_⟩
  have finite := positive.finite
  rw [undefined] at finite
  cases finite

end Told

end Solver

end ForwardBackward
