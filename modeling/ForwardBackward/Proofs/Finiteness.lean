/-
# ForwardBackward.Proofs.Finiteness -- nothing that is not finite gets out

A run tests three numbers and one vector: the smooth term and the gradient where it
has evaluated them, and the envelope.  In an arithmetic where what is not finite
stays visible (`Floating`) that is enough.  Wherever a run is asked to stop, all
that the predicate can see of the iterate is finite (`Passes.finite`), because the
envelope vouches for the residual, and the residual for the iterate and its step;
and the step size is positive, because a run that halves it to zero divides by it
(`Turn.positive`).

The operator and the proximal step may answer what they like, at any call, as long
as it has the shapes of the structures that the operator declares.
-/
import ForwardBackward.Proofs.Attribution
import ForwardBackward.Proofs.Catalogue
import ForwardBackward.Proofs.Floating
import ForwardBackward.Proofs.Multiples

namespace ForwardBackward

set_option autoImplicit false

variable {σ R : Type} [Scalar R] [Floating R] {c : Config σ R} {A : Operator σ R} {g : Prox σ R}
  {b d : Snapshot σ R} {vs : List (Snapshot σ R)}

/-! ## The step size -/

/-- A step size that can be used. -/
structure Positive (gamma : R) : Prop where
  finite : Scalar.isFinite gamma = true
  above : Scalar.lt 0 gamma = true

omit [Floating R] in
theorem State.Curved.divides {gamma residual bound : R} (curved : Curved gamma residual bound) :
    Scalar.eq (2 * gamma) 0 = false := by
  obtain ⟨_, _, _, _, divided, _⟩ := curved
  unfold Scalar.quotient at divided
  split at divided
  · cases divided
  · next nonzero => exact Bool.eq_false_iff.mpr nonzero

/-- A step size that was halved to zero does not get through the division by it. -/
theorem Positive.halve {gamma : R} (positive : Positive gamma)
    (nonzero : Scalar.eq (2 * (gamma * 0.5)) 0 = false) : Positive (gamma * 0.5) := by
  obtain ⟨finite, above | zero⟩ := Floating.half positive.finite positive.above
  · exact ⟨finite, above⟩
  · cases zero.symm.trans nonzero

theorem Turn.positive (positive : Positive b.state.gamma) (turn : Turn c b d) :
    Positive d.state.gamma := by
  cases turn with
  | halve _ curved => exact positive.halve curved.divides
  | search | skip | bounded | unbounded | settle | aim | depart | accept | reject | exhaust
  | approve => exact positive

/-- The first step size is the one of the options, or it is estimated. -/
theorem firstGamma_usable {o : Settings R} {halt : Option (Predicate σ R)}
    (checked : Config.ofSettings o halt = .ok c) {s s' : State R} {w w' : World σ R} {gamma : R}
    (returned : Solver.firstGamma c A s w = .ok (gamma, s') w') : Positive gamma := by
  rcases Solver.firstGamma_returns returned with
    ⟨given, _⟩ | ⟨_, _, _, rfl | ⟨lipschitz, eps, spacing, finite, above, rfl⟩⟩
  · obtain ⟨above, finite⟩ := Config.stepSize_accepts checked given
    exact ⟨finite, above⟩
  · obtain ⟨finite, above⟩ := Floating.one_above (R := R) (p := .double)
    obtain ⟨finite, above⟩ := Floating.inverse finite above
    exact ⟨finite, above⟩
  · obtain ⟨p, rfl⟩ := Vec.machineEps_accepts spacing
    obtain ⟨finite, above⟩ := Floating.inverse finite above
    exact ⟨finite, above⟩

theorem launch_positive {o : Settings R} {halt : Option (Predicate σ R)}
    (checked : Config.ofSettings o halt = .ok c) {x0 : Option (Vec R)} {s : State R}
    {w w' : World σ R} (launched : Solver.launch A g x0 c w = .ok s w') : Positive s.gamma := by
  obtain ⟨_, _, _, _, gamma, _, _, s₃, s₄, _, _, _, sizes, set, steps, _, rfl⟩ :=
    Solver.launch_returns launched
  obtain ⟨_, _, rfl⟩ := State.setGamma_accepts.mp set
  obtain ⟨_, _, _, _, _, _, rfl⟩ := State.step_frame steps
  have positive : Positive gamma := firstGamma_usable checked sizes
  exact positive

/-! ## Where a run is asked to stop -/

/-- What a predicate can see of the iterate is finite, and the step size can be used. -/
structure State.Finite (s : State R) : Prop where
  x : s.x.allFinite = true
  xbar : s.xbar.allFinite = true
  r : s.r.allFinite = true
  grad : s.grad.allFinite = true
  fx : Scalar.isFinite s.fx = true
  bound : Scalar.isFinite s.bound = true
  gxbar : Scalar.isFinite s.gxbar = true
  residual : Scalar.isFinite s.residual = true
  gamma : Positive s.gamma

/-- The numbers and the vector that a run tests at the end of an iteration. -/
def State.Approved (s : State R) : Prop :=
  Scalar.isFinite s.fx = true ∧ s.grad.allFinite = true ∧ Scalar.isFinite s.value = true

omit [Floating R] in
theorem Turn.approved (turn : Turn c b d) (resting : d.place = .resting) :
    d.state.Approved := by
  cases turn with
  | approve finite =>
      simp only [Bool.and_eq_true] at finite
      exact ⟨finite.1.1, finite.1.2, finite.2⟩
  | search | skip | bounded | halve | unbounded | settle | aim | depart | accept | reject
  | exhaust => cases resting

omit [Floating R] in
theorem launch_approved {x0 : Option (Vec R)} {s : State R} {w w' : World σ R}
    (launched : Solver.launch A g x0 c w = .ok s w') : s.Approved := by
  obtain ⟨_, _, s₁, _, _, s₂, _, s₃, s₄, _, _, _, sizes, set, steps, ⟨smooth, value⟩, rfl⟩ :=
    Solver.launch_returns launched
  obtain rfl := Solver.firstGamma_frame sizes
  obtain ⟨_, _, rfl⟩ := State.setGamma_accepts.mp set
  obtain ⟨_, _, _, _, _, _, rfl⟩ := State.step_frame steps
  rw [Bool.and_eq_true] at smooth
  exact ⟨smooth.1, smooth.2, value⟩

namespace Solver

variable {x0 : Option (Vec R)} {w : World σ R}

theorem Passes.positive {o : Settings R} {halt : Option (Predicate σ R)}
    (checked : Config.ofSettings o halt = .ok c) (passes : Passes A g x0 c w vs b) :
    Positive b.state.gamma := by
  obtain ⟨s₀, w₀, limit, launched, _, course⟩ := passes
  exact course.invariant (P := fun v => Positive v.state.gamma)
    (fun _ _ positive step => step.turn.positive positive) (launch_positive checked launched)

omit [Floating R] in
theorem Passes.approved (passes : Passes A g x0 c w vs b) (resting : b.place = .resting) :
    b.state.Approved := by
  obtain ⟨s₀, w₀, limit, launched, _, course⟩ := passes
  refine course.invariant (P := fun v => v.place = .resting → v.state.Approved)
    (fun _ _ _ step => step.turn.approved) ?_ resting
  exact fun _ => launch_approved launched

/-- A finite envelope vouches for the iterate and its step, wherever a run is. -/
theorem Passes.vouches (hA : A.Shaped) (hg : Prox.Shaped A.domain g)
    (passes : Passes A g x0 c w vs b) (value : Scalar.isFinite b.state.value = true) :
    b.state.x.allFinite = true ∧ b.state.xbar.allFinite = true ∧ b.state.r.allFinite = true ∧
      Scalar.isFinite b.state.residual = true ∧ Scalar.isFinite b.state.bound = true ∧
      Scalar.isFinite b.state.gxbar = true := by
  obtain ⟨v, env, env', _, _, enveloped⟩ := passes.forward
  obtain ⟨hx, _, hxbar⟩ := passes.shaped hA hg
  exact finite_of_envelope hx hxbar enveloped value

theorem Passes.finite (hA : A.Shaped) (hg : Prox.Shaped A.domain g) {o : Settings R}
    {halt : Option (Predicate σ R)} (checked : Config.ofSettings o halt = .ok c)
    (passes : Passes A g x0 c w vs b) (resting : b.place = .resting) : b.state.Finite := by
  obtain ⟨fx, grad, value⟩ := passes.approved resting
  obtain ⟨x, xbar, r, residual, bound, gxbar⟩ := passes.vouches hA hg value
  exact ⟨x, xbar, r, grad, fx, bound, gxbar, residual, passes.positive checked⟩

end Solver

/-! ## The result -/

/-- The operator that multiplies keeps all shapes. -/
theorem Operator.multiple_shaped (S : Structure) (a : ℝ) : (multiple S a).Shaped := by
  have scaled : ∀ {x y : Vec Exact} {env env' : Unit}, x.Shaped S →
      (pure (x.scale (.real a)) : Call Unit (Vec Exact)) env = .ok y env' → y.Shaped S := by
    intro x y env env' hx answered
    obtain ⟨rfl, _⟩ := pure_returns.mp answered
    exact hx.map fun _ => rfl
  exact ⟨scaled, scaled, scaled⟩

/-- Before the first record there is no cost. -/
def Snapshot.Unpriced (v : Snapshot σ R) : Prop :=
  v.place.pending ≤ v.state.iteration ∧
    (v.state.iteration = 0 → v.state.cost = Scalar.undefined)

omit [Floating R] in
theorem Turn.unpriced (unpriced : b.Unpriced) (turn : Turn c b d) : d.Unpriced := by
  obtain ⟨begun, none⟩ := unpriced
  cases turn with
  | search | skip => exact ⟨Nat.succ_le_succ (Nat.zero_le _), nofun⟩
  | bounded | halve | unbounded => exact ⟨begun, none⟩
  | @settle _ _ s =>
      have positive : 1 ≤ s.iteration := begun
      exact ⟨positive, fun zero => absurd zero (Nat.ne_of_gt positive)⟩
  | aim | depart | accept | reject | exhaust | approve => exact ⟨Nat.zero_le _, none⟩

/-- A result without anything that is not finite, but for the cost of a run without iterations. -/
structure Result.Finite (r : Result R) : Prop where
  x : r.x.allFinite = true
  residual : Scalar.isFinite r.residual = true
  gamma : Positive r.gamma
  cost_isNaN : Scalar.isNaN r.cost = true ↔ r.iterations = 0
  cost : r.iterations ≠ 0 →
    ∃ f G, Scalar.isFinite f = true ∧ Scalar.isFinite G = true ∧ r.cost = f + G

namespace Solver

variable {x0 : Option (Vec R)} {w : World σ R}

omit [Floating R] in
theorem Passes.unpriced (passes : Passes A g x0 c w vs b) : b.Unpriced := by
  obtain ⟨s₀, w₀, limit, launched, _, course⟩ := passes
  exact course.invariant (P := Snapshot.Unpriced)
    (fun _ _ unpriced step => step.turn.unpriced unpriced)
    ⟨Nat.zero_le _, fun _ => (launch_fresh launched).2.2⟩

/-- The cost is that of the last record, a sum of two finite numbers. -/
theorem Passes.cost_finite (hA : A.Shaped) (hg : Prox.Shaped A.domain g)
    (passes : Passes A g x0 c w vs b) (resting : b.place = .resting)
    (begun : b.state.iteration ≠ 0) :
    ∃ f G, Scalar.isFinite f = true ∧ Scalar.isFinite G = true ∧ b.state.cost = f + G := by
  obtain ⟨us, v, ws, _, before, _, records, _⟩ := passes.records resting begun
  obtain ⟨smooth, value⟩ := records.finite
  obtain ⟨_, _, _, _, _, regular⟩ := before.vouches hA hg value
  exact ⟨_, _, smooth, regular, records.cost⟩

/-- Nothing that is not finite gets out of a run, whatever the operator and the proximal step
answer in vectors of their structures, and whatever the starting point is.

* Wherever the run is asked to stop, the iterate, its step, the residual, the gradient, the
  smooth term, the quadratic model and the regularizer are finite.
* If it returns, the final point, the residual norm and the step size are finite, the step size is
  positive, and the cost is undefined if there was no iteration, and otherwise the sum of two
  finite numbers. -/
theorem nothing_leaks {o : Settings R} {halt : Option (Predicate σ R)} (hA : A.Shaped)
    (hg : Prox.Shaped A.domain g) (checked : Config.ofSettings o halt = .ok c) :
    (∀ vs b, Passes A g x0 c w vs b → b.place = .resting → b.state.Finite) ∧
    ∀ r w', solve A g x0 c w = .ok r w' → r.Finite := by
  refine ⟨fun vs b passes => passes.finite hA hg checked, fun r w' returned => ?_⟩
  obtain ⟨vs, b, status, passes, resting, rfl⟩ := passes_of_solve returned
  have finite := passes.finite hA hg checked resting
  refine ⟨finite.xbar, finite.residual, finite.gamma, ⟨fun undefined => ?_, fun zero => ?_⟩,
    passes.cost_finite hA hg resting⟩
  · by_contra begun
    obtain ⟨f, G, smooth, regular, cost⟩ := passes.cost_finite hA hg resting begun
    change Scalar.isNaN b.state.cost = true at undefined
    rw [cost, Floating.add_isNaN smooth regular] at undefined
    cases undefined
  · change Scalar.isNaN b.state.cost = true
    rw [passes.unpriced.2 zero]
    exact Floating.undefined_isNaN

/-- A run that returns with two finite entries. -/
theorem plain_nothing_leaks :
    (∃ vs b, Plain.Passes vs b ∧ b.place = .resting ∧ b.state.Finite) ∧
    ∃ r w', solve Plain.operator Plain.prox (some Plain.start) (Plain.config (1 / 2)) Plain.world =
      .ok r w' ∧ r.Finite := by
  obtain ⟨o, halt, checked⟩ := Plain.config_checked one_half_pos
  have shaped : Plain.operator.Shaped := Operator.multiple_shaped Plain.pair 1
  have steps : Prox.Shaped Plain.pair Plain.prox := Regularizer.shaped (g := .zero) trivial
  obtain ⟨r, w', returned⟩ := Plain.returns one_half_pos
  obtain ⟨vs, b, _, passes, resting, _⟩ := passes_of_solve returned
  exact ⟨⟨vs, b, passes, resting, (nothing_leaks shaped steps checked).1 vs b passes resting⟩,
    r, w', returned, (nothing_leaks shaped steps checked).2 r w' returned⟩

end Solver

end ForwardBackward
