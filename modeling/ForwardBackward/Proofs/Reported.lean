/-
# ForwardBackward.Proofs.Reported -- what a run says about its iterates

An iteration records the envelope and the cost behind its search for a step size,
and the search along the direction moves the iterate afterwards.  Nothing is
recorded at the new iterate before the next iteration is on its way.

* A predicate is given the envelope of the iterate that the consultation before was
  about (`Solver.recorded_lags`); only the first one is given that of the iterate it
  sees.
* The cost of a result is that of the point from which the last search along a
  direction started (`Solver.cost_of_anchor`), and not of the point that the run
  returns.

Poles: in the plain problem every iteration divides the iterate by four
(`Plain.slides`), so both numbers are of another point than the one they come with
(`Solver.plain_recorded_stale`, `Solver.plain_cost_elsewhere`).
-/
import ForwardBackward.Proofs.Accounting
import ForwardBackward.Proofs.Attribution
import ForwardBackward.Proofs.Finiteness

namespace ForwardBackward

set_option autoImplicit false

open Snapshot (halvings)
open scoped InnerProductSpace

/-! ## The envelope that a predicate is given -/

section Envelopes

variable {σ R : Type} [Scalar R] {c : Config σ R} {A : Operator σ R} {g : Prox σ R}
  {a b : Snapshot σ R} {vs : List (Snapshot σ R)}

/-- The number `E` is the envelope at the iterate of `s`, for the step and the step size of `t`. -/
def State.EnvelopeOf (s t : State R) (E : R) : Prop :=
  ∃ e, envelope s.x t.xbar t.gxbar s.fx s.grad t.gamma = .ok e ∧ e.value = E

theorem State.Forward.envelopeOf {s : State R} (forward : s.Forward g) :
    s.EnvelopeOf s s.value := by
  obtain ⟨_, _, _, _, _, enveloped⟩ := forward
  exact ⟨_, enveloped, rfl⟩

/-- Before the first iteration a run does not move. -/
theorem Course.at_start (course : Course c A g a vs b) (resting : a.place = .resting)
    (zero : b.state.iteration = 0) : b = a := by
  induction course with
  | stay => rfl
  | move _ step ih =>
      cases step.turn with
      | search | skip => cases zero
      | bounded | halve | unbounded | settle | aim | depart | accept | reject | exhaust | approve =>
          obtain rfl := ih zero
          cases resting

namespace Solver

variable {x0 : Option (Vec R)} {w : World σ R}

/-- The envelope recorded at `b` is the one at the iterate of the consultation `a` before, at the
step size `v` of the iteration, and the one before it is what was recorded at `a`.  If the step
size was not halved, it is the number that the predicate could see at `a`. -/
def Lags (A : Operator σ R) (g : Prox σ R) (x0 : Option (Vec R)) (c : Config σ R) (w : World σ R)
    (vs : List (Snapshot σ R)) (b : Snapshot σ R) : Prop :=
  ∃ us a ws v ts, vs = us ++ ws ++ ts ∧ Passes A g x0 c w us a ∧ Course c A g a ws v ∧
    Course c A g v ts b ∧ a.place = .resting ∧ b.state.iteration = a.state.iteration + 1 ∧
    v.isRecorded = true ∧ a.state.EnvelopeOf v.state b.state.recorded ∧
    b.state.recordedPrev = a.state.recorded ∧
    (halvings ws = 0 → b.state.recorded = a.state.value)

/-- What a predicate is given for the envelope, in every arithmetic and whatever the operator and
the proximal step answer.

* The bound and the regularizer that it sees make up the envelope at the iterate that it sees.
* Before the first iteration the recorded envelope is that one, and there is none before it.
* Behind an iteration both recorded envelopes are one consultation behind. -/
theorem recorded_lags (passes : Passes A g x0 c w vs b) (resting : b.place = .resting) :
    b.state.EnvelopeOf b.state b.state.value ∧
    (b.state.iteration = 0 →
      b.state.recorded = b.state.value ∧ b.state.recordedPrev = Scalar.undefined) ∧
    (b.state.iteration ≠ 0 → Lags A g x0 c w vs b) := by
  refine ⟨passes.forward.envelopeOf, fun zero => ?_, fun begun => ?_⟩
  · obtain ⟨s₀, w₀, limit, launched, _, course⟩ := passes
    obtain rfl := course.at_start rfl zero
    obtain ⟨recorded, previous, _⟩ := launch_fresh launched
    exact ⟨recorded, previous⟩
  · obtain ⟨us, v, ts, rfl, before, since, records, _⟩ := passes.records resting begun
    obtain ⟨us, a, ws, rfl, first, course, began⟩ := before.began records.recorded
    refine ⟨us, a, ws, v, ts, rfl, first, course, since, began.resting,
      records.iteration.trans began.iteration, records.recorded, ?_,
      records.previous.trans began.previous,
      fun unhalved => records.envelope.trans (began.unhalved unhalved)⟩
    obtain ⟨e, enveloped, value⟩ := before.forward.envelopeOf
    obtain ⟨x, fx, grad⟩ := began.iterate
    rw [x, fx, grad] at enveloped
    exact ⟨e, enveloped, value.trans records.envelope.symm⟩

end Solver

end Envelopes

/-! ## The plain problem, iteration by iteration -/

namespace Plain

variable {vs : List (Snapshot Unit Exact)} {b d : Snapshot Unit Exact}

theorem gradient_eq (x : pair.Space) : meaning.gradient x = x := by
  change (1 : ℝ) • (1 : ℝ) • x = x
  rw [one_smul, one_smul]

section Steps

variable {γ : ℝ} {x ax grad xbar r : Vec Exact} {fx gxbar residual bound : Exact}

/-- The gradient at a point is the point. -/
theorem grad_of_evaluated (evaluated : Evaluated meaning x ax fx grad) :
    grad.point pair = x.point pair := by
  have gradient : grad.point pair = meaning.adjoint (ax.point pair) := evaluated.gradient
  have image : ax.point pair = meaning.map (x.point pair) := evaluated.image
  rw [gradient, image]
  exact gradient_eq _

/-- A step of the size `γ` goes that part of the way to zero. -/
theorem xbar_of_stepped (evaluated : Evaluated meaning x ax fx grad)
    (stepped : Stepped prox pair γ x fx grad xbar gxbar r residual bound) :
    xbar.point pair = (1 - γ) • x.point pair := by
  have step : xbar.point pair = x.point pair - γ • grad.point pair := stepped.step.of_zero.1
  rw [step, grad_of_evaluated evaluated]
  module

theorem residual_of_stepped (evaluated : Evaluated meaning x ax fx grad)
    (stepped : Stepped prox pair γ x fx grad xbar gxbar r residual bound) :
    r.point pair = γ • x.point pair := by
  have difference : r.point pair = x.point pair - xbar.point pair := stepped.difference
  rw [difference, xbar_of_stepped evaluated stepped]
  module

/-- The envelope for a step of the size `γ`, a multiple of the squared norm. -/
theorem value_of_stepped (evaluated : Evaluated meaning x ax fx grad)
    (stepped : Stepped prox pair γ x fx grad xbar gxbar r residual bound) :
    bound + gxbar = .real ((1 - γ) / 2 * ‖x.point pair‖ ^ 2) := by
  obtain ⟨f, smooth, model⟩ := stepped.model
  have start : f = 1 / 2 * ‖x.point pair‖ ^ 2 := by
    have image : meaning.map (x.point pair) = x.point pair := one_smul ℝ _
    rw [← image]
    exact Exact.real.inj (smooth.symm.trans evaluated.smooth_eq)
  have regular : gxbar = 0 := stepped.step.of_zero.2
  have quadratic : bound =
      .real (f - ⟪grad.point pair, r.point pair⟫_ℝ + ‖r.point pair‖ ^ 2 / (2 * γ)) := model
  rw [quadratic, regular, Exact.zero_eq, Exact.real_add, start, grad_of_evaluated evaluated,
    residual_of_stepped evaluated stepped, real_inner_smul_right, real_inner_self_eq_norm_sq,
    norm_smul, mul_pow, Real.norm_eq_abs, sq_abs]
  congr 1
  field_simp
  ring

end Steps

/-- A step goes half the way to zero. -/
theorem xbar_eq (glides : b.Glides meaning (1 / 2)) :
    b.state.xbar.point pair = (1 / 2 : ℝ) • b.state.x.point pair := by
  obtain ⟨sound, _⟩ := glides.kept.sound glides.sized
  rw [xbar_of_stepped sound.evaluated sound.stepped]
  norm_num

/-- The envelope is a quarter of the squared norm. -/
theorem value_eq (glides : b.Glides meaning (1 / 2)) :
    b.state.value = .real (1 / 4 * ‖b.state.x.point pair‖ ^ 2) := by
  obtain ⟨sound, _⟩ := glides.kept.sound glides.sized
  rw [State.value, value_of_stepped sound.evaluated sound.stepped]
  norm_num

/-- Where an iterate and the step from it are: an iteration halves twice, first by a step and then by
the search along the direction. -/
def Slides (s : State Exact) : Place Exact → Prop
  | .resting => s.x.point pair = ((1 / 2) ^ (2 * s.iteration) : ℝ) • start.point pair ∧
      (s.iteration ≠ 0 → s.x.point pair = (1 / 2 : ℝ) • s.xbarPrev.point pair)
  | .searchingGamma _ | .measured _ | .recorded _ =>
      s.x.point pair = (2 * 2 * (1 / 2) ^ (2 * s.iteration) : ℝ) • start.point pair
  | .aimed | .searchingTau _ _ _ =>
      s.xbarPrev.point pair = (2 * (1 / 2) ^ (2 * s.iteration) : ℝ) • start.point pair
  | .moved _ =>
      s.xbarPrev.point pair = (2 * (1 / 2) ^ (2 * s.iteration) : ℝ) • start.point pair ∧
      s.x.point pair = (1 / 2 : ℝ) • s.xbarPrev.point pair

theorem trial_eq {s s' : State Exact} {env env' : Unit}
    (anchored : Anchored meaning prox (1 / 2) s.xbarPrev s.rbarPrev s.axbar s.gradbar)
    (directed : Directed meaning s.d s.ld s.lld) (direction : s.d = s.rbarPrev.scale (-1))
    (tried : s.tauTrial prox 1 env = .ok s' env') :
    s'.iteration = s.iteration ∧ s'.xbarPrev = s.xbarPrev ∧
      s'.x.point pair = (1 / 2 : ℝ) • s.xbarPrev.point pair := by
  obtain ⟨x, _, _, _, moved, _, _, _, stepped⟩ := State.tauTrial_returns tried
  have point : x.point pair = (1 / 2 : ℝ) • s.xbarPrev.point pair := by
    refine (anchored.gradient_trial directed direction moved).trans ?_
    change s.xbarPrev.point pair - (1 / 2 : ℝ) • (1 : ℝ) • (1 : ℝ) • s.xbarPrev.point pair = _
    module
  obtain ⟨_, _, _, _, _, _, rfl⟩ := State.step_frame stepped
  exact ⟨rfl, rfl, point⟩

theorem slides_of_move {c : Config Unit Exact} (glides : b.Glides meaning (1 / 2))
    (slides : Slides b.state b.place) (step : Move c operator prox b d) :
    Slides d.state d.place := by
  have half := xbar_eq glides
  obtain ⟨_, holds⟩ := glides.kept.sound glides.sized
  have place := glides.place
  cases step with
  | search _ called | skip _ called =>
      obtain ⟨_, evaluated, rfl⟩ := Run.call_returns.mp called
      obtain ⟨_, _, _, _, rfl⟩ := State.evaluateStep_returns evaluated
      refine slides.1.trans ?_
      change _ = (2 * 2 * (1 / 2) ^ (2 * (_ + 1)) : ℝ) • start.point pair
      rw [mul_add, pow_add]
      congr 1
      ring
  | bounded | unbounded => exact slides
  | halve _ called =>
      obtain ⟨_, tried, rfl⟩ := Run.call_returns.mp called
      obtain ⟨_, _, _, _, _, _, _, _, rfl⟩ := State.gammaTrial_frame tried
      exact slides
  | settle _ settled =>
      obtain ⟨_, _, rfl⟩ := Solver.settle_returns settled
      exact slides
  | aim called =>
      obtain ⟨_, aimed, rfl⟩ := Run.call_returns.mp called
      obtain ⟨_, _, _, _, _, rfl⟩ := Solver.aim_frame aimed
      refine half.trans ?_
      rw [show _ = _ from slides, smul_smul]
      congr 1
      ring
  | depart _ called _ =>
      obtain ⟨_, evaluated, rfl⟩ := Run.call_returns.mp called
      obtain ⟨_, _, _, _, _, rfl⟩ := State.evaluateDirection_returns evaluated
      exact slides
  | accept called _ =>
      obtain ⟨_, tried, rfl⟩ := Run.call_returns.mp called
      obtain ⟨_, rfl, direction, _⟩ := place
      obtain ⟨anchored, directed, _⟩ := holds
      obtain ⟨iteration, anchor, moved⟩ := trial_eq anchored directed direction tried
      refine ⟨?_, anchor ▸ moved⟩
      rw [iteration, anchor]
      exact slides
  | reject called _ =>
      obtain ⟨_, tried, rfl⟩ := Run.call_returns.mp called
      obtain ⟨_, _, _, _, _, _, _, _, _, _, rfl⟩ := State.tauTrial_frame tried
      exact slides
  | exhaust => exact absurd place.1 (lt_irrefl 0)
  | approve _ approved =>
      obtain ⟨_, rfl, _⟩ := Solver.approve_returns.mp approved
      obtain ⟨anchor, moved⟩ := slides
      have half (n : ℕ) : (1 / 2 * (2 * (1 / 2) ^ n) : ℝ) = (1 / 2) ^ n := by ring
      refine ⟨moved.trans ?_, fun _ => moved⟩
      rw [anchor, smul_smul, half]
      rfl

theorem start_ne_zero : start.point pair ≠ 0 := by
  intro zero
  have first := congrFun (congrArg WithLp.ofLp zero) ⟨0, Nat.two_pos⟩
  rw [start, (pair_denotes _ _).point_eq] at first
  norm_num [pointOf] at first

/-- Every iteration of the plain problem divides the iterate by four, whatever the options are that
a run stops and reports by. -/
theorem slides_of_passes {c : Config Unit Exact} (checked : c.Checked)
    (given : c.stepSize = some (.real (1 / 2))) (slots : c.memory.slots = .ok 0)
    (passes : Solver.Passes operator prox (some start) c world vs b) :
    b.Glides meaning (1 / 2) ∧ Slides b.state b.place := by
  obtain ⟨s₀, w₀, limit, launched, budget, course⟩ := passes
  have first : Solver.Passes operator prox (some start) c world [] (.first limit s₀ w₀) :=
    ⟨s₀, w₀, limit, launched, budget, .stay⟩
  obtain ⟨zero, _, _, started⟩ := Solver.launch_starts launched
  refine course.invariant (P := fun v => v.Glides meaning (1 / 2) ∧ Slides v.state v.place)
    (fun _ _ known step => ⟨step.glides smooth (by norm_num) checked known.1,
      slides_of_move known.1 known.2 step⟩)
    ⟨first.glides smooth (by norm_num) checked given slots start_finite, ?_,
      fun begun => absurd zero begun⟩
  have same : s₀.x = start := Except.ok.inj (started.symm.trans start_accepted)
  change s₀.x.point pair = ((1 / 2) ^ (2 * s₀.iteration) : ℝ) • start.point pair
  rw [same, zero, mul_zero, pow_zero, one_smul]

theorem slides (passes : Passes vs b) : Slides b.state b.place :=
  (slides_of_passes (config_checked one_half_pos) rfl rfl passes).2

/-- Behind an iteration the iterate is a quarter of the one whose envelope is recorded. -/
theorem quarters (passes : Passes vs b) (resting : b.place = .resting)
    (begun : b.state.iteration ≠ 0) : ∃ us v, Passes us v ∧ v.Records b ∧
      v.state.x.point pair ≠ 0 ∧
      b.state.x.point pair = (1 / 4 : ℝ) • v.state.x.point pair := by
  obtain ⟨us, v, _, _, before, _, records, anchor⟩ := passes.records resting begun
  obtain ⟨found, here⟩ := Snapshot.isRecorded_iff.mp records.recorded
  have place := slides before
  rw [here] at place
  have nonzero : v.state.x.point pair ≠ 0 := by
    rw [show v.state.x.point pair = _ from place]
    exact smul_ne_zero (by positivity) start_ne_zero
  have moved := slides passes
  rw [resting] at moved
  refine ⟨us, v, before, records, nonzero, ?_⟩
  rw [moved.2 begun, anchor, xbar_eq (glides before)]
  module

theorem norm_quarter (x : pair.Space) : ‖(1 / 4 : ℝ) • x‖ ^ 2 = 1 / 16 * ‖x‖ ^ 2 := by
  rw [norm_smul, mul_pow, Real.norm_eq_abs, sq_abs]
  norm_num

/-- The second time that the predicate is asked. -/
theorem asks_again : ∃ vs b, Passes vs b ∧ b.place = .resting ∧ b.state.iteration = 1 ∧
    b.left = 1 := by
  obtain ⟨r, w', returned⟩ := returns one_half_pos
  have two := Solver.plain_iterations returned
  obtain ⟨vs, b, status, passes, resting, rfl⟩ := Solver.passes_of_solve returned
  have second : b.state.iteration = 2 := two
  obtain ⟨us, v, _, _, before, _, records, _⟩ := passes.records resting (by omega)
  obtain ⟨us, a, _, _, first, _, began⟩ := before.began records.recorded
  have one : a.state.iteration = 1 := by
    have counts := records.iteration.symm.trans second
    rw [began.iteration] at counts
    omega
  refine ⟨us, a, first, began.resting, one, ?_⟩
  obtain ⟨s₀, w₀, limit, launched, budget, course⟩ := first
  cases budget
  have counts : a.state.iteration + a.left = s₀.iteration + 2 := course.left_eq
  rw [one, (Solver.launch_starts launched).1] at counts
  omega

end Plain

namespace Solver

/-- The second consultation of the plain problem lags behind. -/
theorem plain_recorded_lags : ∃ vs b, Plain.Passes vs b ∧ b.place = .resting ∧
    b.state.iteration = 1 ∧ b.state.EnvelopeOf b.state b.state.value ∧
    Lags Plain.operator Plain.prox (some Plain.start) (Plain.config (1 / ((2 : ℕ) : ℝ))) Plain.world
      vs b := by
  obtain ⟨vs, b, passes, resting, one, _⟩ := Plain.asks_again
  obtain ⟨current, _, lags⟩ := recorded_lags passes resting
  exact ⟨vs, b, passes, resting, one, current, lags (by omega)⟩

/-- The second time that the predicate of the plain problem is asked, the recorded envelope is not
that of the iterate it sees; and the recorded envelopes do not differ, although the iterate has
moved. -/
theorem plain_recorded_stale : ∃ vs b, Plain.Passes vs b ∧ b.place = .resting ∧ b.left = 1 ∧
    b.state.iteration = 1 ∧ b.state.recorded ≠ b.state.bound + b.state.gxbar ∧
    b.state.recordedPrev = b.state.recorded := by
  obtain ⟨vs, b, passes, resting, one, left⟩ := Plain.asks_again
  have begun : b.state.iteration ≠ 0 := by omega
  refine ⟨vs, b, passes, resting, left, one, fun same => ?_, ?_⟩
  · obtain ⟨us, v, before, records, nonzero, quarter⟩ := Plain.quarters passes resting begun
    have values : v.state.value = b.state.value := records.envelope.symm.trans same
    rw [Plain.value_eq (Plain.glides before), Plain.value_eq (Plain.glides passes), quarter,
      Plain.norm_quarter] at values
    have equal := Exact.real.inj values
    have positive : 0 < ‖v.state.x.point Plain.pair‖ ^ 2 := by positivity
    linarith
  · obtain ⟨us, v, _, _, before, _, records, _⟩ := passes.records resting begun
    obtain ⟨us, a, ws, _, first, course, began⟩ := before.began records.recorded
    have unhalved : halvings ws = 0 := List.countP_eq_zero.mpr fun u inside =>
      Bool.eq_false_iff.mp
        ((Plain.glides_visited first course u inside).unhalved Plain.smooth (by norm_num))
    have zero : a.state.iteration = 0 := by
      have counts := records.iteration.symm.trans one
      rw [began.iteration] at counts
      omega
    obtain ⟨s₀, w₀, limit, launched, _, start⟩ := first
    obtain rfl := start.at_start rfl zero
    have recorded : s₀.recorded = s₀.value := (launch_fresh launched).1
    rw [records.previous, began.previous, records.envelope, began.unhalved unhalved]
    exact recorded

end Solver

/-! ## The cost of a result -/

section Costs

variable {σ : Type} {A : Operator σ Exact} {g : Regularizer Exact} {c : Config σ Exact}
  {x0 : Option (Vec Exact)} {w w' : World σ Exact} {vs : List (Snapshot σ Exact)}
  {b : Snapshot σ Exact} {r : Result Exact}

/-- The number `C` is `½ ‖A z‖² + g(z)`, for an answer of the operator at `z`. -/
def Operator.CostAt (A : Operator σ Exact) (g : Regularizer Exact) (z : Vec Exact) (C : Exact) :
    Prop :=
  ∃ y square G env env', A.apply z env = .ok y env' ∧ y.sqnorm = .ok square ∧
    g.value z = .ok G ∧ C = 0.5 * square + G

namespace Solver

/-- Where an envelope is recorded, the regularizer at the step is the value there. -/
theorem Passes.value_eq (hA : A.Shaped) (inOrder : g.InOrder A.domain)
    (passes : Passes A (.ofRegularizer g) x0 c w vs b)
    (finite : Scalar.isFinite b.state.value = true) :
    g.value b.state.xbar = .ok b.state.gxbar := by
  obtain ⟨v, env, env', moved, stepped, _⟩ := passes.forward
  obtain ⟨hx, hgrad, _⟩ := passes.shaped hA (Regularizer.shaped inOrder)
  obtain ⟨hv, inexact⟩ := hgrad.axpy hx moved
  obtain ⟨_, whole, _⟩ := passes.vouches hA (Regularizer.shaped inOrder) finite
  exact Regularizer.value_of_prox inOrder hv inexact (lift_returns.mp stepped).1 whole

/-- What is recorded as the cost is the cost at the step. -/
theorem Passes.costAt (hA : A.Shaped) (inOrder : g.InOrder A.domain) {v : Snapshot σ Exact}
    (passes : Passes A (.ofRegularizer g) x0 c w vs v) (records : v.Records b) :
    A.CostAt g v.state.xbar b.state.cost := by
  obtain ⟨found, here⟩ := Snapshot.isRecorded_iff.mp records.recorded
  obtain ⟨y, square, env, env', applied, squared, smooth⟩ :=
    passes.measured (by rw [here]; rfl)
  refine ⟨y, square, _, env, env', applied, squared,
    passes.value_eq hA inOrder records.finite.2, ?_⟩
  rw [← smooth]
  exact records.cost

/-- The cost of a result is the one at the step of the last record, from which the search along
the direction of the last iteration started; the run returns the step that the search led to.
This is so for every operator that keeps to its structures, linear or not. -/
theorem cost_of_anchor (hA : A.Shaped) (inOrder : g.InOrder A.domain)
    (returned : solve A (.ofRegularizer g) x0 c w = .ok r w') (begun : r.iterations ≠ 0) :
    ∃ us v ts b status, Passes A (.ofRegularizer g) x0 c w us v ∧
      Course c A (.ofRegularizer g) v ts b ∧ b.place = .resting ∧ r = b.state.result status ∧
      v.isRecorded = true ∧ v.state.iteration = r.iterations ∧
      b.state.xbarPrev = v.state.xbar ∧ A.CostAt g v.state.xbar r.cost := by
  obtain ⟨vs, b, status, passes, resting, rfl⟩ := passes_of_solve returned
  obtain ⟨us, v, ts, rfl, before, since, records, anchor⟩ := passes.records resting begun
  exact ⟨us, v, ts, b, status, before, since, resting, rfl, records.recorded,
    records.iteration.symm, anchor, before.costAt hA inOrder records⟩

end Solver

namespace Plain

theorem xbar_fits {b : Snapshot Unit Exact} (glides : b.Glides meaning (1 / 2)) :
    b.state.xbar.Fits pair := by
  obtain ⟨sound, _⟩ := glides.kept.sound glides.sized
  exact sound.stepped.xbar_fits

theorem cost_eq {z : Vec Exact} {C : Exact} (fits : z.Fits pair)
    (cost : operator.CostAt .zero z C) : C = .real (1 / 2 * ‖z.point pair‖ ^ 2) := by
  obtain ⟨y, square, G, env, env', applied, squared, valued, rfl⟩ := cost
  obtain ⟨image, point⟩ := Operator.multiple_answers pair 1 fits applied
  cases squared.symm.trans image.sqnorm_eq
  cases valued
  have same : y.point pair = z.point pair := point.trans (one_smul ℝ _)
  rw [same, Exact.half_eq, Exact.zero_eq, Exact.real_mul, Exact.real_add, add_zero]

end Plain

namespace Solver

/-- The plain problem returns with a cost. -/
theorem plain_cost_of_anchor : ∃ r w' us v ts b status,
    solve Plain.operator Plain.prox (some Plain.start) (Plain.config (1 / 2)) Plain.world =
      .ok r w' ∧ r.iterations = 2 ∧ Plain.Passes us v ∧
    Course (Plain.config (1 / ((2 : ℕ) : ℝ))) Plain.operator Plain.prox v ts b ∧
    r = b.state.result status ∧ b.state.xbarPrev = v.state.xbar ∧
    Plain.operator.CostAt .zero v.state.xbar r.cost := by
  obtain ⟨r, w', returned⟩ := Plain.returns one_half_pos
  have two := plain_iterations returned
  obtain ⟨us, v, ts, b, status, before, since, _, same, _, _, anchor, cost⟩ :=
    cost_of_anchor (Operator.multiple_shaped Plain.pair 1) (g := .zero) trivial returned (by omega)
  exact ⟨r, w', us, v, ts, b, status, returned, two, before, since, same, anchor, cost⟩

/-- The cost of the plain problem is not the one at the point that it returns. -/
theorem plain_cost_elsewhere : ∃ r w',
    solve Plain.operator Plain.prox (some Plain.start) (Plain.config (1 / 2)) Plain.world =
      .ok r w' ∧ r.iterations = 2 ∧ ¬ Plain.operator.CostAt .zero r.x r.cost := by
  obtain ⟨r, w', returned⟩ := Plain.returns one_half_pos
  have two := plain_iterations returned
  obtain ⟨vs, b, status, passes, resting, rfl⟩ := passes_of_solve returned
  have begun : b.state.iteration ≠ 0 := by
    change b.state.iteration = 2 at two
    omega
  refine ⟨_, w', returned, two, fun here => ?_⟩
  obtain ⟨us, v, before, records, nonzero, quarter⟩ := Plain.quarters passes resting begun
  have anchor := before.costAt (Operator.multiple_shaped Plain.pair 1) (g := .zero) trivial records
  have there := Plain.cost_eq (Plain.xbar_fits (Plain.glides before)) anchor
  have same := Exact.real.inj
    (there.symm.trans (Plain.cost_eq (Plain.xbar_fits (Plain.glides passes)) here))
  rw [Plain.xbar_eq (Plain.glides before), Plain.xbar_eq (Plain.glides passes), quarter, smul_comm,
    Plain.norm_quarter] at same
  have positive : 0 < ‖(1 / 2 : ℝ) • v.state.x.point Plain.pair‖ ^ 2 := by
    have away : (1 / 2 : ℝ) • v.state.x.point Plain.pair ≠ 0 := smul_ne_zero (by norm_num) nonzero
    positivity
  linarith

end Solver

end Costs

end ForwardBackward
