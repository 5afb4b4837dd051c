/-
# ForwardBackward.Proofs.GradientDescent -- runs without regularizer and memory

Without a regularizer a forward-backward step is a step of gradient descent, and
without memory the direction from `xbar` leads to the next such step.  So the
first trial of a search along a direction, of length one, is the gradient step from
`xbar`.  If the step size is a little below `1 / Λ` its envelope is low enough:

    envelope at the trial ≤ f(trial) ≤ f(xbar) ≤ envelope at x - sigma ‖r‖²,

and no search of the run fails (`Solver.Passes.glides`).
-/
import ForwardBackward.Proofs.Progress
import ForwardBackward.Proofs.Smooth

namespace ForwardBackward

set_option autoImplicit false

open scoped InnerProductSpace

variable {σ : Type} {A : Operator σ Exact} {M : A.Meaning} {c : Config σ Exact} {Λ γ : ℝ}

/-! ## Gradient steps -/

theorem Prox.zero_staysIn {S : Structure} :
    (Prox.ofRegularizer .zero : Prox σ Exact).StaysIn S := by
  intro v γ p env env' fits _ returned
  cases (lift_returns.mp returned).1
  exact fits

theorem Prox.zero_total {S : Structure} : (Prox.ofRegularizer .zero : Prox σ Exact).Total S :=
  fun {v} _ env _ _ => ⟨v, 0, env, by rw [← Exact.zero_eq]; rfl⟩

/-- The gradient of the smooth term. -/
noncomputable def Operator.Meaning.gradient (M : A.Meaning) (x : A.domain.Space) :
    A.domain.Space :=
  M.adjoint (M.map x)

/-- A gradient step of a size up to `1 / Λ` does not increase the smooth term. -/
theorem Operator.Meaning.Smooth.gradient_le (smooth : M.Smooth Λ) (positive : 0 < γ)
    (small : γ * Λ ≤ 1) (x : A.domain.Space) :
    M.smooth (x - γ • M.gradient x) ≤ M.smooth x := by
  have curvature := smooth.bound (γ • M.gradient x)
  have slope : ⟪M.gradient x, γ • M.gradient x⟫_ℝ = γ * ‖M.gradient x‖ ^ 2 := by
    rw [real_inner_smul_right, real_inner_self_eq_norm_sq]
  have length : ‖γ • M.gradient x‖ ^ 2 = γ ^ 2 * ‖M.gradient x‖ ^ 2 := by
    rw [norm_smul, mul_pow, Real.norm_eq_abs, sq_abs]
  have step : Λ * (γ ^ 2 * ‖M.gradient x‖ ^ 2) ≤ γ * ‖M.gradient x‖ ^ 2 := by
    calc Λ * (γ ^ 2 * ‖M.gradient x‖ ^ 2) = γ * Λ * (γ * ‖M.gradient x‖ ^ 2) := by ring
      _ ≤ 1 * (γ * ‖M.gradient x‖ ^ 2) := mul_le_mul_of_nonneg_right small (by positivity)
      _ = γ * ‖M.gradient x‖ ^ 2 := one_mul _
  have decrease : 0 ≤ γ * ‖M.gradient x‖ ^ 2 := by positivity
  rw [smooth.expansion]
  rw [length] at curvature
  change _ - ⟪M.gradient x, γ • M.gradient x⟫_ℝ + _ ≤ _
  linarith

section Step

variable {x ax grad xbar r : Vec Exact} {fx gxbar residual bound : Exact}

/-- Without a regularizer the answer is the vector itself. -/
theorem Prox.Answers.of_zero {S : Structure} {p : Vec Exact × Exact}
    (answers : (Prox.ofRegularizer .zero : Prox σ Exact).Answers S γ x grad p) :
    p.1.point S = x.point S - γ • grad.point S ∧ p.2 = 0 := by
  obtain ⟨v, env, env', _, point, returned⟩ := answers
  obtain ⟨made, _⟩ := lift_returns.mp returned
  cases made
  exact ⟨point, rfl⟩

/-- The envelope is at most the smooth term. -/
theorem Stepped.value_le_smooth (positive : 0 < γ) (evaluated : Evaluated M x ax fx grad)
    (stepped : Stepped (Prox.ofRegularizer .zero : Prox σ Exact) A.domain γ x fx grad xbar gxbar r
      residual bound) : ∃ E, bound + gxbar = .real E ∧ E ≤ M.smooth (x.point A.domain) := by
  obtain ⟨point, value⟩ := stepped.step.of_zero
  change gxbar = 0 at value
  obtain ⟨f, same, model⟩ := stepped.model
  have start : M.smooth (x.point A.domain) = f :=
    Exact.real.inj (evaluated.smooth_eq.symm.trans same)
  have residual : r.point A.domain = γ • grad.point A.domain := by
    rw [stepped.difference, point, sub_sub_cancel]
  have slope : ⟪grad.point A.domain, r.point A.domain⟫_ℝ = γ * ‖grad.point A.domain‖ ^ 2 := by
    rw [residual, real_inner_smul_right, real_inner_self_eq_norm_sq]
  have curvature : ‖r.point A.domain‖ ^ 2 / (2 * γ) = γ * ‖grad.point A.domain‖ ^ 2 / 2 := by
    rw [residual, norm_smul, mul_pow, Real.norm_eq_abs, sq_abs]
    field_simp
  have decrease : 0 ≤ γ * ‖grad.point A.domain‖ ^ 2 := by positivity
  rw [model, value, Exact.zero_eq, Exact.real_add]
  refine ⟨_, rfl, ?_⟩
  rw [start, slope, curvature]
  linarith

end Step

/-- The answer to a gradient step from a point, and the residual of that. -/
theorem Anchored.gradient_step {xbarPrev rbarPrev axbar gradbar : Vec Exact}
    (anchored : Anchored M (.ofRegularizer .zero) γ xbarPrev rbarPrev axbar gradbar) :
    rbarPrev.point A.domain = γ • M.gradient (xbarPrev.point A.domain) := by
  obtain ⟨p, answers, difference⟩ := anchored.residual
  rw [difference, answers.of_zero.1, anchored.gradient, anchored.image, sub_sub_cancel]
  rfl

/-- The first trial along minus the residual is a gradient step from the anchor. -/
theorem Anchored.gradient_trial {xbarPrev rbarPrev axbar gradbar d ld lld x : Vec Exact}
    (anchored : Anchored M (.ofRegularizer .zero) γ xbarPrev rbarPrev axbar gradbar)
    (directed : Directed M d ld lld) (direction : d = rbarPrev.scale (-1))
    (moved : Vec.axpy 1 d xbarPrev = .ok x) :
    x.point A.domain = xbarPrev.point A.domain - γ • M.gradient (xbarPrev.point A.domain) := by
  rw [Exact.one_eq] at moved direction
  rw [(directed.d_fits.of_axpy anchored.xbarPrev_fits moved).2, direction, Exact.neg_real,
    anchored.rbarPrev_fits.point_scale, anchored.gradient_step, one_smul, neg_one_smul,
    neg_add_eq_sub]

/-! ## The first trial is met -/

/-- The first trial does not increase the smooth term, and its envelope is not above that. -/
theorem State.tauTrial_value_le {s s' : State Exact} {env env' : σ} (smooth : M.Smooth Λ)
    (small : γ * Λ ≤ 1) (sized : Sized γ s.gamma s.sigma)
    (anchored : Anchored M (.ofRegularizer .zero) γ s.xbarPrev s.rbarPrev s.axbar s.gradbar)
    (directed : Directed M s.d s.ld s.lld) (direction : s.d = s.rbarPrev.scale (-1))
    (returned : s.tauTrial (.ofRegularizer .zero) 1 env = .ok s' env') :
    ∃ E, s'.value = .real E ∧ E ≤ M.smooth (s.xbarPrev.point A.domain) := by
  obtain ⟨x, ax, square, grad, moved, image, squared, slope, stepped⟩ := tauTrial_returns returned
  have point := anchored.gradient_trial directed direction moved
  rw [Exact.one_eq] at moved image slope
  have evaluated := anchored.evaluated directed moved image slope
  cases squared.symm.trans evaluated.ax_fits.sqnorm_eq
  obtain ⟨xbar, gxbar, r, residual, bound, steps, rfl⟩ :=
    step_stepped (s := { s with tau := _, x := x, ax := ax, fx := _, grad := grad })
      Prox.zero_staysIn sized evaluated stepped
  obtain ⟨E, value, below⟩ := steps.value_le_smooth sized.positive evaluated
  refine ⟨E, value, below.trans ?_⟩
  change M.smooth (x.point A.domain) ≤ _
  rw [point]
  exact smooth.gradient_le sized.positive small _

/-- The level of the search is not below the smooth term at the step, if the step size is a little
below `1 / Λ`. -/
theorem State.smooth_le_level {s : State Exact} {level : Exact} (smooth : M.Smooth Λ)
    (small : γ * Λ ≤ 39 / 40) (sound : s.Sound M (.ofRegularizer .zero) γ)
    (recorded : s.recorded = s.value) (allowed : s.level = .ok level) :
    ∃ l, level = .real l ∧ M.smooth (s.xbar.point A.domain) ≤ l := by
  have regular : s.gxbar = .real 0 := sound.stepped.step.of_zero.2.trans Exact.zero_eq
  obtain ⟨l, same, above⟩ := sound.level_ge smooth recorded regular allowed
  refine ⟨l, same, ?_⟩
  have slope : slopeOf γ ≤ (1 - γ * Λ) / (2 * γ) := by
    have positive := sound.sized.positive
    rw [slopeOf, div_le_div_iff₀ (by positivity) (by positivity)]
    have room : 0 ≤ γ * (39 / 40 - γ * Λ) := mul_nonneg positive.le (sub_nonneg.mpr small)
    linarith
  have decrease := mul_nonneg (sub_nonneg.mpr slope) (sq_nonneg ‖s.r.point A.domain‖)
  linarith

/-! ## Runs -/

/-- What holds beyond the rest in a run whose first trials are all met. -/
def Place.Glides (M : A.Meaning) (s : State Exact) : Place Exact → Prop
  | .recorded _ => s.recorded = s.value
  | .aimed => s.recorded = s.value ∧ s.xbarPrev = s.xbar ∧ s.d = s.rbarPrev.scale (-1)
  | .searchingTau trials tau level =>
      0 < trials ∧ tau = 1 ∧ s.d = s.rbarPrev.scale (-1) ∧
        ∃ l, level = .real l ∧ M.smooth (s.xbarPrev.point A.domain) ≤ l
  | .moved found => found = true
  | _ => True

/-- A snapshot of a run without regularizer and memory none of whose searches has failed. -/
structure Snapshot.Glides (M : A.Meaning) (γ : ℝ) (v : Snapshot σ Exact) : Prop where
  kept : v.Kept M (.ofRegularizer .zero)
  sized : Sized γ v.state.gamma v.state.sigma
  memoryless : v.state.history.slots = []
  unfailing : v.state.tauFailures = 0
  place : v.place.Glides M v.state

namespace Snapshot.Glides

variable {v : Snapshot σ Exact}

theorem met (glides : v.Glides M γ) : v.place ≠ .moved false := by
  intro failed
  have place := glides.place
  rw [failed] at place
  cases place

theorem unhalved (smooth : M.Smooth Λ) (small : γ * Λ ≤ 39 / 40) (glides : v.Glides M γ) :
    v.halves = false := by
  by_contra halves
  obtain ⟨γ', gamma, above⟩ :=
    glides.kept.above_of_halves smooth (Bool.not_eq_false _ ▸ halves)
  obtain rfl : γ = γ' := Exact.real.inj (glides.sized.gamma.symm.trans gamma)
  linarith

end Snapshot.Glides

theorem Move.glides {b d : Snapshot σ Exact} (smooth : M.Smooth Λ) (small : γ * Λ ≤ 39 / 40)
    (checked : c.Checked) (glides : b.Glides M γ) (step : Move c A (.ofRegularizer .zero) b d) :
    d.Glides M γ := by
  have unhalved := glides.unhalved smooth small
  obtain ⟨kept, sized, memoryless, unfailing, place⟩ := glides
  have kept' := step.kept Prox.zero_staysIn kept
  have memoryless' := step.memoryless memoryless
  have sized' : Sized γ d.state.gamma d.state.sigma := by
    rcases step.turn.gamma_eq with ⟨halves, _⟩ | ⟨_, gamma, sigma⟩
    · cases unhalved.symm.trans halves
    · rw [gamma, sigma]
      exact sized
  obtain ⟨sound, holds⟩ := kept.sound sized
  have rest : d.state.tauFailures = 0 ∧ d.place.Glides M d.state := by
    cases step with
    | search _ called _ _ | skip _ called _ =>
        obtain ⟨env, evaluates, rfl⟩ := Run.call_returns.mp called
        obtain ⟨_, _, _, _, rfl⟩ := State.evaluateStep_returns evaluates
        exact ⟨unfailing, trivial⟩
    | bounded | unbounded => exact ⟨unfailing, trivial⟩
    | halve _ called =>
        obtain ⟨env, tries, rfl⟩ := Run.call_returns.mp called
        obtain ⟨_, _, _, _, _, _, _, _, rfl⟩ := State.gammaTrial_frame tries
        exact ⟨unfailing, trivial⟩
    | settle _ settles =>
        obtain ⟨_, _, rfl⟩ := Solver.settle_returns settles
        exact ⟨unfailing, rfl⟩
    | aim called =>
        obtain ⟨env, aims, rfl⟩ := Run.call_returns.mp called
        have direction := (Solver.aim_of_nil memoryless aims).2
        obtain ⟨_, _, _, _, _, rfl⟩ := Solver.aim_frame aims
        exact ⟨unfailing, place, rfl, direction⟩
    | @depart _ _ _ s _ _ _ allowed called budget =>
        obtain ⟨env, evaluates, rfl⟩ := Run.call_returns.mp called
        obtain ⟨_, _, _, _, _, rfl⟩ := State.evaluateDirection_returns evaluates
        obtain ⟨recorded, anchor, direction⟩ := place
        have level := State.smooth_le_level smooth small sound recorded allowed
        refine ⟨unfailing, checked.searchBudget_positive budget, rfl, direction, ?_⟩
        show ∃ l, _ ∧ M.smooth (s.xbarPrev.point A.domain) ≤ l
        rw [anchor]
        exact level
    | accept called _ =>
        obtain ⟨env, tries, rfl⟩ := Run.call_returns.mp called
        obtain ⟨_, _, _, _, _, _, _, _, _, _, rfl⟩ := State.tauTrial_frame tries
        exact ⟨unfailing, rfl⟩
    | reject called unmet =>
        -- the trial that is not met would be the first one
        obtain ⟨env, tries, rfl⟩ := Run.call_returns.mp called
        obtain ⟨_, rfl, direction, l, rfl, level⟩ := place
        obtain ⟨anchored, directed, _, _⟩ := holds
        obtain ⟨E, value, below⟩ := State.tauTrial_value_le smooth (by linarith) sized anchored
          directed direction tries
        rw [value, Bool.eq_false_iff, Ne, Exact.le_real] at unmet
        exact absurd (below.trans level) unmet
    | exhaust => exact absurd place.1 (lt_irrefl 0)
    | approve _ approves =>
        obtain ⟨_, rfl, rfl⟩ := Solver.approve_returns.mp approves
        exact ⟨unfailing, trivial⟩
  exact ⟨kept', sized', memoryless', rest.1, rest.2⟩

namespace Solver

variable {x0 : Option (Vec Exact)} {w : World σ Exact} {vs : List (Snapshot σ Exact)}
  {b : Snapshot σ Exact}

/-- No search along a direction fails in a run without regularizer and memory, if its step size is
a little below `1 / Λ`. -/
theorem Passes.glides (smooth : M.Smooth Λ) (small : γ * Λ ≤ 39 / 40) (checked : c.Checked)
    (given : c.stepSize = some (.real γ)) (slots : c.memory.slots = .ok 0)
    (finite : ∀ v, x0 = some v → v.allFinite = true)
    (passes : Passes A (.ofRegularizer .zero) x0 c w vs b) : b.Glides M γ := by
  obtain ⟨s₀, w₀, limit, launched, _, course⟩ := passes
  have sized := launch_given checked given launched
  have start : (Snapshot.first limit s₀ w₀).Glides M γ :=
    ⟨launch_kept M Prox.zero_staysIn checked finite launched limit, sized,
      launch_of_nil slots launched, (launch_starts launched).2.2.1, trivial⟩
  exact course.invariant (fun _ _ glides step => step.glides smooth small checked glides) start

end Solver

end ForwardBackward
