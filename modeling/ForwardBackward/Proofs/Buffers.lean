/-
# ForwardBackward.Proofs.Buffers -- what the vectors of a state are

The state keeps `A x`, `f(x)` and the gradient beside the iterate, and the
forward-backward step with its envelope beside those.  None of them is computed
anew in every iteration: a search for a step size replaces the step alone, and a
trial along the direction adds multiples of `L d` and `Lᴴ L d` to what belonged to
the step before.

In exact arithmetic they are what their names say all the same.  `Evaluated` and
`Stepped` say it of the iterate and of its step, `Anchored` of the point that a
search along the direction starts from, `Directed` of the direction.  Each part of
an iteration keeps them or makes them (`State.step_stepped`,
`State.tauTrial_evaluated`, `Solver.aim_anchored`), so they hold at every snapshot
of every course (`Move.kept`, `Course.kept`).
-/
import ForwardBackward.Proofs.Secants
import ForwardBackward.Proofs.Sizes

namespace ForwardBackward

set_option autoImplicit false

open scoped InnerProductSpace

variable {σ : Type}

/-- What an operator computes in exact arithmetic, wherever it computes anything: a map that
is affine, its linear part, and the linear map that serves as the adjoint of that. -/
structure Operator.Meaning (A : Operator σ Exact) where
  map : A.domain.Space → A.codomain.Space
  linear : A.domain.Space →ₗ[ℝ] A.codomain.Space
  adjoint : A.codomain.Space →ₗ[ℝ] A.domain.Space
  affine : ∀ x h, map (x + h) - map x = linear h
  apply : ∀ {x y : Vec Exact} {env env' : σ}, x.Fits A.domain → A.apply x env = .ok y env' →
    y.Fits A.codomain ∧ y.point A.codomain = map (x.point A.domain)
  applyLinear : ∀ {x y : Vec Exact} {env env' : σ}, x.Fits A.domain →
    A.linearPart.apply x env = .ok y env' →
    y.Fits A.codomain ∧ y.point A.codomain = linear (x.point A.domain)
  applyAdjoint : ∀ {x y : Vec Exact} {env env' : σ}, x.Fits A.codomain →
    A.applyAdjoint x env = .ok y env' →
    y.Fits A.domain ∧ y.point A.domain = adjoint (x.point A.codomain)

namespace Prox

/-- Proximal steps lead from vectors of a structure to vectors of it. -/
def StaysIn (g : Prox σ Exact) (S : Structure) : Prop :=
  ∀ {v : Vec Exact} {γ : ℝ} {p : Vec Exact × Exact} {env env' : σ}, v.Fits S → 0 < γ →
    g.prox v (.real γ) env = .ok p env' → p.1.Fits S

/-- The point and the value `p` are what the proximal step from `x - γ grad` answers. -/
def Answers (g : Prox σ Exact) (S : Structure) (γ : ℝ) (x grad : Vec Exact)
    (p : Vec Exact × Exact) : Prop :=
  ∃ v env env', Vec.axpy (.real (-γ)) grad x = .ok v ∧
    v.point S = x.point S - γ • grad.point S ∧ g.prox v (.real γ) env = .ok p env'

end Prox

/-! ## What the parts of a state are -/

section Parts

variable {A : Operator σ Exact} (M : A.Meaning) (g : Prox σ Exact)

/-- The image, the smooth term and the gradient are those at `x`. -/
structure Evaluated (x ax : Vec Exact) (fx : Exact) (grad : Vec Exact) : Prop where
  x_fits : x.Fits A.domain
  ax_fits : ax.Fits A.codomain
  grad_fits : grad.Fits A.domain
  image : ax.point A.codomain = M.map (x.point A.domain)
  value : fx = .real (1 / 2 * ‖ax.point A.codomain‖ ^ 2)
  gradient : grad.point A.domain = M.adjoint (ax.point A.codomain)

/-- The step `xbar`, the regularizer there, the residual and the quadratic model are those of
the forward-backward step from `x` of size `γ`. -/
structure Stepped (S : Structure) (γ : ℝ) (x : Vec Exact) (fx : Exact) (grad xbar : Vec Exact)
    (gxbar : Exact) (r : Vec Exact) (residual bound : Exact) : Prop where
  xbar_fits : xbar.Fits S
  r_fits : r.Fits S
  step : g.Answers S γ x grad (xbar, gxbar)
  difference : r.point S = x.point S - xbar.point S
  norm : residual = .real ‖r.point S‖
  model : ∃ f, fx = .real f ∧
    bound = .real (f - ⟪grad.point S, r.point S⟫_ℝ + ‖r.point S‖ ^ 2 / (2 * γ))

/-- The image and the smooth term are those at `xbar`. -/
structure StepEvaluated (xbar axbar : Vec Exact) (fxbar : Exact) : Prop where
  axbar_fits : axbar.Fits A.codomain
  image : axbar.point A.codomain = M.map (xbar.point A.domain)
  value : fxbar = .real (1 / 2 * ‖axbar.point A.codomain‖ ^ 2)

/-- The image and the gradient are those at `xbarPrev`, and `rbarPrev` is the residual of the
forward-backward step from there of size `γ`. -/
structure Anchored (γ : ℝ) (xbarPrev rbarPrev axbar gradbar : Vec Exact) : Prop where
  xbarPrev_fits : xbarPrev.Fits A.domain
  rbarPrev_fits : rbarPrev.Fits A.domain
  axbar_fits : axbar.Fits A.codomain
  gradbar_fits : gradbar.Fits A.domain
  image : axbar.point A.codomain = M.map (xbarPrev.point A.domain)
  gradient : gradbar.point A.domain = M.adjoint (axbar.point A.codomain)
  residual : ∃ p, g.Answers A.domain γ xbarPrev gradbar p ∧
    rbarPrev.point A.domain = xbarPrev.point A.domain - p.1.point A.domain

/-- The vectors `ld` and `lld` are the images of the direction. -/
structure Directed (d ld lld : Vec Exact) : Prop where
  d_fits : d.Fits A.domain
  ld_fits : ld.Fits A.codomain
  lld_fits : lld.Fits A.domain
  image : ld.point A.codomain = M.linear (d.point A.domain)
  gradient : lld.point A.domain = M.adjoint (ld.point A.codomain)

/-- The state of a run whose first step is taken. -/
structure State.Sound (γ : ℝ) (s : State Exact) : Prop where
  sized : Sized γ s.gamma s.sigma
  evaluated : Evaluated M s.x s.ax s.fx s.grad
  stepped : Stepped g A.domain γ s.x s.fx s.grad s.xbar s.gxbar s.r s.residual s.bound
  history : s.history.Fits A.domain

/-- There is a pair from an iteration before. -/
def State.Remembers (S : Structure) (s : State Exact) : Prop :=
  s.xbarPrev.Fits S ∧ s.rbarPrev.Fits S

/-- What holds beyond that at a place. -/
def Place.Holds (γ : ℝ) (s : State Exact) : Place Exact → Prop
  | .resting => s.iteration ≠ 0 → s.Remembers A.domain
  | .searchingGamma _ | .measured _ | .recorded _ =>
      StepEvaluated M s.xbar s.axbar s.fxbar ∧
        s.iteration ≠ 0 ∧ (s.iteration ≠ 1 → s.Remembers A.domain)
  | .aimed =>
      Anchored M g γ s.xbarPrev s.rbarPrev s.axbar s.gradbar ∧ s.d.Fits A.domain ∧
        s.iteration ≠ 0
  | .searchingTau _ tau _ =>
      Anchored M g γ s.xbarPrev s.rbarPrev s.axbar s.gradbar ∧ Directed M s.d s.ld s.lld ∧
        (∃ τ, tau = .real τ) ∧ s.iteration ≠ 0
  | .moved _ => s.Remembers A.domain ∧ s.iteration ≠ 0

/-- The buffers of a snapshot are what their names say. -/
def Snapshot.Kept (v : Snapshot σ Exact) : Prop :=
  ∃ γ, v.state.Sound M g γ ∧ v.place.Holds M g γ v.state

end Parts

theorem Snapshot.Kept.sound {A : Operator σ Exact} {M : A.Meaning} {g : Prox σ Exact} {γ : ℝ}
    {v : Snapshot σ Exact} (kept : v.Kept M g) (sized : Sized γ v.state.gamma v.state.sigma) :
    v.state.Sound M g γ ∧ v.place.Holds M g γ v.state := by
  obtain ⟨γ', sound, holds⟩ := kept
  obtain rfl : γ = γ' := Exact.real.inj (sized.gamma.symm.trans sound.sized.gamma)
  exact ⟨sound, holds⟩

theorem Operator.Meaning.map_add {A : Operator σ Exact} (M : A.Meaning) (x h : A.domain.Space) :
    M.map (x + h) = M.map x + M.linear h := by
  rw [← M.affine x h, add_sub_cancel]

/-! ## What the parts of an iteration make of them -/

section Effects

variable {A : Operator σ Exact} {M : A.Meaning} {g : Prox σ Exact} {γ : ℝ} {s s' : State Exact}
  {env env' : σ}

theorem Prox.StaysIn.answers {S : Structure} (stays : g.StaysIn S) (positive : 0 < γ)
    {x grad v : Vec Exact} {p : Vec Exact × Exact} (hx : x.Fits S) (hg : grad.Fits S)
    (moved : Vec.axpy (.real (-γ)) grad x = .ok v) (stepped : g.prox v (.real γ) env = .ok p env') :
    p.1.Fits S ∧ g.Answers S γ x grad p := by
  obtain ⟨fits, point⟩ := hg.of_axpy hx moved
  refine ⟨stays fits positive stepped, v, env, env', moved, ?_, stepped⟩
  rw [point, neg_smul, neg_add_eq_sub]

/-- The envelope of an iterate and its step is answered. -/
theorem Prox.Answers.enveloped {S : Structure} {x grad xbar : Vec Exact} {gxbar : Exact} {f : ℝ}
    (answers : g.Answers S γ x grad (xbar, gxbar)) (positive : 0 < γ) (hx : x.Fits S)
    (hg : grad.Fits S) (fits : xbar.Fits S) :
    ∃ e, envelope x xbar gxbar (.real f) grad (.real γ) = .ok e ∧ e.value = e.bound + gxbar ∧
      Stepped g S γ x (.real f) grad xbar gxbar e.r e.residual e.bound := by
  obtain ⟨r, difference, fitsR, pointR⟩ := hx.sub fits
  obtain ⟨a, arrays, fitsA, pointA⟩ := fitsR.asArrays
  have squared : Scalar.square a.norm = .ok (.real (‖r.point S‖ ^ 2)) := by
    rw [fitsA.norm_eq, pointA, Exact.square_real]
  have divided : Scalar.quotient (.real (‖r.point S‖ ^ 2)) (2 * Exact.real γ) =
      .ok (.real (‖r.point S‖ ^ 2 / (2 * γ))) := by
    rw [Exact.two_eq, Exact.real_mul, Exact.quotient_real]
    exact ⟨(mul_pos two_pos positive).ne', rfl⟩
  refine ⟨_, envelope_accepts.mpr ⟨r, a, _, _, _, difference, arrays, hg.inner_eq fitsR, squared,
    divided, rfl⟩, rfl, ⟨fits, fitsR, answers, pointR, ?_, f, rfl, ?_⟩⟩
  · rw [fitsA.norm_eq, pointA]
  · rw [Exact.real_sub, Exact.real_add]

/-- The envelope of an evaluated iterate and its step is answered. -/
theorem Evaluated.enveloped {x ax grad xbar : Vec Exact} {fx gxbar : Exact}
    (evaluated : Evaluated M x ax fx grad) (positive : 0 < γ) (fits : xbar.Fits A.domain)
    (answers : g.Answers A.domain γ x grad (xbar, gxbar)) :
    ∃ e, envelope x xbar gxbar fx grad (.real γ) = .ok e ∧ e.value = e.bound + gxbar ∧
      Stepped g A.domain γ x fx grad xbar gxbar e.r e.residual e.bound := by
  rw [evaluated.value]
  exact answers.enveloped positive evaluated.x_fits evaluated.grad_fits fits

/-- The step of an evaluated iterate. -/
theorem State.step_stepped (stays : g.StaysIn A.domain) (sized : Sized γ s.gamma s.sigma)
    (evaluated : Evaluated M s.x s.ax s.fx s.grad) (returned : s.step g env = .ok s' env') :
    ∃ xbar gxbar r residual bound,
      Stepped g A.domain γ s.x s.fx s.grad xbar gxbar r residual bound ∧
      s' = { s with
        xbar := xbar, gxbar := gxbar, r := r, residual := residual, bound := bound
        proxCalls := s.proxCalls + 1 } := by
  obtain ⟨v, p, e, moved, stepped, enveloped, rfl⟩ := step_returns returned
  rw [sized.gamma, Exact.neg_real] at moved
  rw [sized.gamma] at stepped enveloped
  obtain ⟨fits, answers⟩ :=
    stays.answers sized.positive evaluated.x_fits evaluated.grad_fits moved stepped
  obtain ⟨_, made, _, steps⟩ := evaluated.enveloped sized.positive fits answers
  cases enveloped.symm.trans made
  exact ⟨p.1, p.2, e.r, e.residual, e.bound, steps, rfl⟩

theorem State.evaluateStep_evaluated (returned : s.evaluateStep A env = .ok s' env')
    (fits : s.xbar.Fits A.domain) :
    ∃ axbar fxbar, StepEvaluated M s.xbar axbar fxbar ∧
      s' = { s with axbar := axbar, fxbar := fxbar, operatorCalls := s.operatorCalls + 1 } := by
  obtain ⟨axbar, square, applied, squared, rfl⟩ := evaluateStep_returns returned
  obtain ⟨fitsA, image⟩ := M.apply fits applied
  cases squared.symm.trans fitsA.sqnorm_eq
  exact ⟨axbar, _, ⟨fitsA, image, by rw [Exact.half_eq, Exact.real_mul]⟩, rfl⟩

theorem State.evaluate_evaluated (returned : s.evaluate A env = .ok s' env')
    (fits : s.x.Fits A.domain) :
    ∃ ax fx grad, Evaluated M s.x ax fx grad ∧
      s' = { s with ax := ax, fx := fx, grad := grad, operatorCalls := s.operatorCalls + 2 } := by
  obtain ⟨ax, square, grad, env₁, applied, squared, adjoint, rfl⟩ := evaluate_returns returned
  obtain ⟨fitsA, image⟩ := M.apply fits applied
  obtain ⟨fitsG, gradient⟩ := M.applyAdjoint fitsA adjoint
  cases squared.symm.trans fitsA.sqnorm_eq
  exact ⟨ax, _, grad, ⟨fits, fitsA, fitsG, image, by rw [Exact.half_eq, Exact.real_mul], gradient⟩,
    rfl⟩

/-- After an evaluation the quantities at the iterate are what their names say. -/
theorem State.evaluated_of_returns (M : A.Meaning) (returned : s.evaluate A env = .ok s' env')
    (fits : s.x.Fits A.domain) : Evaluated M s'.x s'.ax s'.fx s'.grad := by
  obtain ⟨ax, fx, grad, evaluated, rfl⟩ := evaluate_evaluated (M := M) returned fits
  exact evaluated

/-- The smooth term and the gradient of an evaluated iterate are finite. -/
theorem Evaluated.finite {x ax grad : Vec Exact} {fx : Exact} (evaluated : Evaluated M x ax fx grad) :
    (Scalar.isFinite fx && grad.allFinite) = true := by
  rw [evaluated.value, evaluated.grad_fits.allFinite]
  rfl

/-- A halving of the step size, with the step taken anew from the same iterate. -/
theorem State.gammaTrial_sound (stays : g.StaysIn A.domain) (sound : s.Sound M g γ)
    (returned : s.gammaTrial A g env = .ok s' env') :
    s'.Sound M g (γ / 2) ∧ StepEvaluated M s'.xbar s'.axbar s'.fxbar ∧
      s'.iteration = s.iteration ∧ s'.xbarPrev = s.xbarPrev ∧ s'.rbarPrev = s.rbarPrev := by
  obtain ⟨s₁, env₁, stepped, evaluated⟩ := gammaTrial_returns returned
  obtain ⟨xbar, gxbar, r, residual, bound, steps, rfl⟩ :=
    step_stepped (s := s.shrinkGamma) stays sound.sized.halve sound.evaluated stepped
  obtain ⟨axbar, fxbar, stepEvaluated, rfl⟩ :=
    evaluateStep_evaluated (M := M) evaluated steps.xbar_fits
  exact ⟨⟨sound.sized.halve, sound.evaluated, steps, sound.history⟩, stepEvaluated, rfl, rfl, rfl⟩

/-- What belonged to the anchor plus multiples of the images of the direction is what belongs to
the trial. -/
theorem Anchored.evaluated {τ : ℝ} {xbarPrev rbarPrev axbar gradbar d ld lld x ax grad : Vec Exact}
    (anchored : Anchored M g γ xbarPrev rbarPrev axbar gradbar) (directed : Directed M d ld lld)
    (moved : Vec.axpy (.real τ) d xbarPrev = .ok x) (image : Vec.axpy (.real τ) ld axbar = .ok ax)
    (slope : Vec.axpy (.real τ) lld gradbar = .ok grad) :
    Evaluated M x ax (0.5 * .real (‖ax.point A.codomain‖ ^ 2)) grad := by
  obtain ⟨fitsX, pointX⟩ := directed.d_fits.of_axpy anchored.xbarPrev_fits moved
  obtain ⟨fitsA, pointA⟩ := directed.ld_fits.of_axpy anchored.axbar_fits image
  obtain ⟨fitsG, pointG⟩ := directed.lld_fits.of_axpy anchored.gradbar_fits slope
  have imageEq : ax.point A.codomain = M.map (x.point A.domain) := by
    calc ax.point A.codomain
        = τ • M.linear (d.point A.domain) + M.map (xbarPrev.point A.domain) := by
          rw [pointA, directed.image, anchored.image]
      _ = M.map (xbarPrev.point A.domain + τ • d.point A.domain) := by
          rw [M.map_add, map_smul, add_comm]
      _ = M.map (x.point A.domain) := by rw [pointX, add_comm]
  have gradientEq : grad.point A.domain = M.adjoint (ax.point A.codomain) := by
    rw [pointG, pointA, directed.gradient, anchored.gradient, map_add, map_smul]
  exact ⟨fitsX, fitsA, fitsG, imageEq, by rw [Exact.half_eq, Exact.real_mul], gradientEq⟩

/-- A trial along the direction. -/
theorem State.tauTrial_sound {τ : ℝ} (stays : g.StaysIn A.domain)
    (sized : Sized γ s.gamma s.sigma) (history : s.history.Fits A.domain)
    (anchored : Anchored M g γ s.xbarPrev s.rbarPrev s.axbar s.gradbar)
    (directed : Directed M s.d s.ld s.lld) (returned : s.tauTrial g (.real τ) env = .ok s' env') :
    s'.Sound M g γ ∧ s'.iteration = s.iteration ∧
      s'.xbarPrev = s.xbarPrev ∧ s'.rbarPrev = s.rbarPrev ∧ s'.axbar = s.axbar ∧
      s'.gradbar = s.gradbar ∧ s'.d = s.d ∧ s'.ld = s.ld ∧ s'.lld = s.lld := by
  obtain ⟨x, ax, square, grad, moved, image, squared, slope, stepped⟩ := tauTrial_returns returned
  have evaluated := anchored.evaluated directed moved image slope
  cases squared.symm.trans evaluated.ax_fits.sqnorm_eq
  obtain ⟨xbar, gxbar, r, residual, bound, steps, rfl⟩ :=
    step_stepped (s := { s with tau := _, x := x, ax := ax, fx := _, grad := grad }) stays sized
      evaluated stepped
  exact ⟨⟨sized, evaluated, steps, history⟩, rfl, rfl, rfl, rfl, rfl, rfl, rfl, rfl⟩

theorem State.evaluateDirection_directed (returned : s.evaluateDirection A env = .ok s' env')
    (fits : s.d.Fits A.domain) :
    ∃ ld lld, Directed M s.d ld lld ∧
      s' = { s with ld := ld, lld := lld, operatorCalls := s.operatorCalls + 2 } := by
  obtain ⟨ld, lld, env₁, image, adjoint, rfl⟩ := evaluateDirection_returns returned
  obtain ⟨fitsL, pointL⟩ := M.applyLinear fits image
  obtain ⟨fitsH, pointH⟩ := M.applyAdjoint fitsL adjoint
  exact ⟨ld, lld, ⟨fits, fitsL, fitsH, pointL, pointH⟩, rfl⟩

/-- The residual of the step from `xbar`, the next anchor. -/
theorem State.evaluateResidual_anchored (stays : g.StaysIn A.domain) (sound : s.Sound M g γ)
    (evaluated : StepEvaluated M s.xbar s.axbar s.fxbar)
    (returned : s.evaluateResidual A g env = .ok s' env') :
    ∃ gradbar rbar, Anchored M g γ s.xbar rbar s.axbar gradbar ∧
      s' = { s with
        gradbar := gradbar, rbar := rbar
        operatorCalls := s.operatorCalls + 1, proxCalls := s.proxCalls + 1 } := by
  obtain ⟨gradbar, v, p, rbar, env₁, adjoint, moved, stepped, difference, rfl⟩ :=
    evaluateResidual_returns returned
  have hx := sound.stepped.xbar_fits
  obtain ⟨fitsG, pointG⟩ := M.applyAdjoint evaluated.axbar_fits adjoint
  rw [sound.sized.gamma, Exact.neg_real] at moved
  rw [sound.sized.gamma] at stepped
  obtain ⟨fitsP, answers⟩ := stays.answers sound.sized.positive hx fitsG moved stepped
  obtain ⟨fitsR, pointR⟩ := hx.of_sub fitsP difference
  exact ⟨gradbar, rbar, ⟨hx, fitsR, evaluated.axbar_fits, fitsG, evaluated.image, pointG, p,
    answers, pointR⟩, rfl⟩

/-- The residual of the step from `xbar` and a direction; `xbar` is the new anchor. -/
theorem Solver.aim_anchored (stays : g.StaysIn A.domain) (sound : s.Sound M g γ)
    (evaluated : StepEvaluated M s.xbar s.axbar s.fxbar)
    (remembers : s.iteration ≠ 1 → s.Remembers A.domain)
    (returned : Solver.aim A g s env = .ok s' env') :
    s'.Sound M g γ ∧ Anchored M g γ s'.xbarPrev s'.rbarPrev s'.axbar s'.gradbar ∧
      s'.d.Fits A.domain ∧ s'.iteration = s.iteration := by
  obtain ⟨s₁, s₂, residual, chosen, rfl⟩ := aim_returns returned
  obtain ⟨gradbar, rbar, anchored, rfl⟩ :=
    State.evaluateResidual_anchored stays sound evaluated residual
  obtain ⟨history, d, rfl, choice⟩ := State.chooseDirection_accepts chosen
  have fitsR := anchored.rbarPrev_fits
  have chose : history.Fits A.domain ∧ d.Fits A.domain := by
    rcases choice with ⟨_, rfl, rfl⟩ | ⟨later, offered, asked⟩
    · rw [Exact.one_eq, Exact.neg_real]
      exact ⟨sound.history, fitsR.scale _⟩
    · obtain ⟨hx', hr'⟩ := remembers later
      have fitsH := sound.history.update anchored.xbarPrev_fits hx' fitsR hr' offered
      exact ⟨fitsH, fitsH.direction fitsR asked⟩
  exact ⟨⟨sound.sized, sound.evaluated, sound.stepped, chose.1⟩, anchored, chose.2, rfl⟩

/-- Every move keeps the buffers what their names say. -/
theorem Move.kept {c : Config σ Exact} (stays : g.StaysIn A.domain) {b d : Snapshot σ Exact}
    (kept : b.Kept M g) (step : Move c A g b d) : d.Kept M g := by
  obtain ⟨γ, sound, holds⟩ := kept
  obtain ⟨sized, evaluated, stepped, history⟩ := sound
  cases step with
  | search _ called _ _ | skip _ called _ =>
      obtain ⟨env, evaluates, rfl⟩ := Run.call_returns.mp called
      obtain ⟨axbar, fxbar, stepEvaluated, rfl⟩ :=
        State.evaluateStep_evaluated (M := M) evaluates stepped.xbar_fits
      exact ⟨γ, ⟨sized, evaluated, stepped, history⟩, stepEvaluated, Nat.succ_ne_zero _,
        fun later => holds fun zero => later (congrArg Nat.succ zero)⟩
  | bounded | unbounded => exact ⟨γ, ⟨sized, evaluated, stepped, history⟩, holds⟩
  | halve _ called =>
      obtain ⟨env, tries, rfl⟩ := Run.call_returns.mp called
      obtain ⟨sound, stepEvaluated, iteration, xbarPrev, rbarPrev⟩ :=
        State.gammaTrial_sound stays ⟨sized, evaluated, stepped, history⟩ tries
      refine ⟨γ / 2, sound, stepEvaluated, ?_⟩
      unfold State.Remembers
      rw [iteration, xbarPrev, rbarPrev]
      exact holds.2
  | settle _ settles =>
      obtain ⟨_, _, rfl⟩ := Solver.settle_returns settles
      exact ⟨γ, ⟨sized, evaluated, stepped, history⟩, holds⟩
  | aim called =>
      obtain ⟨env, aims, rfl⟩ := Run.call_returns.mp called
      obtain ⟨sound, anchored, fits, iteration⟩ := Solver.aim_anchored stays
        ⟨sized, evaluated, stepped, history⟩ holds.1 holds.2.2 aims
      exact ⟨γ, sound, anchored, fits, fun zero => holds.2.1 (iteration ▸ zero)⟩
  | depart _ called _ =>
      obtain ⟨env, evaluates, rfl⟩ := Run.call_returns.mp called
      obtain ⟨anchored, fits, begun⟩ := holds
      obtain ⟨ld, lld, directed, rfl⟩ := State.evaluateDirection_directed (M := M) evaluates fits
      exact ⟨γ, ⟨sized, evaluated, stepped, history⟩, anchored, directed, ⟨1, Exact.one_eq⟩, begun⟩
  | accept called _ =>
      obtain ⟨env, tries, rfl⟩ := Run.call_returns.mp called
      obtain ⟨anchored, directed, ⟨τ, rfl⟩, begun⟩ := holds
      obtain ⟨sound, iteration, xbarPrev, rbarPrev, _⟩ :=
        State.tauTrial_sound stays sized history anchored directed tries
      refine ⟨γ, sound, ⟨?_, ?_⟩, fun zero => begun (iteration ▸ zero)⟩
      · exact xbarPrev ▸ anchored.xbarPrev_fits
      · exact rbarPrev ▸ anchored.rbarPrev_fits
  | reject called _ =>
      obtain ⟨env, tries, rfl⟩ := Run.call_returns.mp called
      obtain ⟨anchored, directed, ⟨τ, rfl⟩, begun⟩ := holds
      obtain ⟨sound, iteration, xbarPrev, rbarPrev, axbar, gradbar, d, ld, lld⟩ :=
        State.tauTrial_sound stays sized history anchored directed tries
      have shorter : ∃ τ', Exact.real τ * State.tauFactor = .real τ' := ⟨_, Exact.real_mul τ _⟩
      refine ⟨γ, sound, ?_, ?_, shorter, fun zero => begun (iteration ▸ zero)⟩
      · rw [xbarPrev, rbarPrev, axbar, gradbar]
        exact anchored
      · rw [d, ld, lld]
        exact directed
  | exhaust =>
      obtain ⟨anchored, _, _, begun⟩ := holds
      exact ⟨γ, ⟨sized, evaluated, stepped, history⟩,
        ⟨anchored.xbarPrev_fits, anchored.rbarPrev_fits⟩, begun⟩
  | approve _ approves =>
      obtain ⟨_, rfl, rfl⟩ := Solver.approve_returns.mp approves
      exact ⟨γ, ⟨sized, evaluated, stepped, history⟩, fun _ => holds.1⟩

theorem Course.kept {c : Config σ Exact} (stays : g.StaysIn A.domain) {a b : Snapshot σ Exact}
    {vs : List (Snapshot σ Exact)} (course : Course c A g a vs b) (start : a.Kept M g) :
    b.Kept M g :=
  course.invariant (fun _ _ kept step => step.kept stays kept) start

end Effects

end ForwardBackward
