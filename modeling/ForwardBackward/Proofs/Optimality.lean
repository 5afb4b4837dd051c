/-
# ForwardBackward.Proofs.Optimality -- a residual of zero is a certificate

The objective is `½ ‖A u‖² + g(u)`.  If `g` is convex, a forward-backward step from `x`
leads nowhere if and only if `x` is a global minimiser of it, whatever the size of the step
(`Regularizer.residual_zero_iff_minimizer`).

* A step that leads nowhere has compared `x` with every point of the regularizer's domain,
  and strongly, so that the square of the distance cancels; what is left is the regularizer
  against the linear model of the smooth term, which is below it (`ProximalPoint.least_of_fixed`,
  `Operator.Meaning.Smooth.linear_le`).
* At a minimiser the envelope of a step that is short for the operator lies between two
  equal values of the objective, so that step leads nowhere; and of a convex regularizer no
  longer one leads farther than its size allows (`ProximalPoint.residual_div_le`).

No bound on the operator is asked for: its spaces have finitely many dimensions
(`Operator.Meaning.smooth_of_adjoint`).  A box has its value at real arrays and at complex ones,
but steps from real ones alone; the minimisers among all are those among the real ones.

The gradient of the smooth term need not vanish there: with the sum of moduli and a smooth term that
pulls to the point `(4, 5)` the minimiser is `(3, 4)` (`Plain.start_minimizes`).
-/
import ForwardBackward.Proofs.DataTerms
import ForwardBackward.Proofs.Searches
import ForwardBackward.Proofs.SmallerSteps

namespace ForwardBackward

set_option autoImplicit false

open scoped InnerProductSpace

variable {σ : Type} {A : Operator σ Exact} {g : Regularizer Exact} {γ Λ : ℝ}

/-! ## Infinity -/

theorem Exact.top_add_real (a : ℝ) : Scalar.infinity + real a = Scalar.infinity := rfl

theorem Exact.top_le_real (a : ℝ) : Scalar.le Scalar.infinity (real a) = false := by
  change decide ((⊤ : EReal) ≤ a) = false
  simp

/-! ## Minimisers -/

/-- With an adjoint that is one, the linear part has some bound. -/
theorem Operator.Meaning.smooth_of_adjoint (M : A.Meaning)
    (adjoint : ∀ v y, ⟪M.linear v, y⟫_ℝ = ⟪v, M.adjoint y⟫_ℝ) : ∃ Λ, M.Smooth Λ := by
  refine ⟨‖M.linear.toContinuousLinearMap‖ ^ 2, adjoint, fun v => ?_⟩
  rw [← mul_pow]
  exact pow_le_pow_left₀ (norm_nonneg _) (M.linear.toContinuousLinearMap.le_opNorm v) 2

/-- The value of the objective at `x` is known, and not above that at any vector of the structure
that is among others and has a known value. -/
def Operator.Meaning.Minimizes (M : A.Meaning) (g : Regularizer Exact) (among : Vec Exact → Prop)
    (x : Vec Exact) : Prop :=
  ∃ V, g.value x = .ok V ∧ ∀ {u : Vec Exact} {U : Exact}, u.Fits A.domain → g.Sees u → among u →
    g.value u = .ok U →
    Scalar.le (V + .real (M.smooth (x.point A.domain))) (U + .real (M.smooth (u.point A.domain))) =
      true

/-- A step that leads nowhere has found its point least against the linear model. -/
theorem ProximalPoint.least_of_fixed {E : Type} [NormedAddCommGroup E] [InnerProductSpace ℝ E]
    {C : Set E} {f : E → ℝ} {x d : E} (point : ProximalPoint C f γ (x - γ • d) x)
    (convex : ConvexOn ℝ C f) (positive : 0 < γ) : ∀ w ∈ C, f x ≤ f w + ⟪d, w - x⟫_ℝ := by
  intro w inside
  have least := point.least_model_add convex positive w inside
  have here : modelAt γ x d x = 0 := by simp [modelAt]
  rw [here, modelAt] at least
  linarith

namespace Regularizer

/-- A step leads to vectors that it would be taken from. -/
theorem takes_of_step {S : Structure} {v : Vec Exact} {p : Vec Exact × Exact} {gamma : Exact}
    (proper : g.Proper S) (fits : v.Fits S) (stepped : g.prox v gamma = .ok p) : g.Takes p.1 := by
  cases g with
  | box lower upper =>
      obtain ⟨zs, hv⟩ := fits
      obtain ⟨_, each⟩ := Tree.forall_of_traverse (prox_accepts stepped).1
      intro c inside
      obtain ⟨a, member, clipped⟩ := exists_of_mem_right each inside
      obtain ⟨q, among, _, shape, denotes⟩ := hv.leaves.member member
      obtain ⟨_, _, _, real, _⟩ := NDArray.clip_denotes (proper q among) denotes shape clipped
      exact real
  | _ => trivial

end Regularizer

section Steps

variable {M : A.Meaning} {x ax grad xbar r : Vec Exact} {fx gxbar residual bound : Exact}

/-- What a step is taken from and leads to. -/
theorem Stepped.taken {S : Structure} (proper : g.Proper S) (positive : 0 < γ) (hx : x.Fits S)
    (hg : grad.Fits S)
    (stepped : Stepped (Prox.ofRegularizer g : Prox σ Exact) S γ x fx grad xbar gxbar r residual
      bound) :
    g.Takes x ∧ g.Takes grad ∧ g.Takes xbar ∧ g.Sees xbar ∧ g.value xbar = .ok gxbar := by
  obtain ⟨v, _, _, moved, _, returned⟩ := stepped.step
  obtain ⟨fits, _⟩ := hg.of_axpy hx moved
  have answered := Regularizer.prox_of_returns returned
  obtain ⟨slope, point⟩ := (Regularizer.takes_axpy hg.shaped hx.shaped moved).mp
    (Regularizer.takes_of_prox answered)
  obtain ⟨_, rfl, minimizes⟩ := Regularizer.prox_minimizes proper positive fits answered
  exact ⟨point, slope, Regularizer.takes_of_step proper fits answered,
    Regularizer.sees_of_prox proper fits answered, minimizes.value⟩

/-- Where a step leads nowhere, the point is a minimiser among all. -/
theorem Stepped.minimizes_of_fixed (smooth : M.Smooth Λ) (proper : g.Proper A.domain)
    (isConvex : g.IsConvex) (positive : 0 < γ) (evaluated : Evaluated M x ax fx grad)
    (sees : g.Sees x)
    (stepped : Stepped (Prox.ofRegularizer g : Prox σ Exact) A.domain γ x fx grad xbar gxbar r
      residual bound) (fixed : residual = 0) :
    M.Minimizes g (fun _ => True) x := by
  obtain ⟨C, h, models, convex⟩ := proper.models
  obtain ⟨takes, _⟩ := stepped.taken proper positive evaluated.x_fits evaluated.grad_fits
  rw [evaluated.smooth_eq] at stepped
  obtain ⟨point, norm, _⟩ :=
    stepped.proximalPoint models positive evaluated.x_fits evaluated.grad_fits
  have same : xbar.point A.domain = x.point A.domain := by
    rw [fixed, Exact.zero_eq] at norm
    exact sub_eq_zero.mp (norm_eq_zero.mp (Exact.real.inj norm).symm)
  rw [same] at point
  refine ⟨_, models.known evaluated.x_fits sees takes point.mem, fun {u U} fits seesU _ valued => ?_⟩
  rcases models.value fits seesU valued with ⟨inside, rfl⟩ | rfl
  · have least := point.least_of_fixed (convex isConvex) positive _ inside
    have below := smooth.linear_le (x.point A.domain) (u.point A.domain)
    rw [← evaluated.image, ← evaluated.gradient] at below
    rw [Exact.real_add, Exact.real_add, Exact.le_real]
    linarith
  · rw [Exact.real_add]
    exact Exact.le_top _

/-- At a minimiser among the vectors that the regularizer takes, no step that is short for the
operator leads anywhere. -/
theorem Stepped.fixed_of_short (smooth : M.Smooth Λ) (proper : g.Proper A.domain)
    (positive : 0 < γ) (short : γ * Λ < 1) (evaluated : Evaluated M x ax fx grad) (sees : g.Sees x)
    (minimizes : M.Minimizes g g.Takes x)
    (stepped : Stepped (Prox.ofRegularizer g : Prox σ Exact) A.domain γ x fx grad xbar gxbar r
      residual bound) :
    ‖xbar.point A.domain - x.point A.domain‖ = 0 := by
  obtain ⟨C, h, models, _⟩ := proper.models
  have hx := evaluated.x_fits
  have hg := evaluated.grad_fits
  obtain ⟨_, _, takes, seesThere, there⟩ := stepped.taken proper positive hx hg
  obtain ⟨B, model, above⟩ := stepped.smooth_add_le smooth evaluated positive
  have back := stepped.difference
  have fits := stepped.xbar_fits
  rw [evaluated.smooth_eq] at stepped
  obtain ⟨point, _, envelope⟩ := stepped.proximalPoint models positive hx hg
  cases there.symm.trans (models.known fits seesThere takes point.mem)
  obtain ⟨V, valued, least⟩ := minimizes
  have best := least fits seesThere takes there
  rcases models.value hx sees valued with ⟨inside, rfl⟩ | rfl
  · have below := point.least_model positive _ inside
    have here : modelAt γ (x.point A.domain) (grad.point A.domain) (x.point A.domain) = 0 := by
      simp [modelAt]
    rw [here] at below
    rw [Exact.real_add, Exact.real_add, Exact.le_real] at best
    rw [model, Exact.real_add] at envelope
    have value := Exact.real.inj envelope
    -- the envelope at a minimiser leaves no room for the residual
    have room : (1 - γ * Λ) / (2 * γ) * ‖r.point A.domain‖ ^ 2 ≤ 0 := by linarith
    have factor : 0 < (1 - γ * Λ) / (2 * γ) := div_pos (sub_pos.mpr short) (by positivity)
    have square := nonpos_of_mul_nonpos_right room factor
    rw [norm_sub_rev, ← back]
    exact pow_eq_zero_iff two_ne_zero |>.mp (le_antisymm square (sq_nonneg _))
  · -- the step has a finite value, so the minimiser has
    rw [Exact.real_add, Exact.top_add_real, Exact.top_le_real] at best
    cases best

/-- Some size is below any one and short for an operator. -/
theorem exists_smaller (positive : 0 < γ) (Λ : ℝ) : ∃ γ', 0 < γ' ∧ γ' ≤ γ ∧ γ' * Λ < 1 := by
  have room : 0 < 1 / (2 * (|Λ| + 1)) := by positivity
  refine ⟨min γ (1 / (2 * (|Λ| + 1))), lt_min positive room, min_le_left _ _, ?_⟩
  calc min γ (1 / (2 * (|Λ| + 1))) * Λ ≤ min γ (1 / (2 * (|Λ| + 1))) * |Λ| := by
        gcongr
        exact le_abs_self Λ
    _ ≤ 1 / (2 * (|Λ| + 1)) * |Λ| := by
        gcongr
        exact min_le_right _ _
    _ < 1 := by
        rw [one_div_mul_eq_div, div_lt_one (by positivity)]
        linarith [abs_nonneg Λ]

/-- At a minimiser among the vectors that the regularizer takes, no step leads anywhere. -/
theorem Stepped.fixed_of_minimizes (smooth : M.Smooth Λ) (proper : g.Proper A.domain)
    (isConvex : g.IsConvex) (positive : 0 < γ) (evaluated : Evaluated M x ax fx grad)
    (sees : g.Sees x)
    (stepped : Stepped (Prox.ofRegularizer g : Prox σ Exact) A.domain γ x fx grad xbar gxbar r
      residual bound) (minimizes : M.Minimizes g g.Takes x) :
    residual = 0 := by
  obtain ⟨C, h, models, convex⟩ := proper.models
  have hx := evaluated.x_fits
  have hg := evaluated.grad_fits
  obtain ⟨point, slope, _⟩ := stepped.taken proper positive hx hg
  rw [evaluated.smooth_eq] at stepped
  -- a step that is short for the operator
  obtain ⟨γ', smaller, le, short⟩ := exists_smaller positive Λ
  obtain ⟨_, env, _⟩ := stepped.step
  obtain ⟨⟨xbar', gxbar'⟩, answered⟩ := Regularizer.step_answers proper smaller hx hg point slope env
  obtain ⟨e, _, _, stepped'⟩ := Regularizer.step_enveloped
    (f := M.smooth (x.point A.domain)) proper smaller hx hg answered
  rw [← evaluated.smooth_eq] at stepped'
  have fixed' := stepped'.fixed_of_short smooth proper smaller short evaluated sees minimizes
  rw [evaluated.smooth_eq] at stepped'
  obtain ⟨point, norm, _⟩ := stepped.proximalPoint models positive hx hg
  obtain ⟨point', _⟩ := stepped'.proximalPoint models smaller hx hg
  have shrunk := point.residual_div_le point' (convex isConvex) smaller le
  rw [fixed', zero_div] at shrunk
  rw [div_le_iff₀ positive, zero_mul] at shrunk
  rw [norm, le_antisymm shrunk (norm_nonneg _), Exact.zero_eq]

end Steps

theorem Operator.Meaning.Minimizes.among {M : A.Meaning} {x : Vec Exact} {among : Vec Exact → Prop}
    (minimizes : M.Minimizes g (fun _ => True) x) : M.Minimizes g among x := by
  obtain ⟨V, valued, least⟩ := minimizes
  exact ⟨V, valued, fun fits sees _ => least fits sees trivial⟩

/-- A residual of zero is a certificate, in exact arithmetic.  Let the regularizer be convex and the
operator affine, with the adjoint of its linear part, and take a point that both of them have been
applied to.  A forward-backward step of any positive size is answered (by a box, if there are no
complex numbers), with an envelope; and of any that is answered the residual norm is zero if and
only if the point is a global minimiser of `½ ‖A u‖² + g(u)`, be it among all vectors of the
structure or among those that the regularizer has steps from. -/
theorem Regularizer.residual_zero_iff_minimizer (M : A.Meaning)
    (adjoint : ∀ v y, ⟪M.linear v, y⟫_ℝ = ⟪v, M.adjoint y⟫_ℝ) (proper : g.Proper A.domain)
    (isConvex : g.IsConvex) (positive : 0 < γ) {x ax grad : Vec Exact} {env env₁ env₂ : σ}
    (fits : x.Fits A.domain) (sees : g.Sees x) (applied : A.apply x env = .ok ax env₁)
    (slope : A.applyAdjoint ax env₁ = .ok grad env₂) :
    ∃ square, ax.sqnorm = .ok square ∧
      (g.Takes x → g.Takes grad → ∀ env : σ, ∃ p e,
        forwardBackwardStep (.ofRegularizer g) x grad (.real γ) env = .ok p env ∧
          envelope x p.1 p.2 (0.5 * square) grad (.real γ) = .ok e) ∧
      ∀ {p : Vec Exact × Exact} {e : Envelope Exact} {env env' : σ},
        forwardBackwardStep (.ofRegularizer g) x grad (.real γ) env = .ok p env' →
        envelope x p.1 p.2 (0.5 * square) grad (.real γ) = .ok e →
        (e.residual = 0 ↔ M.Minimizes g (fun _ => True) x) ∧
          (e.residual = 0 ↔ M.Minimizes g (fun u => g.Takes u) x) := by
  obtain ⟨Λ, smooth⟩ := M.smooth_of_adjoint adjoint
  obtain ⟨square, squared, evaluated⟩ := M.evaluated fits applied slope
  refine ⟨square, squared, fun point takes env => ?_, fun {p e env env'} stepped enveloped => ?_⟩
  · obtain ⟨p, stepped⟩ := evaluated.step_answers proper positive point takes env
    obtain ⟨e, enveloped, _⟩ := evaluated.step_enveloped proper positive stepped
    exact ⟨p, e, stepped, enveloped⟩
  · obtain ⟨_, same, _, steps⟩ := evaluated.step_enveloped proper positive stepped
    cases enveloped.symm.trans same
    have certifies := steps.minimizes_of_fixed smooth proper isConvex positive evaluated sees
    have fixes := steps.fixed_of_minimizes smooth proper isConvex positive evaluated sees
    exact ⟨⟨certifies, fun least => fixes least.among⟩, fun fixed => (certifies fixed).among, fixes⟩

/-! ## A minimiser where the gradient does not vanish -/

namespace Plain

/-- The sum of moduli. -/
noncomputable abbrev moduli : Regularizer Exact := .l1 (.real 1)

theorem moduli_value {u : Vec Exact} (fits : u.Fits pair) :
    moduli.value u = .ok (.real (∑ i, 1 * ‖u.point pair i‖)) :=
  (Regularizer.entrywise_l1 three_pos zero_le_one).value_point fits

theorem moduli_proper : moduli.Proper pair := ⟨1, zero_le_one, rfl⟩

/-- Where the smooth term pulls: both numbers of the starting point and one more. -/
noncomputable def target : Vec Exact :=
  .leaf ⟨[2], .real .double [.real (4 : ℕ), .real (5 : ℕ)], rfl⟩

theorem target_datum : target.Datum := by
  intro a inside
  obtain rfl := List.mem_singleton.mp inside
  refine ⟨rfl, fun bare => ?_⟩
  cases bare

/-- The operator of the smooth term `½ ‖x - target‖²`. -/
noncomputable abbrev pulled : Operator Unit Exact := operator.less target

noncomputable abbrev pulledMeaning : pulled.Meaning := meaning.less rfl target_datum rfl

theorem pulled_total : pulled.Total :=
  (Operator.multiple_total pair 1).less meaning target_datum rfl

theorem pulled_smooth : pulledMeaning.Smooth 1 := ⟨smooth.adjoint, smooth.bound⟩

theorem pulled_gradient : pulledMeaning.adjoint (pulledMeaning.map (start.point pair)) =
    start.point pair - target.point pair := by
  change (1 : ℝ) • ((1 : ℝ) • start.point pair - target.point pair) = _
  rw [one_smul, one_smul]

/-- The gradient at the starting point is minus one in both places. -/
theorem pulled_slope (i : Fin pair.dimension) :
    (start.point pair - target.point pair) i = -1 := by
  rw [start, target, (pair_denotes _ _).point_eq, (pair_denotes _ _).point_eq]
  fin_cases i <;> norm_num [pointOf]

theorem pulled_gradient_ne_zero :
    pulledMeaning.adjoint (pulledMeaning.map (start.point pair)) ≠ 0 := by
  intro zero
  have first := pulled_slope ⟨0, Nat.two_pos⟩
  rw [← pulled_gradient, zero] at first
  change (0 : ℂ) = -1 at first
  norm_num at first

theorem start_norm (i : Fin pair.dimension) :
    ‖start.point pair i‖ = (start.point pair i).re := by
  rw [start, (pair_denotes _ _).point_eq]
  fin_cases i <;> norm_num [pointOf]

/-- The smooth term is nowhere below its linear model at the starting point. -/
theorem pulled_model (v : pair.Space) :
    pulledMeaning.smooth (start.point pair) + ∑ i, ((start.point pair i).re - (v i).re) ≤
      pulledMeaning.smooth v := by
  have model : pulledMeaning.smooth (start.point pair) +
      ⟪start.point pair - target.point pair, v - start.point pair⟫_ℝ ≤ pulledMeaning.smooth v := by
    rw [← pulled_gradient]
    exact pulled_smooth.linear_le (start.point pair) v
  have slope : ⟪start.point pair - target.point pair, v - start.point pair⟫_ℝ =
      ∑ i, ((start.point pair i).re - (v i).re) := by
    rw [PiLp.inner_apply]
    refine Finset.sum_congr rfl fun i _ => ?_
    rw [pulled_slope, Complex.inner]
    simp
  rwa [slope] at model

/-- The starting point minimises half the squared distance to the target plus the sum of moduli. -/
theorem start_minimizes : pulledMeaning.Minimizes moduli (fun _ => True) start := by
  refine ⟨_, moduli_value start_fits, fun {u U} hu _ _ valued => ?_⟩
  cases valued.symm.trans (moduli_value hu)
  have model := pulled_model (u.point pair)
  have moduli : ∑ i, (1 * ‖start.point pair i‖ - ((start.point pair i).re - (u.point pair i).re)) ≤
      ∑ i, 1 * ‖u.point pair i‖ := by
    refine Finset.sum_le_sum fun i _ => ?_
    rw [start_norm]
    have := Complex.re_le_norm (u.point pair i)
    linarith
  rw [Finset.sum_sub_distrib] at moduli
  rw [Exact.real_add, Exact.real_add, Exact.le_real]
  change _ + pulledMeaning.smooth (start.point pair) ≤ _ + pulledMeaning.smooth (u.point pair)
  linarith

end Plain

/-- The plain problem with a target: at its minimiser the gradient of the smooth term is not zero,
and no step leads away. -/
theorem Regularizer.plain_residual_zero :
    let g : Regularizer Exact := .l1 (.real 1)
    let x : Vec Exact := Plain.start
    (∀ v y, ⟪Plain.pulledMeaning.linear v, y⟫_ℝ = ⟪v, Plain.pulledMeaning.adjoint y⟫_ℝ) ∧
      g.Proper Plain.pair ∧ g.IsConvex ∧ (0 : ℝ) < 3 ∧ x.Fits Plain.pair ∧ g.Sees x ∧
      Plain.pulledMeaning.Minimizes g (fun _ => True) x ∧
      ∃ ax grad square p e, Plain.pulled.apply x () = .ok ax () ∧
        Plain.pulled.applyAdjoint ax () = .ok grad () ∧ grad.point Plain.pair ≠ 0 ∧
        ax.sqnorm = .ok square ∧
        forwardBackwardStep (.ofRegularizer g) x grad (.real 3) () = .ok p () ∧
        envelope x p.1 p.2 (0.5 * square) grad (.real 3) = .ok e ∧ e.residual = 0 := by
  intro g x
  obtain ⟨ax, _, applied⟩ := Plain.pulled_total.apply () Plain.start_fits
  obtain ⟨fits, image⟩ := Plain.pulledMeaning.apply Plain.start_fits applied
  obtain ⟨grad, _, slope⟩ := Plain.pulled_total.applyAdjoint () fits
  obtain ⟨_, gradient⟩ := Plain.pulledMeaning.applyAdjoint fits slope
  obtain ⟨square, squared, answers, certifies⟩ := residual_zero_iff_minimizer Plain.pulledMeaning
    Plain.pulled_smooth.adjoint Plain.moduli_proper trivial three_pos Plain.start_fits trivial
    applied slope
  obtain ⟨p, e, stepped, enveloped⟩ := answers trivial trivial ()
  have away : grad.point Plain.pair ≠ 0 := by
    intro zero
    rw [image] at gradient
    exact Plain.pulled_gradient_ne_zero (gradient.symm.trans zero)
  exact ⟨Plain.pulled_smooth.adjoint, Plain.moduli_proper, trivial, three_pos, Plain.start_fits,
    trivial, Plain.start_minimizes, ax, grad, square, p, e, applied, slope, away, squared, stepped,
    enveloped, (certifies stepped enveloped).1.mpr Plain.start_minimizes⟩

end ForwardBackward
