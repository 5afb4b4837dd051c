/-
# ForwardBackward.Proofs.Curvatures -- an estimate against the Lipschitz constant

The step size that a run estimates is what is left of `1`, divided by a constant `K`: the
curvature along the vector of ones, or `1` where that is not above the machine epsilon
(`lipschitzFor`).  The curvature along one vector is a bound from below: every Lipschitz
constant of the gradient is at least as large (`Operator.Meaning.Lipschitz.curvature_le`).
It is one itself if and only if no vector is changed more by `LᴴL`.

What a forward-backward step needs is less.  The smooth term at a step is at most its
quadratic model if and only if `γ ‖L r‖² ≤ ‖r‖²` for the residual `r` of that step
(`Stepped.model_iff`), and this holds of all residuals if `K` is a Lipschitz constant
(`Operator.Meaning.Lipschitz.small`).

Nothing makes it one.  `Steep.step_above_model` is a diagonal with the entries zero and one: its
estimate is below its Lipschitz constant, and the first step of a run that takes it
without a search lands above the model.
-/
import ForwardBackward.Proofs.Estimates
import ForwardBackward.Proofs.Pairings
import ForwardBackward.Proofs.Tally

namespace ForwardBackward

set_option autoImplicit false

open scoped ComplexConjugate InnerProductSpace

variable {σ : Type} {A : Operator σ Exact} {M : A.Meaning} {g : Prox σ Exact} {K γ ε ℓ : ℝ}

/-! ## Lipschitz constants of the gradient -/

namespace Operator.Meaning

/-- `K` is a Lipschitz constant of the gradient. -/
def Lipschitz (M : A.Meaning) (K : ℝ) : Prop :=
  ∀ u w, ‖M.gradient u - M.gradient w‖ ≤ K * ‖u - w‖

theorem gradient_sub (M : A.Meaning) (u w : A.domain.Space) :
    M.gradient u - M.gradient w = M.adjoint (M.linear (u - w)) := by
  have apart := M.gradient_add w (u - w)
  rw [add_sub_cancel] at apart
  rw [apart, add_sub_cancel_left]

theorem lipschitz_iff : M.Lipschitz K ↔ ∀ v, ‖M.adjoint (M.linear v)‖ ≤ K * ‖v‖ := by
  constructor
  · intro lipschitz v
    have from_zero := lipschitz v 0
    rwa [gradient_sub, sub_zero] at from_zero
  · intro bound u w
    rw [gradient_sub]
    exact bound (u - w)

/-- No Lipschitz constant is below the curvature. -/
theorem Lipschitz.curvature_le (lipschitz : M.Lipschitz K) (entries : A.domain.dimension ≠ 0) :
    M.curvature ≤ K := by
  have root : 0 < √(A.domain.dimension : ℝ) := by
    rw [Real.sqrt_pos, Nat.cast_pos]
    exact Nat.pos_of_ne_zero entries
  have along_ones := lipschitz_iff.mp lipschitz A.domain.ones
  rw [Structure.norm_ones] at along_ones
  exact (div_le_iff₀ root).mpr along_ones

/-- A Lipschitz constant bounds the square of the norm of the linear part. -/
theorem Lipschitz.smooth (lipschitz : M.Lipschitz K)
    (adjoint : ∀ v y, ⟪M.linear v, y⟫_ℝ = ⟪v, M.adjoint y⟫_ℝ) : M.Smooth K := by
  refine ⟨adjoint, fun v => ?_⟩
  calc ‖M.linear v‖ ^ 2 = ⟪v, M.adjoint (M.linear v)⟫_ℝ := by
        rw [← adjoint, real_inner_self_eq_norm_sq]
    _ ≤ ‖v‖ * ‖M.adjoint (M.linear v)‖ := real_inner_le_norm _ _
    _ ≤ ‖v‖ * (K * ‖v‖) :=
        mul_le_mul_of_nonneg_left (lipschitz_iff.mp lipschitz v) (norm_nonneg v)
    _ = K * ‖v‖ ^ 2 := by ring

/-- The norm of the linear part has a bound. -/
theorem exists_smooth (adjoint : ∀ v y, ⟪M.linear v, y⟫_ℝ = ⟪v, M.adjoint y⟫_ℝ) :
    ∃ Λ, M.Smooth Λ := by
  refine ⟨‖M.linear.toContinuousLinearMap‖ ^ 2, adjoint, fun v => ?_⟩
  rw [← mul_pow]
  exact pow_le_pow_left₀ (norm_nonneg _) (M.linear.toContinuousLinearMap.le_opNorm v) 2

end Operator.Meaning

/-! ## Steps and their models -/

/-- The smooth term at a step is at most its model if and only if the linear part does not stretch
the residual too much. -/
theorem Stepped.model_iff {x ax grad xbar r : Vec Exact} {fx gxbar residual bound : Exact}
    (adjoint : ∀ v y, ⟪M.linear v, y⟫_ℝ = ⟪v, M.adjoint y⟫_ℝ)
    (evaluated : Evaluated M x ax fx grad)
    (stepped : Stepped g A.domain γ x fx grad xbar gxbar r residual bound) (positive : 0 < γ) :
    ∃ B, bound = .real B ∧ (M.smooth (xbar.point A.domain) ≤ B ↔
      γ * ‖M.linear (r.point A.domain)‖ ^ 2 ≤ ‖r.point A.domain‖ ^ 2) := by
  -- The gap is known for an operator with a bound, and does not depend on which bound that is.
  obtain ⟨Λ, smooth⟩ := Operator.Meaning.exists_smooth adjoint
  obtain ⟨B, model, gap⟩ := stepped.gap smooth evaluated
  refine ⟨B, model, ?_⟩
  have split : 2 * γ * (M.smooth (xbar.point A.domain) - B) =
      γ * ‖M.linear (r.point A.domain)‖ ^ 2 - ‖r.point A.domain‖ ^ 2 := by
    rw [gap]
    field_simp
  have twice : 0 < 2 * γ := by positivity
  constructor
  · intro below
    have scaled := mul_nonpos_of_nonneg_of_nonpos twice.le (sub_nonpos.mpr below)
    linarith
  · intro small
    by_contra above
    have scaled := mul_pos twice (sub_pos.mpr (not_le.mp above))
    linarith

/-- The constant that a step size is estimated with. -/
noncomputable def lipschitzFor (ε ℓ : ℝ) : ℝ := if ε < ℓ then ℓ else 1

theorem lipschitzFor_eq (ε ℓ : ℝ) : (1 - 1 / 20) / stepSizeFor ε ℓ = lipschitzFor ε ℓ := by
  have divided : stepSizeFor ε ℓ = (1 - 1 / 20) / lipschitzFor ε ℓ := by
    rw [stepSizeFor_eq]
    unfold lipschitzFor
    split
    · rfl
    · rw [div_one]
  rw [divided, div_div_cancel₀ (by norm_num)]

/-- Steps of the size for a Lipschitz constant stretch no vector too much. -/
theorem Operator.Meaning.Lipschitz.small (positive : 0 < γ)
    (lipschitz : M.Lipschitz ((1 - 1 / 20) / γ))
    (adjoint : ∀ v y, ⟪M.linear v, y⟫_ℝ = ⟪v, M.adjoint y⟫_ℝ) (v : A.domain.Space) :
    γ * ‖M.linear v‖ ^ 2 ≤ ‖v‖ ^ 2 := by
  calc γ * ‖M.linear v‖ ^ 2 ≤ γ * ((1 - 1 / 20) / γ * ‖v‖ ^ 2) :=
        mul_le_mul_of_nonneg_left ((lipschitz.smooth adjoint).bound v) positive.le
    _ = (1 - 1 / 20) * ‖v‖ ^ 2 := by
        field_simp
    _ ≤ ‖v‖ ^ 2 := by nlinarith only [sq_nonneg ‖v‖]

/-! ## Runs that estimate and do not search -/

/-- A run that searches for no step size keeps the first one, and its buffers are what their names
say. -/
theorem Solver.Passes.estimated (M : A.Meaning) (total : A.Total) (stays : g.StaysIn A.domain)
    (entries : A.domain.dimension ≠ 0) {c : Config σ Exact} (checked : c.Checked)
    (chosen : c.stepSize = none) (unwanted : c.searchesGamma = false) {x0 : Option (Vec Exact)}
    (finite : ∀ v, x0 = some v → v.allFinite = true) {w : World σ Exact}
    {vs : List (Snapshot σ Exact)} {b : Snapshot σ Exact} (passes : Passes A g x0 c w vs b) :
    ∃ s₀ w₀ ε γ, launch A g x0 c w = .ok s₀ w₀ ∧ s₀.x.machineEps = .ok (.real ε) ∧
      γ = stepSizeFor ε M.curvature ∧ b.state.Sound M g γ ∧ b.place.Holds M g γ b.state := by
  obtain ⟨s₀, w₀, limit, launched, _, course⟩ := passes
  obtain ⟨ε, spacing, gamma⟩ := launch_stepSize M total entries chosen finite launched
  obtain ⟨γ, sized, _⟩ := launch_sized checked launched
  obtain rfl : γ = stepSizeFor ε M.curvature := Exact.real.inj (sized.gamma.symm.trans gamma)
  have now := course.sized sized
  rw [course.halvings_of_unwanted unwanted rfl, pow_zero, div_one] at now
  have kept := course.kept stays (launch_kept M stays checked finite launched limit)
  obtain ⟨sound, holds⟩ := kept.sound now
  exact ⟨s₀, w₀, ε, _, launched, spacing, rfl, sound, holds⟩

/-- **What an estimate bounds.**  `K = (1 - safety) / γ` is the constant that belongs to an
estimated step size `γ`.

* It is the curvature along ones, or `1` where that is not above the machine epsilon.  In the first
  case it is below every Lipschitz constant of the gradient; it is one itself if and only if `LᴴL`
  stretches no vector by more than `K`.
* In a run that takes it and does not search, the smooth term at a step is at most its quadratic
  model if and only if the linear part stretches the residual of that step by no more than
  `1 / √γ`; and so it is at every step if `K` is a Lipschitz constant. -/
theorem Operator.Meaning.estimate_and_lipschitz (M : A.Meaning) (total : A.Total)
    (adjoint : ∀ v y, ⟪M.linear v, y⟫_ℝ = ⟪v, M.adjoint y⟫_ℝ)
    (entries : A.domain.dimension ≠ 0) :
    (∀ {s : State Exact}, s.x.Fits A.domain → (∀ a ∈ s.x.leaves, a.isBare = false) →
      A.Graded s.x s.grad → ∃ ε γ, s.x.machineEps = .ok (.real ε) ∧ 0 < γ ∧
        (∀ verbosity w, ∃ w', s.estimateGamma A verbosity w = .ok (.real γ, s.probed) w') ∧
        (1 - 1 / 20) / γ = lipschitzFor ε M.curvature ∧
        (ε < M.curvature → ∀ K, M.Lipschitz K → (1 - 1 / 20) / γ ≤ K) ∧
        (M.Lipschitz ((1 - 1 / 20) / γ) ↔
          ∀ v, ‖M.adjoint (M.linear v)‖ ≤ (1 - 1 / 20) / γ * ‖v‖)) ∧
    (∀ {g : Prox σ Exact} {c : Config σ Exact} {x0 : Option (Vec Exact)} {w : World σ Exact}
      {vs : List (Snapshot σ Exact)} {b : Snapshot σ Exact}, g.StaysIn A.domain → c.Checked →
      c.stepSize = none → c.searchesGamma = false →
      (∀ v, x0 = some v → v.allFinite = true) → Solver.Passes A g x0 c w vs b →
      ∃ s₀ w₀ ε γ B, Solver.launch A g x0 c w = .ok s₀ w₀ ∧ s₀.x.machineEps = .ok (.real ε) ∧
        (1 - 1 / 20) / γ = lipschitzFor ε M.curvature ∧ b.state.gamma = .real γ ∧
        b.state.bound = .real B ∧
        (M.smooth (b.state.xbar.point A.domain) ≤ B ↔
          γ * ‖M.linear (b.state.r.point A.domain)‖ ^ 2 ≤ ‖b.state.r.point A.domain‖ ^ 2) ∧
        (∀ found, b.place = .measured found →
          b.state.fxbar = .real (M.smooth (b.state.xbar.point A.domain))) ∧
        (M.Lipschitz ((1 - 1 / 20) / γ) → M.smooth (b.state.xbar.point A.domain) ≤ B)) := by
  refine ⟨?estimate, ?run⟩
  case estimate =>
    intro s fits solid graded
    obtain ⟨ε, positive, spacing, estimates⟩ :=
      State.estimates_of_slope total (M.slope_of_graded fits graded) solid entries
    have constant := lipschitzFor_eq ε M.curvature
    refine ⟨ε, stepSizeFor ε M.curvature, spacing, stepSizeFor_positive positive M.curvature,
      fun verbosity w => ?_, constant, fun above K lipschitz => ?_, lipschitz_iff⟩
    · obtain ⟨env', _, answers⟩ := estimates w.env
      obtain ⟨notes', answered⟩ := answers verbosity w.notes
      exact ⟨_, answered⟩
    · rw [constant, lipschitzFor, if_pos above]
      exact lipschitz.curvature_le entries
  case run =>
    intro g c x0 w vs b stays checked chosen unwanted finite passes
    obtain ⟨s₀, w₀, ε, γ, launched, spacing, rfl, sound, holds⟩ :=
      passes.estimated M total stays entries checked chosen unwanted finite
    have positive := sound.sized.positive
    obtain ⟨B, model, criterion⟩ := sound.stepped.model_iff adjoint sound.evaluated positive
    refine ⟨s₀, w₀, ε, _, B, launched, spacing, lipschitzFor_eq ε M.curvature, sound.sized.gamma,
      model, criterion, fun found here => ?_, fun lipschitz =>
      criterion.mpr (lipschitz.small positive adjoint _)⟩
    rw [here] at holds
    exact holds.1.smooth_eq

/-- The identity has a Lipschitz constant that its estimate finds, and the first step of a run with
it is below its model. -/
theorem Faint.identity_bounded : ∃ s w γ B,
    Solver.launch (.multiple Plain.pair 1) Plain.prox (some (start .double 3)) (config false)
      Plain.world = .ok s w ∧ s.gamma = .real γ ∧ s.bound = .real B ∧
    (Operator.multipleMeaning Plain.pair 1).smooth (s.xbar.point Plain.pair) ≤ B := by
  obtain ⟨s, w, launched, _⟩ := launches (a := 1) (.nothing rfl) (.inr rfl) 3 false
  obtain ⟨_, _, ε, γ, B, _, _, constant, gamma, model, _, _, bounded⟩ :=
    (Operator.Meaning.estimate_and_lipschitz (Operator.multipleMeaning Plain.pair 1)
      (Operator.multiple_total Plain.pair 1) (Operator.multiple_smooth Plain.pair 1).adjoint
      pair_entries).2 Prox.zero_staysIn (config_checked false) rfl rfl (start_finite .double 3)
      ⟨s, w, 2, launched, rfl, .stay⟩
  refine ⟨s, w, γ, B, launched, gamma, model, bounded ?_⟩
  have one : lipschitzFor ε 1 = 1 := by
    unfold lipschitzFor
    split <;> rfl
  rw [constant, Operator.multiple_curvature Plain.pair 1 pair_entries, one_pow, one]
  refine Operator.Meaning.lipschitz_iff.mpr fun v => ?_
  change ‖(1 : ℝ) • (1 : ℝ) • v‖ ≤ 1 * ‖v‖
  rw [one_smul, one_smul, one_mul]

/-! ## A run that estimates too little -/

/-- Multiplication by the coordinates of a point. -/
noncomputable def Structure.weigh {S : Structure} (d : S.Space) : S.Space →ₗ[ℝ] S.Space where
  toFun v := WithLp.toLp _ fun i => d i * v i
  map_add' v w := by
    ext i
    exact mul_add _ _ _
  map_smul' c v := by
    ext i
    exact mul_left_comm _ (c : ℂ) _

/-- The conjugate of a vector, coordinate by coordinate. -/
theorem Vec.Fits.conjugate {S : Structure} {x : Vec Exact} (hx : x.Fits S) :
    (Vec.conj x).Fits S ∧ ∀ i, (Vec.conj x).point S i = conj (x.point S i) := by
  have denotes : (Vec.conj x).Denotes S (x.numbers.map conj) :=
    hx.denotes.map fun denotes => ⟨rfl, denotes.conjugate⟩
  refine ⟨denotes.fits, fun i => ?_⟩
  rw [denotes.point_eq, pointOf_map _ i hx.length_numbers, Vec.point]

/-- The entrywise product of two vectors, coordinate by coordinate. -/
theorem Vec.Fits.times {S : Structure} {d x : Vec Exact} (hd : d.Fits S) (hx : x.Fits S) :
    ∃ y, d.times x = .ok y ∧ y.Fits S ∧ y.point S = Structure.weigh (d.point S) (x.point S) := by
  obtain ⟨y, made, fits, numbers⟩ := hd.zip Rule.means_mul hx
  refine ⟨y, made, fits, ?_⟩
  ext i
  rw [Vec.point, numbers]
  exact pointOf_zipWith _ i hd.length_numbers hx.length_numbers

namespace Steep

open Plain (pair prox world)

open Faint (start config)

/-- The diagonal with the entries zero and one. -/
noncomputable def weights : NDArray Exact := ⟨[2], .real .double [.real 0, .real 1], rfl⟩

noncomputable def operator : Operator Unit Exact := .ofTransform (.diagonal weights)

theorem weights_denotes : Vec.Denotes pair (.leaf weights) [0, 1] := by
  have denotes := Plain.pair_denotes 0 1
  rwa [Complex.ofReal_zero, Complex.ofReal_one] at denotes

/-- The map of the operator. -/
noncomputable def weigh : pair.Space →ₗ[ℝ] pair.Space :=
  Structure.weigh (pointOf pair.dimension [0, 1])

theorem weigh_apply (v : pair.Space) (i : Fin pair.dimension) :
    weigh v i = pointOf pair.dimension [0, 1] i * v i := rfl

theorem weights_real (i : Fin pair.dimension) :
    conj (pointOf pair.dimension [0, 1] i) = pointOf pair.dimension [0, 1] i := by
  fin_cases i
  · exact map_zero _
  · exact map_one _

theorem apply_weighs {x : Vec Exact} (hx : x.Fits pair) :
    ∃ y, (Transform.diagonal weights).apply x = .ok y ∧ y.Fits pair ∧
      y.point pair = weigh (x.point pair) := by
  obtain ⟨y, made, fits, point⟩ := weights_denotes.fits.times hx
  rw [weights_denotes.point_eq] at point
  exact ⟨y, made, fits, point⟩

/-- The adjoint multiplies by the weights as well, which are real. -/
theorem adjoint_weighs {y : Vec Exact} (hy : y.Fits pair) :
    ∃ x, (Transform.diagonal weights).adjoint y = .ok x ∧ x.Fits pair ∧
      x.point pair = weigh (y.point pair) := by
  obtain ⟨a, arrays, fitsA, pointA⟩ := hy.asArrays
  obtain ⟨z, made, fitsZ, pointZ⟩ := apply_weighs fitsA.conjugate.1
  refine ⟨Vec.conj z, bind_accepts.mpr ⟨a, arrays, bind_accepts.mpr ⟨z, made, rfl⟩⟩,
    fitsZ.conjugate.1, ?_⟩
  ext i
  rw [fitsZ.conjugate.2, pointZ, weigh_apply, map_mul, fitsA.conjugate.2, Complex.conj_conj,
    pointA, weigh_apply, weights_real]

noncomputable def meaning : operator.Meaning where
  map := weigh
  linear := weigh
  adjoint := weigh
  affine x h := sub_eq_of_eq_add' (weigh.map_add x h)
  apply fits returned := by
    obtain ⟨y, made, fitsY, point⟩ := apply_weighs fits
    cases (lift_returns.mp returned).1.symm.trans made
    exact ⟨fitsY, point⟩
  applyLinear fits returned := by
    obtain ⟨y, made, fitsY, point⟩ := apply_weighs fits
    cases (lift_returns.mp returned).1.symm.trans made
    exact ⟨fitsY, point⟩
  applyAdjoint fits returned := by
    obtain ⟨x, made, fitsX, point⟩ := adjoint_weighs fits
    cases (lift_returns.mp returned).1.symm.trans made
    exact ⟨fitsX, point⟩

theorem total : operator.Total where
  apply env fits := by
    obtain ⟨y, made, _⟩ := apply_weighs fits
    exact ⟨y, env, lift_returns.mpr ⟨made, rfl⟩⟩
  applyLinear env fits := by
    obtain ⟨y, made, _⟩ := apply_weighs fits
    exact ⟨y, env, lift_returns.mpr ⟨made, rfl⟩⟩
  applyAdjoint env fits := by
    obtain ⟨x, made, _⟩ := adjoint_weighs fits
    exact ⟨x, env, lift_returns.mpr ⟨made, rfl⟩⟩

theorem weigh_adjoint (v y : pair.Space) : ⟪weigh v, y⟫_ℝ = ⟪v, weigh y⟫_ℝ := by
  rw [PiLp.inner_apply, PiLp.inner_apply]
  refine Finset.sum_congr rfl fun i _ => ?_
  rw [weigh_apply, weigh_apply, Complex.inner, Complex.inner, map_mul, weights_real]
  ring_nf

/-! ### Its curvature -/

theorem weigh_pointOf {us : List ℂ} (two : us.length = pair.dimension) :
    weigh (pointOf pair.dimension us) =
      pointOf pair.dimension (List.zipWith (· * ·) [0, 1] us) := by
  ext i
  have weights : [(0 : ℂ), 1].length = pair.dimension := rfl
  exact (pointOf_zipWith (· * ·) i weights two).symm

theorem ones_eq : pair.ones = pointOf pair.dimension [1, 1] := by
  ext i
  fin_cases i <;> rfl

/-- The gradient at ones. -/
theorem weigh_ones : weigh pair.ones = pointOf pair.dimension [0, 1] := by
  rw [ones_eq, weigh_pointOf rfl]
  norm_num

theorem weigh_second : weigh (pointOf pair.dimension [0, 1]) = pointOf pair.dimension [0, 1] := by
  rw [weigh_pointOf rfl]
  norm_num

theorem norm_second : ‖pointOf pair.dimension [0, 1]‖ = 1 := by
  have two : [(0 : ℂ), 1].length = pair.dimension := rfl
  rw [norm_pointOf two]
  simp

theorem curvature_eq : meaning.curvature = 1 / √2 := by
  have unit : ‖weigh (weigh pair.ones)‖ = 1 := by rw [weigh_ones, weigh_second, norm_second]
  change ‖weigh (weigh pair.ones)‖ / √((2 : ℕ) : ℝ) = 1 / √2
  rw [unit, Nat.cast_two]

/-! ### Its run -/

theorem root_bounds : 20 / 19 < √(2 : ℝ) ∧ √(2 : ℝ) < 2 := by
  constructor
  · exact Real.lt_sqrt_of_sq_lt (by norm_num)
  · rw [Real.sqrt_lt' two_pos]
    norm_num

theorem curvature_above : 1 / 2 ^ 52 < meaning.curvature := by
  rw [curvature_eq, lt_div_iff₀ (Real.sqrt_pos.mpr two_pos)]
  linarith [root_bounds.2]

/-- The step size is above the one that the larger entry asks for. -/
theorem stepSize_large : 1 < stepSizeFor (1 / 2 ^ 52) meaning.curvature := by
  rw [stepSizeFor_eq, if_pos curvature_above, curvature_eq, div_div_eq_mul_div, div_one]
  linarith [root_bounds.1]

theorem not_lipschitz : ¬ meaning.Lipschitz meaning.curvature := by
  intro lipschitz
  have stretched : ‖weigh (weigh (pointOf pair.dimension [0, 1]))‖ ≤
      meaning.curvature * ‖pointOf pair.dimension [0, 1]‖ :=
    Operator.Meaning.lipschitz_iff.mp lipschitz _
  rw [weigh_second, weigh_second, norm_second, mul_one, curvature_eq,
    le_div_iff₀ (Real.sqrt_pos.mpr two_pos)] at stretched
  linarith [root_bounds.1]

/-- The first step of the run, from ones: it is computed, and so is the smooth term there. -/
theorem measures : ∃ vs b, Solver.Passes operator prox (some (start .double 1)) (config false) world
      vs b ∧ b.place = .measured none ∧ b.state.x = start .double 1 := by
  have served := Faint.served total false
  obtain ⟨s, w, launched⟩ := Solver.launch_estimates meaning served rfl Faint.pair_entries rfl
    (Faint.start_finite .double 1) rfl world
  have x : s.x = start .double 1 := (Except.ok.inj (Solver.launch_starts launched).2.2.2).symm
  have begun : Solver.Passes operator prox (some (start .double 1)) (config false) world []
      (.first 2 s w) := ⟨s, w, 2, launched, rfl, .stay⟩
  obtain ⟨_, _, _, _, _, _, _, sound, _⟩ := begun.estimated meaning total Prox.zero_staysIn
    Faint.pair_entries (Faint.config_checked false) rfl rfl (Faint.start_finite .double 1)
  have moves : (∃ d, Move (config false) operator prox (.first 2 s w) d) ∨
      (Snapshot.first 2 s w).Ends (config false) := served.resting_moves sound
  -- The predicate never holds and the budget is not used up, so the first snapshot moves; without a
  -- search there is one move.
  rcases moves with ⟨d, step⟩ | ⟨_, ended | ⟨_, halted⟩⟩
  · refine ⟨_, d, begun.trans (.single step), ?_⟩
    cases step with
    | search _ _ wanted => cases wanted
    | skip _ evaluates _ =>
        obtain ⟨_, evaluates, _⟩ := Run.call_returns.mp evaluates
        obtain ⟨_, _, _, _, rfl⟩ := State.evaluateStep_returns evaluates
        exact ⟨rfl, x⟩
  · cases ended
  · cases halted

/-- The residual of a step from ones. -/
theorem residual_eq {s : State Exact} {γ : ℝ} (sound : s.Sound meaning prox γ)
    (x : s.x = start .double 1) : s.r.point pair = γ • pointOf pair.dimension [0, 1] := by
  have ones : s.x.point pair = pair.ones := by
    rw [x, ones_eq]
    simp [Vec.point, Vec.numbers, start, Tree.leaf, Entries.numbers, Exact.toReal]
  have slope : s.grad.point pair = pointOf pair.dimension [0, 1] := by
    rw [← weigh_second, ← weigh_ones, ← ones]
    exact sound.evaluated.slope.gradient
  have difference : s.r.point pair = s.x.point pair - s.xbar.point pair := sound.stepped.difference
  have step : s.xbar.point pair = s.x.point pair - γ • s.grad.point pair :=
    sound.stepped.step.of_zero.1
  rw [difference, step, sub_sub_cancel, slope]

/-- The run takes a step size whose constant is no Lipschitz constant of the gradient, and at its
first step the smooth term is above the quadratic model. -/
theorem step_above_model : ∃ vs b γ,
    Solver.Passes operator prox (some (start .double 1)) (config false) world vs b ∧
    b.state.gamma = .real γ ∧ ¬ meaning.Lipschitz ((1 - 1 / 20) / γ) ∧
    b.place = .measured none ∧ b.state.bounded = false := by
  obtain ⟨vs, b, passes, place, x⟩ := measures
  obtain ⟨s₀, w₀, ε, γ, launched, spacing, size, sound, holds⟩ := passes.estimated meaning total
    Prox.zero_staysIn Faint.pair_entries (Faint.config_checked false) rfl rfl
    (Faint.start_finite .double 1)
  have x₀ : s₀.x = start .double 1 :=
    (Except.ok.inj (Solver.launch_starts launched).2.2.2).symm
  have double : (start .double 1).machineEps = .ok (.real (1 / 2 ^ 52)) :=
    congrArg Except.ok Precision.double.eps_eq
  rw [x₀, double] at spacing
  obtain rfl : 1 / 2 ^ 52 = ε := Exact.real.inj (Except.ok.inj spacing)
  have large : 1 < γ := by
    rw [size]
    exact stepSize_large
  have positive := sound.sized.positive
  have constant : (1 - 1 / 20) / γ = meaning.curvature := by
    rw [size, lipschitzFor_eq, lipschitzFor, if_pos curvature_above]
  obtain ⟨B, model, criterion⟩ := sound.stepped.model_iff weigh_adjoint sound.evaluated positive
  have residual := residual_eq sound x
  have length : ‖b.state.r.point pair‖ = γ := by
    rw [residual, norm_smul, norm_second, mul_one, Real.norm_of_nonneg positive.le]
  have kept : weigh (b.state.r.point pair) = b.state.r.point pair := by
    rw [residual, map_smul, weigh_second]
  have stretched : ¬ meaning.smooth (b.state.xbar.point pair) ≤ B := by
    intro below
    have small : γ * ‖weigh (b.state.r.point pair)‖ ^ 2 ≤ ‖b.state.r.point pair‖ ^ 2 :=
      criterion.mp below
    have square : 0 < γ ^ 2 := by positivity
    rw [kept, length] at small
    exact absurd small (not_le.mpr (lt_mul_of_one_lt_left square large))
  refine ⟨vs, b, γ, passes, sound.sized.gamma, ?_, place, ?_⟩
  · rw [constant]
    exact not_lipschitz
  · rw [place] at holds
    unfold State.bounded
    rw [holds.1.smooth_eq, model, Bool.eq_false_iff, ne_eq, Exact.le_real]
    exact stretched

end Steep

end ForwardBackward
