/-
# ForwardBackward.Proofs.Smooth -- the smooth term and its quadratic model

The smooth term is `f(x) = ½ ‖A x‖²`.  If `Λ` bounds the square of the norm of the
linear part `L`, then `f` exceeds its quadratic model around `x` at no step
`xbar = x - r` of a size that is at most `1 / Λ`: the difference is

    f(xbar) - bound = ½ ‖L r‖² - ‖r‖² / (2 γ)

exactly (`Stepped.gap`).  So `f(xbar) ≤ bound` for every such size, whatever `r`
is, and a search halves the step size only while it is above `1 / Λ`
(`Snapshot.Kept.above_of_halves`).
-/
import ForwardBackward.Proofs.Buffers

namespace ForwardBackward

set_option autoImplicit false

open scoped InnerProductSpace

variable {σ : Type} {A : Operator σ Exact} {M : A.Meaning} {g : Prox σ Exact} {Λ γ : ℝ}

/-- The adjoint is that of the linear part, and `Λ` bounds the square of its norm. -/
structure Operator.Meaning.Smooth (M : A.Meaning) (Λ : ℝ) : Prop where
  adjoint : ∀ v y, ⟪M.linear v, y⟫_ℝ = ⟪v, M.adjoint y⟫_ℝ
  bound : ∀ v, ‖M.linear v‖ ^ 2 ≤ Λ * ‖v‖ ^ 2

/-- The smooth term. -/
noncomputable def Operator.Meaning.smooth (M : A.Meaning) (x : A.domain.Space) : ℝ :=
  1 / 2 * ‖M.map x‖ ^ 2

/-- The smooth term at `x - r` by the smooth term and the gradient at `x`. -/
theorem Operator.Meaning.Smooth.expansion (smooth : M.Smooth Λ) (x r : A.domain.Space) :
    M.smooth (x - r) =
      M.smooth x - ⟪M.adjoint (M.map x), r⟫_ℝ + 1 / 2 * ‖M.linear r‖ ^ 2 := by
  have image : M.map (x - r) = M.map x - M.linear r := by
    rw [sub_eq_add_neg, M.map_add, map_neg, ← sub_eq_add_neg]
  have slope : ⟪M.adjoint (M.map x), r⟫_ℝ = ⟪M.map x, M.linear r⟫_ℝ := by
    rw [real_inner_comm, ← smooth.adjoint, real_inner_comm]
  unfold Operator.Meaning.smooth
  rw [image, norm_sub_sq_real, slope]
  ring

/-- The smooth term is nowhere below its linear model. -/
theorem Operator.Meaning.Smooth.linear_le (smooth : M.Smooth Λ) (x u : A.domain.Space) :
    M.smooth x + ⟪M.adjoint (M.map x), u - x⟫_ℝ ≤ M.smooth u := by
  have expansion := smooth.expansion x (x - u)
  rw [sub_sub_cancel, ← neg_sub u x, inner_neg_right] at expansion
  have convex : 0 ≤ 1 / 2 * ‖M.linear (-(u - x))‖ ^ 2 := by positivity
  linarith

section Parts

variable {x ax grad xbar r axbar : Vec Exact} {fx gxbar residual bound fxbar : Exact}

/-- The smooth term at the iterate, where it is computed. -/
theorem Evaluated.smooth_eq (evaluated : Evaluated M x ax fx grad) :
    fx = .real (M.smooth (x.point A.domain)) := by
  rw [evaluated.value, evaluated.image]
  rfl

/-- How far the smooth term at the step is above its quadratic model. -/
theorem Stepped.gap (smooth : M.Smooth Λ) (evaluated : Evaluated M x ax fx grad)
    (stepped : Stepped g A.domain γ x fx grad xbar gxbar r residual bound) :
    ∃ B, bound = .real B ∧ M.smooth (xbar.point A.domain) - B =
      1 / 2 * ‖M.linear (r.point A.domain)‖ ^ 2 - ‖r.point A.domain‖ ^ 2 / (2 * γ) := by
  obtain ⟨f, value, model⟩ := stepped.model
  refine ⟨_, model, ?_⟩
  have back : xbar.point A.domain = x.point A.domain - r.point A.domain := by
    rw [stepped.difference, sub_sub_cancel]
  have start : M.smooth (x.point A.domain) = f :=
    Exact.real.inj (evaluated.smooth_eq.symm.trans value)
  rw [back, smooth.expansion, start, evaluated.gradient, evaluated.image]
  ring

/-- How far the smooth term at the step is below its quadratic model. -/
theorem Stepped.smooth_add_le (smooth : M.Smooth Λ) (evaluated : Evaluated M x ax fx grad)
    (stepped : Stepped g A.domain γ x fx grad xbar gxbar r residual bound) (positive : 0 < γ) :
    ∃ B, bound = .real B ∧
      M.smooth (xbar.point A.domain) + (1 - γ * Λ) / (2 * γ) * ‖r.point A.domain‖ ^ 2 ≤ B := by
  obtain ⟨B, model, gap⟩ := stepped.gap smooth evaluated
  refine ⟨B, model, ?_⟩
  have curvature := smooth.bound (r.point A.domain)
  have split : (1 - γ * Λ) / (2 * γ) * ‖r.point A.domain‖ ^ 2 =
      ‖r.point A.domain‖ ^ 2 / (2 * γ) - 1 / 2 * (Λ * ‖r.point A.domain‖ ^ 2) := by
    field_simp
  linarith

/-- At a step of a size up to `1 / Λ` the smooth term is at most its quadratic model. -/
theorem Stepped.smooth_le (smooth : M.Smooth Λ) (evaluated : Evaluated M x ax fx grad)
    (stepped : Stepped g A.domain γ x fx grad xbar gxbar r residual bound) (positive : 0 < γ)
    (small : γ * Λ ≤ 1) : ∃ B, bound = .real B ∧ M.smooth (xbar.point A.domain) ≤ B := by
  obtain ⟨B, model, below⟩ := stepped.smooth_add_le smooth evaluated positive
  have decrease : 0 ≤ (1 - γ * Λ) / (2 * γ) * ‖r.point A.domain‖ ^ 2 :=
    mul_nonneg (div_nonneg (sub_nonneg.mpr small) (by positivity)) (by positivity)
  exact ⟨B, model, by linarith⟩

/-- The smooth term at the step, where it is computed. -/
theorem StepEvaluated.smooth_eq (stepEvaluated : StepEvaluated M xbar axbar fxbar) :
    fxbar = .real (M.smooth (xbar.point A.domain)) := by
  rw [stepEvaluated.value, stepEvaluated.image]
  rfl

end Parts

/-- How far the level of a search along a direction is above the objective at the step. -/
theorem State.Sound.level_ge {s : State Exact} {level : Exact} {G : ℝ} (smooth : M.Smooth Λ)
    (sound : s.Sound M g γ) (recorded : s.recorded = s.value) (regular : s.gxbar = .real G)
    (allowed : s.level = .ok level) :
    ∃ l, level = .real l ∧ M.smooth (s.xbar.point A.domain) + G +
      ((1 - γ * Λ) / (2 * γ) - slopeOf γ) * ‖s.r.point A.domain‖ ^ 2 ≤ l := by
  obtain ⟨sized, evaluated, stepped, _⟩ := sound
  obtain ⟨B, model, below⟩ := stepped.smooth_add_le smooth evaluated sized.positive
  obtain ⟨square, squared, rfl⟩ := level_accepts.mp allowed
  rw [stepped.norm] at squared
  cases squared.symm.trans (Exact.square_real _)
  rw [recorded, State.value, model, regular, sized.sigma, Exact.real_add, Exact.real_mul,
    Exact.real_sub]
  exact ⟨_, rfl, by linarith⟩

/-- A test of a step size up to `1 / Λ` is met. -/
theorem State.bounded_of_small {s : State Exact} (smooth : M.Smooth Λ) (sound : s.Sound M g γ)
    (stepEvaluated : StepEvaluated M s.xbar s.axbar s.fxbar) (small : γ * Λ ≤ 1) :
    s.bounded = true := by
  obtain ⟨B, model, below⟩ :=
    sound.stepped.smooth_le smooth sound.evaluated sound.sized.positive small
  unfold State.bounded
  rw [stepEvaluated.smooth_eq, model, Exact.le_real]
  exact below

/-- The step size is halved only where it is above `1 / Λ`. -/
theorem Snapshot.Kept.above_of_halves {v : Snapshot σ Exact} (smooth : M.Smooth Λ)
    (kept : v.Kept M g) (halves : v.halves = true) :
    ∃ γ, v.state.gamma = .real γ ∧ 1 < γ * Λ := by
  obtain ⟨γ, sound, holds⟩ := kept
  refine ⟨γ, sound.sized.gamma, ?_⟩
  by_contra small
  obtain ⟨place, left, s, w⟩ := v
  unfold Snapshot.halves at halves
  split at halves
  · next n searching =>
      cases searching
      have met := State.bounded_of_small smooth sound holds.1 (not_lt.mp small)
      rw [met] at halves
      cases halves
  · cases halves

end ForwardBackward
