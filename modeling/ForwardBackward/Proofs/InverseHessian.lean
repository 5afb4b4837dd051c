/-
# ForwardBackward.Proofs.InverseHessian -- the inverse Hessian of some secant pairs

The approximation `H` of an inverse Hessian is corrected by one secant pair `(s, y)`
at a time, with the factor `ρ = 1 / ⟪s, y⟫` (`correction`): with
`w = H (v - ρ ⟪s, v⟫ y)` the corrected product with `v` is
`w - ρ ⟪y, w⟫ s + ρ ⟪s, v⟫ s`.  `inverseHessian` corrects a multiple of the
identity by some pairs, the oldest first; `scalingOf` is the multiple that goes
with the newest pair, `⟪s, y⟫ / ‖y‖²`.

A correction keeps a linear map linear and a symmetric one symmetric, with any
factor; with a positive factor it keeps a positive definite one positive definite
(`Definite.correction`), because
`⟪v, H' v⟫ = ⟪v - ρ ⟪s, v⟫ y, w⟫ + ρ ⟪s, v⟫²` (`inner_correction`).  Neither needs
the factor to be the one of the pair.  With the factor of the pair the corrected
product with `y` is `s` (`correction_secant`), whatever was corrected.
-/
import Mathlib.Analysis.InnerProductSpace.Basic

namespace ForwardBackward

set_option autoImplicit false

open scoped InnerProductSpace

variable {V : Type} [NormedAddCommGroup V] [InnerProductSpace ℝ V]

/-- The product of a vector with `H` corrected by a pair, with a factor. -/
def correction (ρ : ℝ) (s y : V) (H : V → V) (v : V) : V :=
  let w := H (v - (ρ * ⟪s, v⟫_ℝ) • y)
  w - (ρ * ⟪y, w⟫_ℝ) • s + (ρ * ⟪s, v⟫_ℝ) • s

/-- The product of a vector with the inverse Hessian of some pairs, the newest first, that
starts from a multiple of the identity. -/
noncomputable def inverseHessian (scaling : ℝ) : List (V × V) → V → V
  | [], v => scaling • v
  | (s, y) :: older, v => correction (1 / ⟪s, y⟫_ℝ) s y (inverseHessian scaling older) v

/-- The multiple of the identity that goes with the newest of some pairs. -/
noncomputable def scalingOf : List (V × V) → ℝ
  | [] => 1
  | (s, y) :: _ => ⟪s, y⟫_ℝ / ‖y‖ ^ 2

/-- A linear map that is its own adjoint. -/
structure Symmetric (H : V → V) : Prop where
  linear : IsLinearMap ℝ H
  adjoint : ∀ u v, ⟪H u, v⟫_ℝ = ⟪u, H v⟫_ℝ

/-- A map whose product with a vector goes its way, as long as it does not vanish. -/
def Definite (H : V → V) : Prop := ∀ v, v ≠ 0 → 0 < ⟪v, H v⟫_ℝ

section Correction

variable {H : V → V} {ρ : ℝ} {s y : V}

theorem inner_correction (u v : V) :
    ⟪u, correction ρ s y H v⟫_ℝ =
      ⟪u - (ρ * ⟪s, u⟫_ℝ) • y, H (v - (ρ * ⟪s, v⟫_ℝ) • y)⟫_ℝ + ρ * ⟪s, u⟫_ℝ * ⟪s, v⟫_ℝ := by
  simp only [correction]
  generalize H (v - (ρ * ⟪s, v⟫_ℝ) • y) = w
  rw [inner_add_right, inner_sub_right, inner_sub_left, inner_smul_right, inner_smul_right,
    real_inner_smul_left, real_inner_comm s u]
  ring

theorem Symmetric.correction (symmetric : Symmetric H) :
    Symmetric (ForwardBackward.correction ρ s y H) := by
  obtain ⟨linear, adjoint⟩ := symmetric
  refine ⟨⟨?_, ?_⟩, ?_⟩
  · intro u v
    have sum : u + v - (ρ * ⟪s, u + v⟫_ℝ) • y =
        (u - (ρ * ⟪s, u⟫_ℝ) • y) + (v - (ρ * ⟪s, v⟫_ℝ) • y) := by
      rw [inner_add_right]
      module
    simp only [ForwardBackward.correction]
    rw [sum, linear.map_add, inner_add_right, inner_add_right]
    module
  · intro c v
    have multiple : c • v - (ρ * ⟪s, c • v⟫_ℝ) • y = c • (v - (ρ * ⟪s, v⟫_ℝ) • y) := by
      rw [inner_smul_right]
      module
    simp only [ForwardBackward.correction]
    rw [multiple, linear.map_smul, inner_smul_right, inner_smul_right]
    module
  · intro u v
    rw [real_inner_comm, inner_correction, inner_correction, ← adjoint, real_inner_comm]
    ring

/-- Corrected by a pair with its own factor, a linear map sends `y` to `s`. -/
theorem correction_secant (linear : IsLinearMap ℝ H) (factor : ρ * ⟪s, y⟫_ℝ = 1) :
    correction ρ s y H y = s := by
  simp only [correction, factor, one_smul, sub_self, linear.map_zero, inner_zero_right, mul_zero,
    zero_smul, zero_add]

theorem Definite.correction (definite : Definite H) (positive : 0 < ρ) :
    Definite (ForwardBackward.correction ρ s y H) := by
  intro v nonzero
  rw [inner_correction]
  have square : ρ * ⟪s, v⟫_ℝ * ⟪s, v⟫_ℝ = ρ * ⟪s, v⟫_ℝ ^ 2 := by ring
  rw [square]
  by_cases vanishes : v - (ρ * ⟪s, v⟫_ℝ) • y = 0
  · -- then `v` is a multiple of `y`, and not by zero
    have along : ⟪s, v⟫_ℝ ≠ 0 := by
      intro zero
      rw [zero, mul_zero, zero_smul, sub_zero] at vanishes
      exact nonzero vanishes
    rw [vanishes, inner_zero_left, zero_add]
    positivity
  · have first := definite _ vanishes
    positivity

end Correction

/-- Minus the product with a definite map goes down, and there is nowhere to go from zero. -/
theorem Definite.goes_down {H : V → V} {v d : V} (definite : Definite H) (symmetric : Symmetric H)
    (minus : d = -H v) : (v ≠ 0 → ⟪v, d⟫_ℝ < 0) ∧ (v = 0 → d = 0) := by
  subst minus
  constructor
  · intro nonzero
    rw [inner_neg_right]
    exact neg_lt_zero.mpr (definite v nonzero)
  · rintro rfl
    rw [symmetric.linear.map_zero, neg_zero]

section Scaling

variable {c : ℝ}

theorem symmetric_smul (c : ℝ) : Symmetric fun v : V => c • v := by
  refine ⟨⟨fun u v => smul_add c u v, fun b v => smul_comm c b v⟩, fun u v => ?_⟩
  rw [real_inner_smul_left, inner_smul_right]

theorem definite_smul (positive : 0 < c) : Definite fun v : V => c • v := by
  intro v nonzero
  rw [inner_smul_right]
  exact mul_pos positive (real_inner_self_pos.mpr nonzero)

theorem inverseHessian_symmetric (c : ℝ) (pairs : List (V × V)) :
    Symmetric (inverseHessian c pairs) := by
  induction pairs with
  | nil => exact symmetric_smul c
  | cons pair older ih => exact ih.correction

/-- A product where the step is a unit vector and the change of residual, for any factor. -/
theorem correction_of_unit {e : V} (unit : ‖e‖ = 1) (ρ c : ℝ) (v : V) :
    correction ρ e e (fun v => c • v) v = c • v + (ρ * ⟪e, v⟫_ℝ * (1 - 2 * c + c * ρ)) • e := by
  have square : ⟪e, e⟫_ℝ = 1 := by rw [real_inner_self_eq_norm_sq, unit, one_pow]
  simp only [correction, inner_smul_right, inner_sub_right, square]
  module

/-- The product with the step itself. -/
theorem correction_unit {e : V} (unit : ‖e‖ = 1) (ρ c : ℝ) :
    correction ρ e e (fun v => c • v) e = (c * (1 - ρ) ^ 2 + ρ) • e := by
  rw [correction_of_unit unit, real_inner_self_eq_norm_sq, unit]
  module

/-- A change of residual that is the step itself leaves the identity what it is. -/
theorem inverseHessian_self {v : V} (nonzero : v ≠ 0) (w : V) :
    inverseHessian (scalingOf [(v, v)]) [(v, v)] w = w := by
  have square : ⟪v, v⟫_ℝ = ‖v‖ ^ 2 := real_inner_self_eq_norm_sq v
  have length : ‖v‖ ^ 2 ≠ 0 := by
    have positive : 0 < ‖v‖ := norm_pos_iff.mpr nonzero
    positivity
  have cancelled : 1 / ‖v‖ ^ 2 * (⟪v, w⟫_ℝ - 1 / ‖v‖ ^ 2 * ⟪v, w⟫_ℝ * ‖v‖ ^ 2) = 0 := by
    field_simp
    ring
  simp only [inverseHessian, scalingOf, correction, square, div_self length, one_smul,
    inner_sub_right, inner_smul_right, cancelled, zero_smul, sub_zero, sub_add_cancel]

end Scaling

end ForwardBackward
