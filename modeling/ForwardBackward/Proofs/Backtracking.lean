/-
# ForwardBackward.Proofs.Backtracking -- the step size of a whole run

The step size is halved only where it is above `1 / Λ`, and nothing else changes
it.  So the halvings of a whole run are few, however many iterations it has: the
last of `n` halvings was of the step size `γ₀ / 2 ^ (n - 1)`, and that was above
`1 / Λ` (`Course.halvings_few`).  The step size never falls below the half of
`1 / Λ`, unless it began there.

Main fact: `Solver.stepSize_bounded`, for every operator that is affine, whatever
the proximal step does.
-/
import ForwardBackward.Proofs.Multiples

namespace ForwardBackward

set_option autoImplicit false

open Snapshot (halvings)

variable {σ : Type} {A : Operator σ Exact} {M : A.Meaning} {g : Prox σ Exact}
  {c : Config σ Exact} {Λ γ γ₀ : ℝ}

/-- Of the halvings on the way each was of a step size above `1 / Λ`. -/
theorem Course.halvings_few {a b : Snapshot σ Exact} {vs : List (Snapshot σ Exact)}
    (smooth : M.Smooth Λ) (stays : g.StaysIn A.domain) (kept : a.Kept M g)
    (sized : Sized γ₀ a.state.gamma a.state.sigma) (course : Course c A g a vs b) :
    halvings vs = 0 ∨ 2 ^ (halvings vs - 1) < γ₀ * Λ := by
  induction course with
  | stay => exact .inl rfl
  | @move vs b d before _ ih =>
      rw [Snapshot.halvings_append, Snapshot.halvings_single]
      by_cases halves : b.halves = true
      · obtain ⟨γ, gamma, above⟩ := (before.kept stays kept).above_of_halves smooth halves
        have same : γ = γ₀ / 2 ^ halvings vs :=
          Exact.real.inj (gamma.symm.trans (before.sized sized).gamma)
        refine .inr ?_
        rw [if_pos halves, Nat.add_sub_cancel]
        rw [same, div_mul_eq_mul_div, lt_div_iff₀ (by positivity), one_mul] at above
        exact above
      · rw [if_neg halves]
        exact ih

/-- What is known of the step size `γ` at the snapshot `b`, behind the snapshots `vs` of a run
that began with the step size `γ₀`. -/
structure Snapshot.Backtracked (c : Config σ Exact) (Λ γ₀ γ : ℝ) (vs : List (Snapshot σ Exact))
    (b : Snapshot σ Exact) : Prop where
  gamma : b.state.gamma = .real γ
  /-- It is halved only where it is above `1 / Λ`. -/
  above : b.halves = true → 1 / Λ < γ
  lower : min γ₀ (1 / (2 * Λ)) ≤ γ
  upper : γ ≤ γ₀
  few : halvings vs = 0 ∨ 2 ^ (halvings vs - 1) < γ₀ * Λ
  halved : γ = γ₀ / 2 ^ halvings vs
  slope : b.state.gamma * b.state.sigma = safety / 4
  /-- A search that fails has spent its budget on halvings. -/
  failures : ∀ n, c.searchBudget.toNat = .ok n → b.state.gammaFailures * n ≤ halvings vs

theorem Sized.product {gamma sigma : Exact} (sized : Sized γ gamma sigma) :
    gamma * sigma = safety / 4 := by
  obtain ⟨positive, rfl, rfl⟩ := sized
  rw [safety_eq, Exact.four_eq, Exact.real_mul, Exact.real_div _ _ four_ne_zero, slopeOf]
  congr 1
  field_simp

/-- What was halved `n` times, the last time above `1 / Λ`, is at least the half of that. -/
theorem halved_ge {n : ℕ} (positive : 0 < Λ) (few : n = 0 ∨ 2 ^ (n - 1) < γ₀ * Λ) :
    min γ₀ (1 / (2 * Λ)) ≤ γ₀ / 2 ^ n := by
  cases n with
  | zero =>
      rw [pow_zero, div_one]
      exact min_le_left _ _
  | succ n =>
      have last : (2 : ℝ) ^ n < γ₀ * Λ := few.resolve_left n.succ_ne_zero
      refine le_trans (min_le_right _ _) ?_
      rw [div_le_div_iff₀ (by positivity) (by positivity), one_mul, pow_succ]
      linarith

namespace Solver

variable {x0 : Option (Vec Exact)} {w : World σ Exact} {vs : List (Snapshot σ Exact)}
  {b : Snapshot σ Exact}

/-- The step size at every moment of a run, in exact arithmetic.  The run begins with the step
size `γ₀`, which is the given one if there is one; what has become of it is told by
`Snapshot.Backtracked`. -/
theorem stepSize_bounded (M : A.Meaning) (smooth : M.Smooth Λ) (positive : 0 < Λ)
    (stays : g.StaysIn A.domain) (checked : c.Checked)
    (finite : ∀ v, x0 = some v → v.allFinite = true) (passes : Passes A g x0 c w vs b) :
    ∃ s₀ w₀ γ₀ γ, launch A g x0 c w = .ok s₀ w₀ ∧ s₀.gamma = .real γ₀ ∧ 0 < γ₀ ∧
      (∀ gamma, c.stepSize = some gamma → gamma = .real γ₀) ∧ b.Backtracked c Λ γ₀ γ vs := by
  obtain ⟨s₀, w₀, limit, launched, _, course⟩ := passes
  obtain ⟨γ₀, sized, given⟩ := launch_sized checked launched
  have kept := launch_kept M stays checked finite launched limit
  have few := course.halvings_few smooth stays kept sized
  have now := course.sized sized
  refine ⟨s₀, w₀, γ₀, _, launched, sized.gamma, sized.positive, given, now.gamma, ?_,
    halved_ge positive few, ?_, few, rfl, now.product, fun n budget => ?_⟩
  · intro halves
    obtain ⟨γ, gamma, above⟩ := (course.kept stays kept).above_of_halves smooth halves
    rw [← Exact.real.inj (gamma.symm.trans now.gamma), div_lt_iff₀ positive]
    exact above
  · exact div_le_self sized.positive.le (one_le_pow₀ one_le_two)
  · exact course.gammaFailures_le rfl (launch_starts launched).2.1 budget

/-- A run that begins with a step size that is too large. -/
theorem plain_stepSize_bounded :
    ∃ r w' vs status s₀ w₀ γ, ∃ b : Snapshot Unit Exact,
      solve Plain.operator Plain.prox (some Plain.start) (Plain.config 4) Plain.world = .ok r w' ∧
      r = b.state.result status ∧
      launch Plain.operator Plain.prox (some Plain.start) (Plain.config 4) Plain.world =
        .ok s₀ w₀ ∧ b.Backtracked (Plain.config 4) 1 4 γ vs := by
  obtain ⟨r, w', returned⟩ := Plain.returns four_pos
  obtain ⟨vs, b, status, passes, _, same⟩ := passes_of_solve returned
  obtain ⟨s₀, w₀, γ₀, γ, launched, _, _, given, backtracked⟩ := stepSize_bounded Plain.meaning
    Plain.smooth one_pos Prox.zero_staysIn (Plain.config_checked four_pos) Plain.start_finite passes
  obtain rfl : 4 = γ₀ := Exact.real.inj (given _ rfl)
  exact ⟨r, w', vs, status, s₀, w₀, γ, b, returned, same, launched, backtracked⟩

end Solver

end ForwardBackward
