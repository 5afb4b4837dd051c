/-
# ForwardBackward.Proofs.SmallerSteps -- what a smaller step size does to a step

From one point and its gradient, steps of two sizes are minimisers of two models that differ
in the weight of the distance alone.  Each is compared with the other's point, so from a
size `γ` to a smaller `γ'`

* the residual norm does not grow (`ProximalPoint.residual_le`),
* the envelope does not fall (`ProximalPoint.value_le`),
* and if the regularizer is convex the residual norm shrinks by no more than the step size:
  `‖r‖ / γ ≤ ‖r'‖ / γ'` (`ProximalPoint.residual_div_le`).  Both minima are strong then, and
  what the two inequalities leave is `(‖r‖ / γ - ‖r'‖ / γ') (‖r'‖ - ‖r‖) ≥ 0`.

`Regularizer.Tightens` says the three of what the program computes, and
`Regularizer.smaller_step_tightens` that they hold of any two steps from one point and of
every search for a step size, however many halvings it makes and however it ends: the
searches are only read as halvings (`State.gammaSearch_trial`), and the operator does not
matter.  Of the count of nonzero entries the third is false
(`Regularizer.count_step_loosens`).
-/
import ForwardBackward.Proofs.Convexity
import ForwardBackward.Proofs.Halvings

namespace ForwardBackward

set_option autoImplicit false

open scoped InnerProductSpace

/-! ## Two sizes -/

section Points

variable {E : Type} [NormedAddCommGroup E] [InnerProductSpace ℝ E] {C : Set E} {f : E → ℝ}
  {γ γ' : ℝ} {x d p p' : E}

/-- The linear and the quadratic term of the model around `x` with the gradient `d`. -/
noncomputable def modelAt (γ : ℝ) (x d w : E) : ℝ := ⟪d, w - x⟫_ℝ + ‖w - x‖ ^ 2 / (2 * γ)

theorem sq_norm_sub_step (positive : 0 < γ) (w : E) :
    ‖w - (x - γ • d)‖ ^ 2 / (2 * γ) = modelAt γ x d w + γ / 2 * ‖d‖ ^ 2 := by
  have apart : w - (x - γ • d) = (w - x) + γ • d := by abel
  rw [apart, norm_add_sq_real, real_inner_smul_right, norm_smul, mul_pow, Real.norm_eq_abs, sq_abs,
    real_inner_comm, modelAt]
  field_simp
  ring

namespace ProximalPoint

/-- A proximal point of `x - γ d` is one where the regularizer and the model are least. -/
theorem least_model (point : ProximalPoint C f γ (x - γ • d) p) (positive : 0 < γ) :
    ∀ w ∈ C, f p + modelAt γ x d p ≤ f w + modelAt γ x d w := by
  intro w inside
  have least := point.least w inside
  rw [sq_norm_sub_step positive, sq_norm_sub_step positive] at least
  linarith

theorem least_model_add (point : ProximalPoint C f γ (x - γ • d) p) (convex : ConvexOn ℝ C f)
    (positive : 0 < γ) :
    ∀ w ∈ C, f p + modelAt γ x d p + ‖w - p‖ ^ 2 / (2 * γ) ≤ f w + modelAt γ x d w := by
  intro w inside
  have least := point.least_add convex positive w inside
  rw [sq_norm_sub_step positive, sq_norm_sub_step positive] at least
  linarith

/-- The envelope does not fall. -/
theorem value_le (point : ProximalPoint C f γ (x - γ • d) p)
    (point' : ProximalPoint C f γ' (x - γ' • d) p') (smaller : 0 < γ') (le : γ' ≤ γ) :
    f p + modelAt γ x d p ≤ f p' + modelAt γ' x d p' := by
  refine (point.least_model (smaller.trans_le le) p' point'.mem).trans ?_
  unfold modelAt
  gcongr

/-- The residual norm does not grow. -/
theorem residual_le (point : ProximalPoint C f γ (x - γ • d) p)
    (point' : ProximalPoint C f γ' (x - γ' • d) p') (smaller : 0 < γ') (less : γ' < γ) :
    ‖p' - x‖ ≤ ‖p - x‖ := by
  have least := point.least_model (smaller.trans less) p' point'.mem
  have least' := point'.least_model smaller p point.mem
  unfold modelAt at least least'
  have weight : 0 < 1 / (2 * γ') - 1 / (2 * γ) :=
    sub_pos.mpr (one_div_lt_one_div_of_lt (by positivity) (by linarith))
  -- the two models differ in the weight of the squared distance
  have both : (1 / (2 * γ') - 1 / (2 * γ)) * (‖p' - x‖ ^ 2 - ‖p - x‖ ^ 2) ≤ 0 := by
    calc (1 / (2 * γ') - 1 / (2 * γ)) * (‖p' - x‖ ^ 2 - ‖p - x‖ ^ 2)
        = (‖p' - x‖ ^ 2 / (2 * γ') - ‖p - x‖ ^ 2 / (2 * γ')) +
            (‖p - x‖ ^ 2 / (2 * γ) - ‖p' - x‖ ^ 2 / (2 * γ)) := by ring
      _ ≤ 0 := by linarith
  exact le_of_sq_le_sq (sub_nonpos.mp (nonpos_of_mul_nonpos_right both weight)) (norm_nonneg _)

/-- Of a convex function the residual norm shrinks by no more than the step size. -/
theorem residual_div_le (point : ProximalPoint C f γ (x - γ • d) p)
    (point' : ProximalPoint C f γ' (x - γ' • d) p') (convex : ConvexOn ℝ C f) (smaller : 0 < γ')
    (le : γ' ≤ γ) : ‖p - x‖ / γ ≤ ‖p' - x‖ / γ' := by
  have positive : 0 < γ := smaller.trans_le le
  have least := point.least_model_add convex positive p' point'.mem
  have least' := point'.least_model_add convex smaller p point.mem
  unfold modelAt at least least'
  have apart : p' - p = (p' - x) - (p - x) := by abel
  rw [norm_sub_rev p p'] at least'
  rw [apart, norm_sub_sq_real (p' - x) (p - x)] at least least'
  have schwarz := real_inner_le_norm (p' - x) (p - x)
  -- both minima are strong, so their inequalities leave a product
  have product : (‖p - x‖ / γ - ‖p' - x‖ / γ') * (‖p - x‖ - ‖p' - x‖) ≤ 0 := by
    calc (‖p - x‖ / γ - ‖p' - x‖ / γ') * (‖p - x‖ - ‖p' - x‖)
        = ‖p - x‖ ^ 2 / γ + ‖p' - x‖ ^ 2 / γ' - (1 / γ + 1 / γ') * (‖p' - x‖ * ‖p - x‖) := by
          field_simp
          ring
      _ ≤ ‖p - x‖ ^ 2 / γ + ‖p' - x‖ ^ 2 / γ' - (1 / γ + 1 / γ') * ⟪p' - x, p - x⟫_ℝ := by
          gcongr
      _ ≤ 0 := by
          have sum : ‖p - x‖ ^ 2 / γ + ‖p' - x‖ ^ 2 / γ' - (1 / γ + 1 / γ') * ⟪p' - x, p - x⟫_ℝ =
              (‖p - x‖ ^ 2 / (2 * γ) +
                (‖p' - x‖ ^ 2 - 2 * ⟪p' - x, p - x⟫_ℝ + ‖p - x‖ ^ 2) / (2 * γ) -
                ‖p' - x‖ ^ 2 / (2 * γ)) +
              (‖p' - x‖ ^ 2 / (2 * γ') +
                (‖p' - x‖ ^ 2 - 2 * ⟪p' - x, p - x⟫_ℝ + ‖p - x‖ ^ 2) / (2 * γ') -
                ‖p - x‖ ^ 2 / (2 * γ')) := by
            field_simp
            ring
          rw [sum]
          linarith
  rcases lt_or_ge ‖p' - x‖ ‖p - x‖ with less | grown
  · exact sub_nonpos.mp (nonpos_of_mul_nonpos_left product (sub_pos.mpr less))
  · calc ‖p - x‖ / γ ≤ ‖p' - x‖ / γ := by gcongr
      _ ≤ ‖p' - x‖ / γ' := by gcongr

end ProximalPoint

end Points

/-! ## Steps of the program -/

variable {σ : Type} {g : Regularizer Exact} {S : Structure} {γ γ' f : ℝ}

/-- From the step size `γ` to `γ'` the residual norm does not grow and the envelope does not fall,
and of a convex regularizer the residual norm shrinks by no more than the step size. -/
def Regularizer.Tightens (g : Regularizer Exact) (γ γ' : ℝ)
    (residual value residual' value' : Exact) : Prop :=
  ∃ ρ ρ' E E', residual = .real ρ ∧ value = .real E ∧ residual' = .real ρ' ∧ value' = .real E' ∧
    ρ' ≤ ρ ∧ E ≤ E' ∧ (g.IsConvex → ρ / γ ≤ ρ' / γ')

section Steps

variable {x grad xbar r xbar' r' : Vec Exact} {fx gxbar residual bound gxbar' residual' bound' : Exact}

/-- What a step computes, as a proximal point. -/
theorem Stepped.proximalPoint {C : Set S.Space} {h : S.Space → ℝ} (models : g.Models S C h)
    (positive : 0 < γ) (hx : x.Fits S) (hg : grad.Fits S)
    (stepped : Stepped (Prox.ofRegularizer g : Prox σ Exact) S γ x (.real f) grad xbar gxbar r
      residual bound) :
    ProximalPoint C h γ (x.point S - γ • grad.point S) (xbar.point S) ∧
      residual = .real ‖xbar.point S - x.point S‖ ∧
      bound + gxbar = .real (f + (h (xbar.point S) +
        modelAt γ (x.point S) (grad.point S) (xbar.point S))) := by
  obtain ⟨v, _, _, moved, target, returned⟩ := stepped.step
  obtain ⟨fits, _⟩ := hg.of_axpy hx moved
  obtain ⟨regular, point⟩ :=
    models.point positive fits (Regularizer.prox_of_returns returned)
  obtain ⟨_, value, model⟩ := stepped.model
  cases value
  rw [target] at point
  have back : r.point S = -(xbar.point S - x.point S) := by rw [stepped.difference, neg_sub]
  refine ⟨point, by rw [stepped.norm, back, norm_neg], ?_⟩
  rw [model, regular, Exact.real_add, back, inner_neg_right, norm_neg, modelAt]
  congr 1
  ring

/-- Two steps from one point. -/
theorem Stepped.tightens (proper : g.Proper S) (smaller : 0 < γ') (le : γ' ≤ γ) (hx : x.Fits S)
    (hg : grad.Fits S)
    (stepped : Stepped (Prox.ofRegularizer g : Prox σ Exact) S γ x (.real f) grad xbar gxbar r
      residual bound)
    (stepped' : Stepped (Prox.ofRegularizer g : Prox σ Exact) S γ' x (.real f) grad xbar' gxbar' r'
      residual' bound') :
    g.Tightens γ γ' residual (bound + gxbar) residual' (bound' + gxbar') := by
  obtain ⟨C, h, models, convex⟩ := proper.models
  obtain ⟨point, norm, value⟩ := stepped.proximalPoint models (smaller.trans_le le) hx hg
  obtain ⟨point', norm', value'⟩ := stepped'.proximalPoint models smaller hx hg
  refine ⟨_, _, _, _, norm, value, norm', value', ?_,
    add_le_add_right (point.value_le point' smaller le) f,
    fun isConvex => point.residual_div_le point' (convex isConvex) smaller le⟩
  rcases le.lt_or_eq with less | rfl
  · exact point.residual_le point' smaller less
  · -- two steps of one size are the same step, also where there are several minimisers
    obtain ⟨v, _, _, moved, _, returned⟩ := stepped.step
    obtain ⟨v', _, _, moved', _, returned'⟩ := stepped'.step
    cases moved.symm.trans moved'
    have answered := Regularizer.prox_of_returns returned
    cases answered.symm.trans (Regularizer.prox_of_returns returned')
    exact le_rfl

end Steps

/-! ## Searches -/

/-- The step of a state and its envelope are those of the iterate, the smooth term and the gradient
there, which may come from anywhere, and of a step size that is a positive number. -/
def State.Aligned (s : State Exact) (g : Prox σ Exact) (S : Structure) : Prop :=
  ∃ γ f, 0 < γ ∧ s.gamma = .real γ ∧ s.fx = .real f ∧ s.x.Fits S ∧ s.grad.Fits S ∧
    Stepped g S γ s.x (.real f) s.grad s.xbar s.gxbar s.r s.residual s.bound

namespace State

variable {A : Operator σ Exact} {s : State Exact} {t : Nat → Trial Exact} {e : Nat → σ} {env : σ}
  {k : Nat}

/-- Consistent states are aligned. -/
theorem Consistent.aligned {M : A.Meaning} {g : Prox σ Exact} (consistent : s.Consistent M g)
    (positive : Scalar.lt 0 s.gamma = true) : s.Aligned g A.domain := by
  obtain ⟨γ, size, evaluated, stepped⟩ := consistent
  rw [size, Exact.zero_eq, Exact.lt_real] at positive
  have value := evaluated.value
  rw [value] at stepped
  exact ⟨γ, _, positive, size, value, evaluated.x_fits, evaluated.grad_fits, stepped⟩

theorem gammaAt_real (size : s.gamma = .real γ) (k : Nat) : s.gammaAt k = .real (γ / 2 ^ k) := by
  induction k with
  | zero => rw [pow_zero, div_one]; exact size
  | succ k ih =>
      have halved : s.gammaAt (k + 1) = s.gammaAt k * 0.5 := Function.iterate_succ_apply' _ _ _
      rw [halved, ih, Exact.half_eq, Exact.real_mul]
      congr 1
      rw [pow_succ]
      ring

/-- Every trial is a step from the iterate, of its size. -/
theorem Trials.stepped {g : Prox σ Exact} (stays : g.StaysIn S) (positive : 0 < γ)
    (size : s.gamma = .real γ) (value : s.fx = .real f) (hx : s.x.Fits S) (hg : s.grad.Fits S)
    (stepped : Stepped g S γ s.x (.real f) s.grad s.xbar s.gxbar s.r s.residual s.bound)
    (trials : s.Trials A g env k t e) :
    Stepped g S (γ / 2 ^ k) s.x (.real f) s.grad (t k).xbar (t k).gxbar (t k).r (t k).residual
      (t k).bound := by
  cases k with
  | zero =>
      rw [trials.given, pow_zero, div_one]
      exact stepped
  | succ k =>
      have next := trials.next k (Nat.lt_succ_self k)
      rw [gammaAt_real size, value] at next
      have smaller : 0 < γ / 2 ^ (k + 1) := by positivity
      obtain ⟨p, envelope, axbar, square, _, taken, enveloped, _, _, made⟩ :=
        Trial.compute_returns.mp next
      obtain ⟨v, moved, answered⟩ := forwardBackwardStep_returns.mp taken
      rw [Exact.neg_real] at moved
      obtain ⟨fits, answers⟩ := stays.answers smaller hx hg moved answered
      obtain ⟨_, same, _, steps⟩ := answers.enveloped (f := f) smaller hx hg fits
      cases enveloped.symm.trans same
      rw [made]
      exact steps

/-- A search leaves a step from the same iterate, of a size that is not larger. -/
theorem Aligned.gammaSearch {s' : State Exact} {budget : Count Exact} {found : Bool} {env' : σ}
    (proper : g.Proper S) (aligned : s.Aligned (.ofRegularizer g : Prox σ Exact) S)
    (returned : s.gammaSearch A (.ofRegularizer g) budget env = .ok (found, s') env') :
    ∃ γ γ', s.gamma = .real γ ∧ s'.gamma = .real γ' ∧ 0 < γ' ∧ γ' ≤ γ ∧
      g.Tightens γ γ' s.residual s.value s'.residual s'.value := by
  obtain ⟨γ, f, positive, size, value, hx, hg, stepped⟩ := aligned
  obtain ⟨k, t, e, trials, left⟩ := gammaSearch_trial returned
  have steps := trials.stepped proper.staysIn positive size value hx hg stepped
  have smaller : 0 < γ / 2 ^ k := by positivity
  have le : γ / 2 ^ k ≤ γ := div_le_self positive.le (one_le_pow₀ one_le_two)
  have tightens := stepped.tightens proper smaller le hx hg steps
  refine ⟨γ, γ / 2 ^ k, size, ?_, smaller, le, ?_⟩
  · rcases left with rfl | rfl <;> exact gammaAt_real size k
  · rcases left with rfl | rfl <;> exact tightens

end State

/-- What a smaller step size does, in exact arithmetic, for every regularizer of the catalogue.

* From one point with its gradient, steps of any two sizes are answered where the regularizer takes
  the point and the gradient.  Of two answered steps, the one of the smaller size has no larger
  residual norm and no smaller envelope; and if the regularizer is convex, its residual norm is
  smaller by no more than its size is.
* So it is between the state that a search for a step size is given and the one it returns,
  whatever the operator is, however many halvings there are, and whether it finds or not. -/
theorem Regularizer.smaller_step_tightens (proper : g.Proper S) :
    (∀ {x grad : Vec Exact} {f γ γ' : ℝ}, x.Fits S → grad.Fits S → 0 < γ' → γ' ≤ γ →
      (g.Takes x → g.Takes grad → ∀ (t : ℝ) (env : σ), 0 < t → ∃ p e,
        forwardBackwardStep (.ofRegularizer g) x grad (.real t) env = .ok p env ∧
          envelope x p.1 p.2 (.real f) grad (.real t) = .ok e) ∧
      ∀ {p p' : Vec Exact × Exact} {e e' : Envelope Exact} {env env₁ env' env₁' : σ},
        forwardBackwardStep (.ofRegularizer g) x grad (.real γ) env = .ok p env₁ →
        envelope x p.1 p.2 (.real f) grad (.real γ) = .ok e →
        forwardBackwardStep (.ofRegularizer g) x grad (.real γ') env' = .ok p' env₁' →
        envelope x p'.1 p'.2 (.real f) grad (.real γ') = .ok e' →
        g.Tightens γ γ' e.residual e.value e'.residual e'.value) ∧
    ∀ (A : Operator σ Exact) {s s' : State Exact} {budget : Count Exact} {found : Bool}
      {env env' : σ}, s.Aligned (.ofRegularizer g : Prox σ Exact) S →
      s.gammaSearch A (.ofRegularizer g) budget env = .ok (found, s') env' →
      ∃ γ γ', s.gamma = .real γ ∧ s'.gamma = .real γ' ∧ 0 < γ' ∧ γ' ≤ γ ∧
        g.Tightens γ γ' s.residual s.value s'.residual s'.value := by
  refine ⟨fun {x grad f γ γ'} hx hg smaller le => ⟨fun point slope t env positive => ?_, ?_⟩,
    fun A s s' budget found env env' aligned returned => aligned.gammaSearch proper returned⟩
  · obtain ⟨p, stepped⟩ := step_answers proper positive hx hg point slope env
    obtain ⟨e, enveloped, _⟩ := step_enveloped (f := f) proper positive hx hg stepped
    exact ⟨p, e, stepped, enveloped⟩
  · intro p p' e e' env env₁ env' env₁' first enveloped second enveloped'
    obtain ⟨_, same, value, stepped⟩ :=
      step_enveloped (f := f) proper (smaller.trans_le le) hx hg first
    cases enveloped.symm.trans same
    obtain ⟨_, same', value', stepped'⟩ := step_enveloped (f := f) proper smaller hx hg second
    cases enveloped'.symm.trans same'
    rw [value, value']
    exact stepped.tightens proper smaller le hx hg stepped'

/-- Two steps towards the smallest sum of moduli, and a search that halves twice. -/
theorem Regularizer.plain_smaller_step_tightens :
    (∃ p p' e e',
      let g : Regularizer Exact := .l1 (.real 1)
      let P : Prox Unit Exact := .ofRegularizer g
      g.Proper Plain.pair ∧ Plain.start.Fits Plain.pair ∧
      forwardBackwardStep P Plain.start Plain.start (.real 2) () = .ok p () ∧
      envelope Plain.start p.1 p.2 (.real (25 / 2)) Plain.start (.real 2) = .ok e ∧
      forwardBackwardStep P Plain.start Plain.start (.real 1) () = .ok p' () ∧
      envelope Plain.start p'.1 p'.2 (.real (25 / 2)) Plain.start (.real 1) = .ok e' ∧
      g.Tightens 2 1 e.residual e.value e'.residual e'.value) ∧
    ∃ s s' : State Exact, Regularizer.zero.Proper Plain.pair ∧ s.Aligned Plain.prox Plain.pair ∧
      s.gammaSearch Plain.operator Plain.prox (.whole 32) () = .ok (true, s') () ∧
      s.gamma = .real 4 ∧ s'.gamma = .real 1 ∧
      Regularizer.zero.Tightens 4 1 s.residual s.value s'.residual s'.value := by
  have fits := Plain.start_fits
  constructor
  · have proper : (Regularizer.l1 (.real 1)).Proper Plain.pair := ⟨1, zero_le_one, rfl⟩
    obtain ⟨steps, _⟩ := smaller_step_tightens (σ := Unit) proper
    obtain ⟨answers, tightens⟩ :=
      steps (f := 25 / 2) fits fits one_pos (show (1 : ℝ) ≤ 2 by norm_num)
    obtain ⟨p, e, stepped, enveloped⟩ := answers trivial trivial 2 () two_pos
    obtain ⟨p', e', stepped', enveloped'⟩ := answers trivial trivial 1 () one_pos
    exact ⟨p, p', e, e', proper, fits, stepped, enveloped, stepped', enveloped',
      tightens stepped enveloped stepped' enveloped'⟩
  · obtain ⟨s, t, _, size, evaluated, made, trials, unmet, met⟩ := Plain.overshoots
    have proper : Regularizer.zero.Proper Plain.pair := trivial
    have aligned : s.Aligned Plain.prox Plain.pair := by
      rw [size] at made
      obtain ⟨p, e, _, _, _, stepped, enveloped, _, _, same⟩ := Trial.compute_returns.mp made
      obtain ⟨_, envelopes, _, steps⟩ := evaluated.step_enveloped proper four_pos stepped
      cases enveloped.symm.trans envelopes
      obtain ⟨xbar, gxbar, r, residual, bound, _, _⟩ := (Trial.mk.injEq ..).mp same
      rw [← xbar, ← gxbar, ← r, ← residual, ← bound] at steps
      have consistent : s.Consistent Plain.meaning Plain.prox := ⟨4, size, evaluated, steps⟩
      refine consistent.aligned ?_
      rw [size, Exact.zero_eq, Exact.lt_real]
      exact four_pos
    have found : s.gammaSearch Plain.operator Plain.prox (.whole 32) () =
        .ok (true, s.atTrial 2 (t 2)) () := by
      rw [State.gammaSearch_eq (show (Count.whole 32 : Count Exact).toNat = .ok 32 from rfl)]
      exact State.gammaTrials_met trials (by norm_num) unmet met
    obtain ⟨γ, γ', here, there, _, _, tightens⟩ :=
      (smaller_step_tightens proper).2 Plain.operator aligned found
    have left : (s.atTrial 2 (t 2)).gamma = .real 1 :=
      (State.gammaAt_real size 2).trans (by norm_num)
    obtain rfl : γ = 4 := Exact.real.inj (here.symm.trans size)
    obtain rfl : γ' = 1 := Exact.real.inj (there.symm.trans left)
    exact ⟨s, _, proper, aligned, found, size, left, tightens⟩

/-! ## A count of nonzero entries -/

namespace Plain

theorem start_apply (i : Fin pair.dimension) : ∃ a : ℝ, start.point pair i = a ∧ 3 ≤ a ∧ a ≤ 4 := by
  have two : pair.dimension = 2 := rfl
  obtain ⟨_ | _ | i, less⟩ := i
  · exact ⟨3, rfl, le_rfl, by norm_num⟩
  · exact ⟨(4 : ℕ), rfl, by norm_num, by norm_num⟩
  · omega

noncomputable abbrev count : Regularizer Exact := .l0 (.real 1)

theorem pair_small : ∀ p ∈ pair.leaves, volume p.shape < 2 ^ 63 := by decide

theorem count_proper : count.Proper pair := ⟨⟨1, zero_le_one, rfl⟩, pair_small⟩

/-- Where the slope is zero, a step moves every entry by itself. -/
theorem count_step {γ : ℝ} (positive : 0 < γ) : ∃ p e,
    forwardBackwardStep (.ofRegularizer count : Prox Unit Exact) start zeros (.real γ) () =
      .ok p () ∧
    envelope start p.1 p.2 (.real 0) zeros (.real γ) = .ok e ∧
    e.residual = .real ‖start.point pair - p.1.point pair‖ ∧
    ∀ i, p.1.point pair i = hardened √(2 * γ * 1) (start.point pair i) := by
  obtain ⟨p, stepped⟩ :=
    Regularizer.step_answers count_proper positive start_fits zeros_fits trivial trivial ()
  obtain ⟨e, enveloped, _, taken⟩ :=
    Regularizer.step_enveloped (f := 0) count_proper positive start_fits zeros_fits stepped
  obtain ⟨v, env, env', moved, target, returned⟩ := taken.step
  have here : v.point pair = start.point pair := by
    rw [target, zeros_point, smul_zero, sub_zero]
  obtain ⟨_, each⟩ := (Regularizer.entrywise_l0 positive zero_le_one pair_small).point_apply
    (zeros_fits.of_axpy start_fits moved).1
    (Regularizer.prox_accepts (Regularizer.prox_of_returns returned)).1
  refine ⟨p, e, stepped, enveloped, ?_, fun i => ?_⟩
  · rw [taken.norm, taken.difference]
  · rw [each i, here]

end Plain

/-- The step of a count from the start of the plain problem, where the slope is zero, goes to zero
if it is long and nowhere if it is short: over its size its residual norm has shrunk. -/
theorem Regularizer.count_step_loosens :
    let P : Prox Unit Exact := .ofRegularizer Plain.count
    ∃ p p' e e' ρ, Plain.count.Proper Plain.pair ∧
      forwardBackwardStep P Plain.start Plain.zeros (.real 100) () = .ok p () ∧
      envelope Plain.start p.1 p.2 (.real 0) Plain.zeros (.real 100) = .ok e ∧
      forwardBackwardStep P Plain.start Plain.zeros (.real 1) () = .ok p' () ∧
      envelope Plain.start p'.1 p'.2 (.real 0) Plain.zeros (.real 1) = .ok e' ∧
      e.residual = .real ρ ∧ e'.residual = .real 0 ∧ 0 / 1 < ρ / 100 := by
  obtain ⟨p, e, stepped, enveloped, norm, each⟩ :=
    Plain.count_step (show (0 : ℝ) < 100 by norm_num)
  obtain ⟨p', e', stepped', enveloped', norm', each'⟩ := Plain.count_step one_pos
  have gone : p.1.point Plain.pair = 0 := by
    ext i
    obtain ⟨a, entry, low, high⟩ := Plain.start_apply i
    have below : ‖(a : ℂ)‖ ≤ √(2 * 100 * 1) := by
      rw [Complex.norm_real, Real.norm_eq_abs, abs_of_nonneg (by linarith)]
      exact Real.le_sqrt_of_sq_le (by nlinarith)
    rw [each i, entry, hardened, if_neg (not_lt.mpr below)]
    rfl
  have stayed : p'.1.point Plain.pair = Plain.start.point Plain.pair := by
    ext i
    obtain ⟨a, entry, low, high⟩ := Plain.start_apply i
    have above : √(2 * 1 * 1) < ‖(a : ℂ)‖ := by
      rw [Complex.norm_real, Real.norm_eq_abs, abs_of_nonneg (by linarith)]
      exact (Real.sqrt_lt' (by linarith)).mpr (by nlinarith)
    rw [each' i, entry, hardened, if_pos above]
  refine ⟨p, p', e, e', _, Plain.count_proper, stepped, enveloped, stepped', enveloped', norm, ?_,
    ?_⟩
  · rw [norm', stayed, sub_self, norm_zero]
  · rw [gone, sub_zero, zero_div]
    exact div_pos (norm_pos_iff.mpr Plain.start_ne_zero) (by norm_num)

end ForwardBackward
