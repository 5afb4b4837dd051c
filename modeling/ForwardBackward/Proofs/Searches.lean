/-
# ForwardBackward.Proofs.Searches -- a search along a direction is not stuck

A search along a direction `d` tries the points `z + τ d`, with `z` the step `xbar`
from which it starts, at the lengths `1, 0.4, 0.4², …`, until the envelope is at most its
level.  The proximal step may jump, so the envelope need not be continuous in `τ`; an
upper bound of it is.  The step from `z + τ d` is a minimiser, so it is no worse there
than `z` itself, and the smooth term is nowhere below its linear model:

    envelope at z + τ d ≤ f(z) + g(z) + τ² ‖d‖² / (2 γ)        (`State.Trying.value_le`).

The level is the envelope at `x` less `sigma ‖r‖²`, and with `γ Λ ≤ 1 - 1 / 20` it is
above `f(z) + g(z)` by `‖r‖² / (80 γ)` at least (`State.Poised.level_above`).  So where
`r` is not zero, a trial that is short enough is met, whatever the direction, and a
search finds one if its budget lasts to that trial (`State.tauSearch_finds`).

All of it holds of states from which the searches of runs begin (`State.Poised`,
`Solver.Passes.poised`).
-/
import ForwardBackward.Proofs.Envelopes
import ForwardBackward.Proofs.Reported

namespace ForwardBackward

set_option autoImplicit false

open scoped InnerProductSpace

variable {σ : Type}

/-! ## What a step has answered -/

namespace Regularizer

variable {g : Regularizer Exact} {S : Structure} {v : Vec Exact} {p : Vec Exact × Exact}
  {gamma : Exact}

/-- A step was taken from a vector that the regularizer takes. -/
theorem takes_of_prox (stepped : g.prox v gamma = .ok p) : g.Takes v := by
  cases g with
  | box lower upper =>
      obtain ⟨_, each⟩ := Tree.forall_of_traverse (prox_accepts stepped).1
      intro a inside
      obtain ⟨_, _, clipped⟩ := exists_of_mem_right each.flip inside
      obtain ⟨c, _, array, real, _⟩ := NDArray.clip_accepts clipped
      obtain rfl := NDArray.asArray_accepts array
      exact NDArray.isComplex_enter.symm.trans real
  | _ => trivial

/-- The value at the point of a step is known. -/
theorem sees_of_prox (proper : g.Proper S) (fits : v.Fits S) (stepped : g.prox v gamma = .ok p) :
    g.Sees p.1 := by
  cases g with
  | box lower upper =>
      obtain ⟨_, each⟩ := Tree.forall_of_traverse (prox_accepts stepped).1
      have leaves : List.Forall₂ (fun q a => NDArray.Box q.shape lower upper ∧ NDArray.Shaped q a)
          S.leaves v.leaves := (List.forall₂_and_left _ _).mpr ⟨proper, fits.shaped.leaves⟩
      intro c inside
      obtain ⟨a, member, clipped⟩ := exists_of_mem_right each inside
      obtain ⟨_, _, box, shape⟩ := exists_of_mem_right leaves member
      exact (NDArray.clip_kept box shape clipped).2
  | _ => trivial

end Regularizer

variable {A : Operator σ Exact} {M : A.Meaning} {g : Regularizer Exact} {Λ γ τ : ℝ}
  {s s' : State Exact} {env env' : σ}

/-- The envelope at a point is at most the objective at any other one, plus their squared distance
over twice the step size. -/
theorem Stepped.value_le_near {x ax grad xbar r u : Vec Exact} {fx gxbar residual bound : Exact}
    {G : ℝ} (smooth : M.Smooth Λ) (proper : g.Proper A.domain) (positive : 0 < γ)
    (evaluated : Evaluated M x ax fx grad) (fits : u.Fits A.domain) (sees : g.Sees u)
    (valued : g.value u = .ok (.real G))
    (stepped : Stepped (Prox.ofRegularizer g : Prox σ Exact) A.domain γ x fx grad xbar gxbar r
      residual bound) :
    ∃ E, bound + gxbar = .real E ∧ E ≤ M.smooth (u.point A.domain) + G +
      ‖u.point A.domain - x.point A.domain‖ ^ 2 / (2 * γ) := by
  rw [evaluated.smooth_eq] at stepped
  obtain ⟨E, envelope, below⟩ := stepped.value_le_model proper positive evaluated.x_fits
    evaluated.grad_fits fits sees valued
  rw [Exact.real_add, Exact.le_real, evaluated.gradient, evaluated.image] at below
  have convex := smooth.linear_le (x.point A.domain) (u.point A.domain)
  exact ⟨E, envelope, by linarith⟩

/-! ## One trial -/

/-- A state in the middle of a search along a direction. -/
structure State.Trying (M : A.Meaning) (g : Prox σ Exact) (γ : ℝ) (s : State Exact) : Prop where
  sized : Sized γ s.gamma s.sigma
  history : s.history.Fits A.domain
  anchored : Anchored M g γ s.xbarPrev s.rbarPrev s.axbar s.gradbar
  directed : Directed M s.d s.ld s.lld

namespace State.Trying

/-- A trial leaves the search where it is. -/
theorem trial (proper : g.Proper A.domain) (trying : s.Trying M (.ofRegularizer g) γ)
    (returned : s.tauTrial (.ofRegularizer g) (.real τ) env = .ok s' env') :
    s'.Trying M (.ofRegularizer g) γ ∧ s'.xbarPrev = s.xbarPrev ∧ s'.d = s.d ∧
      s'.lld = s.lld := by
  obtain ⟨sound, _, xbarPrev, rbarPrev, axbar, gradbar, d, ld, lld⟩ := State.tauTrial_sound
    proper.staysIn trying.sized trying.history trying.anchored trying.directed returned
  refine ⟨⟨sound.sized, sound.history, ?_, ?_⟩, xbarPrev, d, lld⟩
  · rw [xbarPrev, rbarPrev, axbar, gradbar]
    exact trying.anchored
  · rw [d, ld, lld]
    exact trying.directed

/-- The envelope at a trial is at most the objective at the anchor, plus what grows with the
square of the length. -/
theorem value_le {G : ℝ} (smooth : M.Smooth Λ) (proper : g.Proper A.domain)
    (trying : s.Trying M (.ofRegularizer g) γ) (sees : g.Sees s.xbarPrev)
    (valued : g.value s.xbarPrev = .ok (.real G))
    (returned : s.tauTrial (.ofRegularizer g) (.real τ) env = .ok s' env') :
    ∃ E, s'.value = .real E ∧ E ≤ M.smooth (s.xbarPrev.point A.domain) + G +
      τ ^ 2 * ‖s.d.point A.domain‖ ^ 2 / (2 * γ) := by
  obtain ⟨sized, _, anchored, directed⟩ := trying
  obtain ⟨x, ax, square, grad, moved, image, squared, slope, stepped⟩ := tauTrial_returns returned
  have evaluated := anchored.evaluated directed moved image slope
  cases squared.symm.trans evaluated.ax_fits.sqnorm_eq
  obtain ⟨xbar, gxbar, r, residual, bound, steps, rfl⟩ :=
    step_stepped (s := { s with tau := _, x := x, ax := ax, fx := _, grad := grad })
      proper.staysIn sized evaluated stepped
  obtain ⟨E, envelope, below⟩ := steps.value_le_near smooth proper sized.positive evaluated
    anchored.xbarPrev_fits sees valued
  have distance : ‖s.xbarPrev.point A.domain - x.point A.domain‖ ^ 2 =
      τ ^ 2 * ‖s.d.point A.domain‖ ^ 2 := by
    rw [(directed.d_fits.of_axpy anchored.xbarPrev_fits moved).2, sub_add_cancel_right, norm_neg,
      norm_smul, mul_pow, Real.norm_eq_abs, sq_abs]
  change E ≤ _ + ‖s.xbarPrev.point A.domain - x.point A.domain‖ ^ 2 / _ at below
  rw [distance] at below
  exact ⟨E, envelope, below⟩

/-- A trial is answered where the regularizer takes the direction and `Lᴴ L d`: the anchor and
the gradient there it has taken already. -/
theorem trial_answers (proper : g.Proper A.domain) (trying : s.Trying M (.ofRegularizer g) γ)
    (direction : g.Takes s.d) (bend : g.Takes s.lld) (env : σ) :
    ∃ s', s.tauTrial (.ofRegularizer g) (.real τ) env = .ok s' env := by
  obtain ⟨sized, _, anchored, directed⟩ := trying
  obtain ⟨p, ⟨v, e, e', toward, _, answered⟩, _⟩ := anchored.residual
  obtain ⟨slopeThere, there⟩ := (Regularizer.takes_axpy anchored.gradbar_fits.shaped
    anchored.xbarPrev_fits.shaped toward).mp
      (Regularizer.takes_of_prox (Regularizer.prox_of_returns answered))
  obtain ⟨x, moved, _⟩ := directed.d_fits.axpy τ anchored.xbarPrev_fits
  obtain ⟨ax, image, fitsA, _⟩ := directed.ld_fits.axpy τ anchored.axbar_fits
  obtain ⟨grad, slope, _⟩ := directed.lld_fits.axpy τ anchored.gradbar_fits
  have evaluated := anchored.evaluated directed moved image slope
  have point : g.Takes x := (Regularizer.takes_axpy directed.d_fits.shaped
    anchored.xbarPrev_fits.shaped moved).mpr ⟨direction, there⟩
  have gradient : g.Takes grad := (Regularizer.takes_axpy directed.lld_fits.shaped
    anchored.gradbar_fits.shaped slope).mpr ⟨bend, slopeThere⟩
  obtain ⟨p, stepped⟩ := evaluated.step_answers proper sized.positive point gradient env
  obtain ⟨e, enveloped, _⟩ := evaluated.step_enveloped proper sized.positive stepped
  rw [← sized.gamma] at stepped enveloped
  rw [tauTrial_of_combinations moved image fitsA.sqnorm_eq slope]
  exact ⟨_, step_of_returns stepped enveloped⟩

end State.Trying

/-! ## The trials of a search -/

theorem State.tauFactor_eq : (State.tauFactor : Exact) = .real (2 / 5) := by
  change Exact.real (((4 : ℕ) : ℝ) / 10 ^ 1) = _
  norm_num

namespace State.Trying

/-- The search finds a trial that is met, if the one after `k` others is short enough and as many
are left. -/
theorem tauTrials_found {G l : ℝ} {n k : Nat} {found : Bool} (smooth : M.Smooth Λ)
    (proper : g.Proper A.domain) (trying : s.Trying M (.ofRegularizer g) γ)
    (sees : g.Sees s.xbarPrev) (valued : g.value s.xbarPrev = .ok (.real G)) (left : k < n)
    (short : M.smooth (s.xbarPrev.point A.domain) + G +
      (τ * (2 / 5) ^ k) ^ 2 * ‖s.d.point A.domain‖ ^ 2 / (2 * γ) ≤ l)
    (returned : tauTrials (.ofRegularizer g) (.real l) n (.real τ) s env =
      .ok (found, s') env') : found = true := by
  induction n generalizing k τ s env with
  | zero => exact absurd left (Nat.not_lt_zero k)
  | succ n ih =>
      rw [tauTrials, bind_returns] at returned
      obtain ⟨s₁, env₁, tried, returned⟩ := returned
      split at returned
      · cases returned
        rfl
      · next unmet =>
          rw [tauFactor_eq, Exact.real_mul] at returned
          obtain ⟨trying₁, xbarPrev, d, _⟩ := trying.trial proper tried
          cases k with
          | zero =>
              -- the trial that was just rejected is the short one
              obtain ⟨E, value, below⟩ := trying.value_le smooth proper sees valued tried
              rw [value, Exact.le_real] at unmet
              rw [pow_zero, mul_one] at short
              exact absurd (below.trans short) unmet
          | succ k =>
              rw [← xbarPrev] at sees valued short
              rw [← d, pow_succ' (2 / 5 : ℝ) k, ← mul_assoc] at short
              exact ih trying₁ sees valued (Nat.lt_of_succ_lt_succ left) short returned

/-- A search whose trials are answered returns. -/
theorem tauTrials_answers {l : Exact} (proper : g.Proper A.domain)
    (trying : s.Trying M (.ofRegularizer g) γ) (direction : g.Takes s.d) (bend : g.Takes s.lld)
    (n : Nat) (env : σ) :
    ∃ found s' env', tauTrials (.ofRegularizer g) l n (.real τ) s env = .ok (found, s') env' := by
  induction n generalizing τ s env with
  | zero => exact ⟨false, _, env, rfl⟩
  | succ n ih =>
      obtain ⟨s₁, tried⟩ := trying.trial_answers proper direction bend env
      obtain ⟨trying₁, _, d, lld⟩ := trying.trial proper tried
      rw [← d] at direction
      rw [← lld] at bend
      simp only [tauTrials, bind_returns, tauFactor_eq, Exact.real_mul]
      cases met : Scalar.le s₁.value l with
      | true => exact ⟨true, s₁, env, s₁, env, tried, by rw [if_pos met]; rfl⟩
      | false =>
          obtain ⟨found, s', env', returned⟩ := ih trying₁ direction bend env
          refine ⟨found, s', env', s₁, env, tried, ?_⟩
          rw [if_neg (Bool.eq_false_iff.mp met)]
          exact returned

end State.Trying

/-! ## The search -/

/-- A state from which a search along a direction begins, as the loop leaves it: the buffers are
those of the iterate and of the step size, the anchor is the step, the envelope is recorded, and
the direction is any vector of the structure. -/
structure State.Poised (M : A.Meaning) (g : Prox σ Exact) (γ : ℝ) (s : State Exact) : Prop where
  sound : s.Sound M g γ
  anchored : Anchored M g γ s.xbarPrev s.rbarPrev s.axbar s.gradbar
  anchor : s.xbarPrev = s.xbar
  recorded : s.recorded = s.value
  d_fits : s.d.Fits A.domain

namespace State.Poised

/-- The level is above the objective at the anchor, by a multiple of the squared residual norm. -/
theorem level_above (smooth : M.Smooth Λ) (proper : g.Proper A.domain)
    (poised : s.Poised M (.ofRegularizer g) γ) (small : γ * Λ ≤ 1 - 1 / 20) :
    ∃ l G, s.level = .ok (.real l) ∧ g.Sees s.xbarPrev ∧ g.value s.xbarPrev = .ok (.real G) ∧
      M.smooth (s.xbarPrev.point A.domain) + G + ‖s.r.point A.domain‖ ^ 2 / (80 * γ) ≤ l := by
  obtain ⟨sound, _, anchor, recorded, _⟩ := poised
  have positive := sound.sized.positive
  obtain ⟨v, e, e', moved, _, returned⟩ := sound.stepped.step
  have fits := (sound.evaluated.grad_fits.of_axpy sound.evaluated.x_fits moved).1
  have answered := Regularizer.prox_of_returns returned
  obtain ⟨G, regular, minimizes⟩ := Regularizer.prox_minimizes proper positive fits answered
  have squared := Exact.square_real ‖s.r.point A.domain‖
  rw [← sound.stepped.norm] at squared
  obtain ⟨l, same, above⟩ :=
    sound.level_ge smooth recorded regular (level_accepts.mpr ⟨_, squared, rfl⟩)
  have allowed := level_accepts.mpr ⟨_, squared, rfl⟩
  rw [same] at allowed
  rw [anchor]
  refine ⟨l, G, allowed, Regularizer.sees_of_prox proper fits answered, minimizes.value, ?_⟩
  -- half of what the step size leaves of the curvature is given away with the slope
  have room : ‖s.r.point A.domain‖ ^ 2 / (80 * γ) ≤
      ((1 - γ * Λ) / (2 * γ) - slopeOf γ) * ‖s.r.point A.domain‖ ^ 2 := by
    rw [div_eq_inv_mul]
    refine mul_le_mul_of_nonneg_right ?_ (sq_nonneg _)
    have split : (1 - γ * Λ) / (2 * γ) - slopeOf γ - (80 * γ)⁻¹ =
        (1 - 1 / 20 - γ * Λ) / (2 * γ) := by
      rw [slopeOf]
      field_simp
      ring
    have nonneg : 0 ≤ (1 - 1 / 20 - γ * Λ) / (2 * γ) :=
      div_nonneg (sub_nonneg.mpr small) (by positivity)
    linarith
  linarith

/-- With `L d` and `Lᴴ L d` computed, the trials may begin. -/
theorem trying {s₁ : State Exact} {g : Prox σ Exact} (poised : s.Poised M g γ)
    (returned : s.evaluateDirection A env = .ok s₁ env') :
    s₁.Trying M g γ ∧ s₁.xbarPrev = s.xbarPrev ∧ s₁.d = s.d := by
  obtain ⟨ld, lld, directed, rfl⟩ := evaluateDirection_directed (M := M) returned poised.d_fits
  exact ⟨⟨poised.sound.sized, poised.sound.history, poised.anchored, directed⟩, rfl, rfl⟩

end State.Poised

/-- Lengths that shrink by a factor get short. -/
theorem exists_short {a b : ℝ} (nonneg : 0 ≤ a) (positive : 0 < b) :
    ∃ k : ℕ, ((2 / 5 : ℝ) ^ k) ^ 2 * a ≤ b := by
  obtain ⟨k, small⟩ := exists_pow_lt_of_lt_one (show 0 < b / (a + 1) by positivity)
    (show (2 / 5 : ℝ) < 1 by norm_num)
  refine ⟨k, ?_⟩
  have below : (2 / 5 : ℝ) ^ k * a ≤ a :=
    mul_le_of_le_one_left nonneg (pow_le_one₀ (by norm_num) (by norm_num))
  calc ((2 / 5 : ℝ) ^ k) ^ 2 * a = (2 / 5) ^ k * ((2 / 5) ^ k * a) := by ring
    _ ≤ (2 / 5) ^ k * (a + 1) := by gcongr; linarith
    _ ≤ b := ((lt_div_iff₀ (by positivity)).mp small).le

/-- No search along a direction is stuck, in exact arithmetic.  At a state from which a search
begins, with a step size a twentieth below `1 / Λ` and a residual that is not zero, some number of
trials is enough, whatever the direction: a search with a budget of as many or more never returns
without having found a point below its level, and it does return if the operator answers and the
regularizer takes what it is asked for (all but a box take everything). -/
theorem State.tauSearch_finds (M : A.Meaning) (smooth : M.Smooth Λ) (proper : g.Proper A.domain)
    (poised : s.Poised M (.ofRegularizer g) γ) (small : γ * Λ ≤ 1 - 1 / 20)
    (moving : Scalar.lt 0 s.residual = true) :
    ∃ level N, s.level = .ok level ∧
      ∀ {budget : Count Exact} {n : Nat}, budget.toNat = .ok n → N ≤ n → ∀ env : σ,
        (∀ {found s' env'}, s.tauSearch A (.ofRegularizer g) level budget env =
          .ok (found, s') env' → found = true) ∧
        (A.Total → g.Takes s.d →
          (∀ {y z : Vec Exact} {e e' : σ}, y.Fits A.codomain → A.applyAdjoint y e = .ok z e' →
            g.Takes z) →
          ∃ s' env', s.tauSearch A (.ofRegularizer g) level budget env = .ok (true, s') env') := by
  obtain ⟨l, G, allowed, sees, valued, above⟩ := poised.level_above smooth proper small
  have positive := poised.sound.sized.positive
  rw [poised.sound.stepped.norm, Exact.zero_eq, Exact.lt_real] at moving
  obtain ⟨k, short⟩ := exists_short
    (show 0 ≤ ‖s.d.point A.domain‖ ^ 2 / (2 * γ) by positivity)
    (show 0 < ‖s.r.point A.domain‖ ^ 2 / (80 * γ) by positivity)
  refine ⟨.real l, k + 1, allowed, fun {budget n} counted enough env => ?_⟩
  -- whatever such a search returns, it has found
  have finds : ∀ {found s' env'}, s.tauSearch A (.ofRegularizer g) (.real l) budget env =
      .ok (found, s') env' → found = true := by
    intro found s' env' returned
    simp only [tauSearch, counted, lift_ok, pure_bind, bind_returns] at returned
    obtain ⟨s₁, env₁, evaluated, returned⟩ := returned
    obtain ⟨trying, xbarPrev, d⟩ := poised.trying evaluated
    rw [Exact.one_eq] at returned
    rw [← xbarPrev] at sees valued
    refine trying.tauTrials_found smooth proper sees valued enough ?_ returned
    rw [xbarPrev, d, one_mul, mul_div_assoc]
    linarith
  refine ⟨finds, fun total direction bends => ?_⟩
  obtain ⟨s₁, env₁, evaluated⟩ := evaluateDirection_answers M total poised.d_fits env
  obtain ⟨ld, lld, e, image, adjoint, made⟩ := evaluateDirection_returns evaluated
  have bend : g.Takes s₁.lld := by
    rw [made]
    exact bends (M.applyLinear poised.d_fits image).1 adjoint
  obtain ⟨trying, _, d⟩ := poised.trying evaluated
  rw [← d] at direction
  obtain ⟨found, s', env', returned⟩ :=
    trying.tauTrials_answers (τ := 1) (l := .real l) proper direction bend n env₁
  have searched : s.tauSearch A (.ofRegularizer g) (.real l) budget env =
      .ok (found, s') env' := by
    simp only [tauSearch, counted, lift_ok, pure_bind, bind_returns, Exact.one_eq]
    exact ⟨s₁, env₁, evaluated, returned⟩
  rw [finds searched] at searched
  exact ⟨s', env', searched⟩

/-! ## The searches of runs -/

section Runs

variable {R : Type} [Scalar R]

/-- Between the record and the search the recorded envelope is that of the iterate, and the search
begins at the step. -/
def Place.Copied (s : State R) : Place R → Prop
  | .recorded _ => s.recorded = s.value
  | .aimed => s.recorded = s.value ∧ s.xbarPrev = s.xbar
  | _ => True

theorem Turn.copied {c : Config σ R} {b d : Snapshot σ R} (copied : b.place.Copied b.state)
    (turn : Turn c b d) : d.place.Copied d.state := by
  cases turn with
  | settle => exact rfl
  | aim => exact ⟨copied, rfl⟩
  | _ => trivial

end Runs

/-- Every search along a direction of a run begins at such a state. -/
theorem Solver.Passes.poised {g : Prox σ Exact} {c : Config σ Exact} {x0 : Option (Vec Exact)}
    {w : World σ Exact} {vs : List (Snapshot σ Exact)} {b : Snapshot σ Exact} (M : A.Meaning)
    (stays : g.StaysIn A.domain) (checked : c.Checked)
    (finite : ∀ v, x0 = some v → v.allFinite = true) (passes : Passes A g x0 c w vs b)
    (aimed : b.place = .aimed) : ∃ γ, b.state.Poised M g γ := by
  obtain ⟨γ, sound, holds⟩ := passes.kept M stays checked finite
  obtain ⟨s₀, w₀, limit, _, _, course⟩ := passes
  have copied : b.place.Copied b.state :=
    course.invariant (P := fun v => v.place.Copied v.state)
      (fun _ _ copied step => step.turn.copied copied) trivial
  rw [aimed] at holds copied
  obtain ⟨anchored, fits, _⟩ := holds
  exact ⟨γ, sound, anchored, copied.2, copied.1, fits⟩

/-- The search along the second direction of the plain problem. -/
theorem State.plain_tauSearch_finds : ∃ vs b, Plain.Passes vs b ∧ b.place = .aimed ∧
    Regularizer.zero.Proper Plain.pair ∧
    b.state.Poised Plain.meaning Plain.prox (1 / 2) ∧ (1 / 2 : ℝ) * 1 ≤ 1 - 1 / 20 ∧
    Scalar.lt 0 b.state.residual = true ∧
    ∃ level N, b.state.level = .ok level ∧
      ∀ {budget : Count Exact} {n : Nat}, budget.toNat = .ok n → N ≤ n →
        ∃ s' env', b.state.tauSearch Plain.operator Plain.prox level budget () =
          .ok (true, s') env' := by
  obtain ⟨us, a, vs, b, passes, course, _, recorded, _⟩ := Plain.records
  obtain ⟨d, step, aimed, _⟩ := Plain.reaches_direction (passes.trans course) recorded
  have on := (passes.trans course).trans (.single step)
  have glides := Plain.glides on
  obtain ⟨γ, poised⟩ := on.poised Plain.meaning Prox.zero_staysIn
    (Plain.config_checked one_half_pos) Plain.start_finite aimed
  obtain rfl : γ = 1 / 2 :=
    Exact.real.inj (poised.sound.sized.gamma.symm.trans glides.sized.gamma)
  have moving : Scalar.lt 0 d.state.residual = true := by
    have place := Plain.slides on
    rw [aimed] at place
    have nonzero : d.state.xbarPrev.point Plain.pair ≠ 0 := by
      rw [show d.state.xbarPrev.point Plain.pair = _ from place]
      exact smul_ne_zero (by positivity) Plain.start_ne_zero
    have residual : d.state.r.point Plain.pair = d.state.xbarPrev.point Plain.pair := by
      have difference : d.state.r.point Plain.pair =
          d.state.x.point Plain.pair - d.state.xbar.point Plain.pair :=
        poised.sound.stepped.difference
      rw [difference, poised.anchor, Plain.xbar_eq glides]
      module
    have norm : d.state.residual = .real ‖d.state.r.point Plain.pair‖ := poised.sound.stepped.norm
    rw [norm, residual, Exact.zero_eq, Exact.lt_real]
    exact norm_pos_iff.mpr nonzero
  obtain ⟨level, N, allowed, finds⟩ := tauSearch_finds (g := .zero) Plain.meaning Plain.smooth
    trivial poised (by norm_num) moving
  refine ⟨_, d, on, aimed, trivial, poised, by norm_num, moving, level, N, allowed, ?_⟩
  intro budget n counted enough
  exact (finds counted enough ()).2 (Operator.multiple_total Plain.pair 1) trivial
    fun _ _ => trivial

end ForwardBackward
