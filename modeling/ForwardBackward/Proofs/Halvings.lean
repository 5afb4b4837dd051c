/-
# ForwardBackward.Proofs.Halvings -- what the search for a step size computes

The search tests the values it was given.  Then, as often as its budget says, it halves
the step size, computes all of them anew and tests again: one test more than there are
halvings, and the last one stands outside of the loop.

Trial `0` is what the state holds, and trial `k` is what is computed at the step size
halved `k` times, from the same iterate, smooth term and gradient (`State.Trials`).  The
seven values of a trial are computed in two places, but one state holds those of one
trial: a halving at the state of trial `k` is trial `k + 1` put into the state of the
call (`State.gammaTrial_atTrial`), a refusal included.

* `State.gammaTrials_advance` -- as long as no trial is met the loop goes from trial to
  trial, by induction on their number; `State.trials_end` -- how that ends.
* `State.gammaSearch_outcome` -- the search stops at the first trial that is met, or with
  the last one if none is; nothing else is returned, and a refusal is that of a trial.

Nothing is asked of the arithmetic.  A test that involves a not-a-number fails, and is one
that is not met like any other; where all of them do, the search ends with its last trial
(`State.gammaSearch_of_isNaN`).
-/
import ForwardBackward.Proofs.Attempts
import ForwardBackward.Proofs.Comparisons
import ForwardBackward.Proofs.Envelopes
import ForwardBackward.Proofs.Reported

namespace ForwardBackward

set_option autoImplicit false

variable {σ R : Type} [Scalar R]

/-! ## Trials -/

/-- What is computed at one step size: the step with the regularizer there, its envelope, and the
image of the step with the smooth term there. -/
structure Trial (R : Type) [Scalar R] where
  xbar : Vec R
  gxbar : R
  r : Vec R
  residual : R
  bound : R
  axbar : Vec R
  fxbar : R

namespace Trial

/-- Whether the smooth term at the step is at most its quadratic model. -/
def bounded (t : Trial R) : Bool := Scalar.le t.fxbar t.bound

/-- The trial of the step size `gamma`, from an iterate with its smooth term and its gradient. -/
def compute (A : Operator σ R) (g : Prox σ R) (x : Vec R) (fx : R) (grad : Vec R) (gamma : R) :
    Call σ (Trial R) := do
  let (xbar, gxbar) ← forwardBackwardStep g x grad gamma
  let e ← envelope x xbar gxbar fx grad gamma
  let axbar ← A.apply xbar
  let fxbar := 0.5 * (← axbar.sqnorm)
  pure ⟨xbar, gxbar, e.r, e.residual, e.bound, axbar, fxbar⟩

theorem compute_returns {A : Operator σ R} {g : Prox σ R} {x grad : Vec R} {fx gamma : R}
    {t : Trial R} {env env' : σ} :
    compute A g x fx grad gamma env = .ok t env' ↔ ∃ p e axbar square env₁,
      forwardBackwardStep g x grad gamma env = .ok p env₁ ∧
      envelope x p.1 p.2 fx grad gamma = .ok e ∧ A.apply p.1 env₁ = .ok axbar env' ∧
      axbar.sqnorm = .ok square ∧
      t = ⟨p.1, p.2, e.r, e.residual, e.bound, axbar, 0.5 * square⟩ := by
  simp only [compute, bind_returns, lift_returns, pure_returns]
  constructor
  · rintro ⟨p, _, stepped, e, env₁, ⟨enveloped, rfl⟩, axbar, _, image, square, _, ⟨squared, rfl⟩,
      rfl, rfl⟩
    exact ⟨p, e, axbar, square, env₁, stepped, enveloped, image, squared, rfl⟩
  · rintro ⟨p, e, axbar, square, env₁, stepped, enveloped, image, squared, rfl⟩
    exact ⟨p, env₁, stepped, e, env₁, ⟨enveloped, rfl⟩, axbar, env', image, square, env',
      ⟨squared, rfl⟩, rfl, rfl⟩

/-- A trial with a not-a-number on either side of the test is not met. -/
theorem unmet_of_isNaN [Comparing R] {t : Trial R}
    (undefined : Scalar.isNaN t.fxbar = true ∨ Scalar.isNaN t.bound = true) :
    t.bounded = false := by
  refine Bool.eq_false_iff.mpr fun met => ?_
  obtain ⟨smooth, model⟩ := Comparing.numbers met
  rcases undefined with h | h
  · exact absurd (h.symm.trans smooth) (by decide)
  · exact absurd (h.symm.trans model) (by decide)

end Trial

namespace State

variable {A : Operator σ R} {g : Prox σ R} {s s' : State R} {t : Nat → Trial R} {e : Nat → σ}
  {env env' : σ} {k : Nat}

/-- The trial that a state holds. -/
def trial (s : State R) : Trial R :=
  ⟨s.xbar, s.gxbar, s.r, s.residual, s.bound, s.axbar, s.fxbar⟩

/-- The step size, halved `k` times. -/
def gammaAt (s : State R) (k : Nat) : R := (· * 0.5)^[k] s.gamma

/-- The state with its `k`-th trial: the step size is halved and the slope doubled `k` times, the
operator and the proximal step are called `k` times more, and nothing else is touched. -/
def atTrial (s : State R) (k : Nat) (t : Trial R) : State R :=
  { s with
    gamma := s.gammaAt k
    sigma := (· * 2)^[k] s.sigma
    xbar := t.xbar, gxbar := t.gxbar, r := t.r, residual := t.residual, bound := t.bound
    axbar := t.axbar, fxbar := t.fxbar
    operatorCalls := s.operatorCalls + k
    proxCalls := s.proxCalls + k }

/-- The state with one more search for a step size that ran out of trials. -/
def outOfTrials (s : State R) : State R := { s with gammaFailures := s.gammaFailures + 1 }

/-- The trials `t 0, …, t k` of a state, the first of which it holds, and the environments
`e 0, …, e k` that they were made in. -/
structure Trials (A : Operator σ R) (g : Prox σ R) (s : State R) (env : σ) (k : Nat)
    (t : Nat → Trial R) (e : Nat → σ) : Prop where
  given : t 0 = s.trial
  here : e 0 = env
  next : ∀ j < k, Trial.compute A g s.x s.fx s.grad (s.gammaAt (j + 1)) (e j) =
    .ok (t (j + 1)) (e (j + 1))

/-- A halving is the next trial. -/
theorem gammaTrial_atTrial (t : Trial R) : (s.atTrial k t).gammaTrial A g =
    s.atTrial (k + 1) <$> Trial.compute A g s.x s.fx s.grad (s.gammaAt (k + 1)) := by
  have size : s.gammaAt k * 0.5 = s.gammaAt (k + 1) :=
    (Function.iterate_succ_apply' (· * 0.5) k s.gamma).symm
  have slope : (· * 2)^[k] s.sigma * 2 = (· * 2)^[k + 1] s.sigma :=
    (Function.iterate_succ_apply' (· * 2) k s.sigma).symm
  simp only [gammaTrial, step, callProx, evaluateStep, callOperator, Trial.compute, shrinkGamma,
    atTrial, size, slope, bind_assoc, pure_bind, map_bind, map_pure]
  rfl

/-! ## The loop -/

/-- As long as no trial is met, the loop goes from trial to trial. -/
theorem gammaTrials_advance (trials : s.Trials A g env k t e)
    (unmet : ∀ j < k, (t j).bounded = false) (n : Nat) :
    gammaTrials A g (n + k) s env = gammaTrials A g n (s.atTrial k (t k)) (e k) := by
  induction k generalizing n with
  | zero =>
      have start : s.atTrial 0 (t 0) = s := by rw [trials.given]; rfl
      rw [start, trials.here, Nat.add_zero]
  | succ k ih =>
      have before : s.Trials A g env k t e :=
        ⟨trials.given, trials.here, fun j less => trials.next j (Nat.lt_succ_of_lt less)⟩
      have here : (s.atTrial k (t k)).bounded = false := unmet k (Nat.lt_succ_self k)
      have halved : (s.atTrial k (t k)).gammaTrial A g (e k) =
          .ok (s.atTrial (k + 1) (t (k + 1))) (e (k + 1)) := by
        rw [gammaTrial_atTrial, ← bind_pure_comp,
          bind_of_returns (trials.next k (Nat.lt_succ_self k))]
        rfl
      rw [← Nat.succ_add_eq_add_succ,
        ih before (fun j less => unmet j (Nat.lt_succ_of_lt less)) (n + 1), gammaTrials, here]
      exact bind_of_returns halved _

/-- The loop stops at the first trial that is met. -/
theorem gammaTrials_met {M : Nat} (trials : s.Trials A g env k t e) (within : k ≤ M)
    (unmet : ∀ j < k, (t j).bounded = false) (met : (t k).bounded = true) :
    gammaTrials A g M s env = .ok (true, s.atTrial k (t k)) (e k) := by
  have here : (s.atTrial k (t k)).bounded = true := met
  obtain ⟨n, rfl⟩ := Nat.exists_eq_add_of_le' within
  rw [gammaTrials_advance trials unmet n]
  cases n <;> rw [gammaTrials, here] <;> rfl

/-- The loop stops with its last trial if none is met. -/
theorem gammaTrials_unmet {M : Nat} (trials : s.Trials A g env M t e)
    (unmet : ∀ j ≤ M, (t j).bounded = false) :
    gammaTrials A g M s env = .ok (false, (s.atTrial M (t M)).outOfTrials) (e M) := by
  have here : (s.atTrial M (t M)).bounded = false := unmet M le_rfl
  rw [← Nat.zero_add M, gammaTrials_advance trials (fun j less => unmet j less.le) 0,
    Nat.zero_add, gammaTrials, here]
  rfl

/-- The loop stops with a trial that is refused. -/
theorem gammaTrials_refused {M : Nat} {fault : Fault} (trials : s.Trials A g env k t e)
    (within : k < M) (unmet : ∀ j ≤ k, (t j).bounded = false)
    (refused : Trial.compute A g s.x s.fx s.grad (s.gammaAt (k + 1)) (e k) = .error fault env') :
    gammaTrials A g M s env = .error fault env' := by
  have here : (s.atTrial k (t k)).bounded = false := unmet k le_rfl
  obtain ⟨n, rfl⟩ := Nat.exists_eq_add_of_le' (Nat.succ_le_of_lt within)
  have failed : (s.atTrial k (t k)).gammaTrial A g (e k) = .error fault env' := by
    rw [gammaTrial_atTrial, ← bind_pure_comp]
    exact bind_of_fails refused _
  rw [← Nat.succ_add_eq_add_succ, gammaTrials_advance trials (fun j less => unmet j less.le) (n + 1),
    gammaTrials, here]
  exact bind_of_fails failed _

theorem unmet_upTo (unmet : ∀ j < k, (t j).bounded = false) (here : (t k).bounded = false) :
    ∀ j ≤ k, (t j).bounded = false := by
  intro j le
  rcases le.lt_or_eq with less | rfl
  · exact unmet j less
  · exact here

/-- The trial that the state holds, and others behind it. -/
def heldThen (s : State R) (t : Nat → Trial R) : Nat → Trial R
  | 0 => s.trial
  | j + 1 => t j

/-- Behind the trial that the state holds, the others are attempts at the halved step sizes. -/
theorem trials_of_attempts
    (attempts : Attempts (fun j => Trial.compute A g s.x s.fx s.grad (s.gammaAt (j + 1))) env k t
      e) : s.Trials A g env k (s.heldThen t) e :=
  ⟨rfl, attempts.here, attempts.made⟩

theorem unmet_heldThen (held : s.trial.bounded = false)
    (unmet : ∀ j < k, (t j).bounded = false) : ∀ j ≤ k, (s.heldThen t j).bounded = false := by
  intro j le
  cases j with
  | zero => exact held
  | succ j => exact unmet j le

/-- One of the three happens: of the trials, one after the other, some is met, or all that there
are to be made are made, or one is refused. -/
theorem trials_end (A : Operator σ R) (g : Prox σ R) (s : State R) (env : σ) (M : Nat) :
    ∃ k t e, s.Trials A g env k t e ∧ k ≤ M ∧ (∀ j < k, (t j).bounded = false) ∧
      ((t k).bounded = true ∨ (t k).bounded = false ∧ (k = M ∨ k < M ∧ ∃ fault env',
        Trial.compute A g s.x s.fx s.grad (s.gammaAt (k + 1)) (e k) = .error fault env')) := by
  cases held : s.trial.bounded with
  | true =>
      exact ⟨0, _, _, trials_of_attempts (.none _ env fun _ => s.trial), M.zero_le,
        fun j less => absurd less j.not_lt_zero, .inl held⟩
  | false =>
      have : Nonempty (Trial R) := ⟨s.trial⟩
      obtain ⟨k, t, e, attempts, unmet, ends⟩ := Attempts.outcome
        (fun j => Trial.compute A g s.x s.fx s.grad (s.gammaAt (j + 1))) Trial.bounded env M
      have all := unmet_heldThen held unmet
      rcases ends with rfl | ⟨less, ⟨a, env', next, met⟩ | refused⟩
      · exact ⟨k, _, e, trials_of_attempts attempts, le_rfl, fun j less => all j less.le,
          .inr ⟨all k le_rfl, .inl rfl⟩⟩
      · obtain ⟨t₁, e₁, attempts₁, same, last⟩ := attempts.extend next
        have before : ∀ j < k, (t₁ j).bounded = false := fun j less =>
          (congrArg Trial.bounded (same j less)).trans (unmet j less)
        exact ⟨k + 1, _, e₁, trials_of_attempts attempts₁, less,
          fun j less => unmet_heldThen held before j (Nat.le_of_lt_succ less),
          .inl ((congrArg Trial.bounded last).trans met)⟩
      · exact ⟨k, _, e, trials_of_attempts attempts, less.le, fun j less => all j less.le,
          .inr ⟨all k le_rfl, .inr ⟨less, refused⟩⟩⟩

/-! ## The search -/

theorem gammaSearch_eq {budget : Count R} {M : Nat} (counted : budget.toNat = .ok M) :
    s.gammaSearch A g budget = gammaTrials A g M s := by
  rw [gammaSearch, counted, lift_ok, pure_bind]

/-- What a search returns, it returns with one of the trials. -/
theorem gammaSearch_trial {budget : Count R} {found : Bool}
    (returned : s.gammaSearch A g budget env = .ok (found, s') env') :
    ∃ k t e, s.Trials A g env k t e ∧
      (s' = s.atTrial k (t k) ∨ s' = (s.atTrial k (t k)).outOfTrials) := by
  obtain ⟨M, _, read, _⟩ := bind_returns.mp returned
  have counted : budget.toNat = .ok M := (lift_returns.mp read).1
  rw [gammaSearch_eq counted] at returned
  obtain ⟨k, t, e, trials, within, unmet, met | ⟨here, rfl | ⟨less, _, _, refused⟩⟩⟩ :=
    trials_end A g s _ M
  · cases returned.symm.trans (gammaTrials_met trials within unmet met)
    exact ⟨k, t, e, trials, .inl rfl⟩
  · cases returned.symm.trans (gammaTrials_unmet trials (unmet_upTo unmet here))
    exact ⟨k, t, e, trials, .inr rfl⟩
  · cases returned.symm.trans (gammaTrials_refused trials less (unmet_upTo unmet here) refused)

/-- A search that meets a not-a-number in all of its tests ends with its last trial. -/
theorem gammaSearch_of_isNaN [Comparing R] {budget : Count R} {M : Nat}
    (counted : budget.toNat = .ok M) (trials : s.Trials A g env M t e)
    (undefined : ∀ j ≤ M, Scalar.isNaN (t j).fxbar = true ∨ Scalar.isNaN (t j).bound = true) :
    s.gammaSearch A g budget env = .ok (false, (s.atTrial M (t M)).outOfTrials) (e M) := by
  rw [gammaSearch_eq counted]
  exact gammaTrials_unmet trials fun j le => Trial.unmet_of_isNaN (undefined j le)

/-- What the search for a step size computes, whatever the arithmetic, the operator and the
proximal step are.  With a budget of `M` halvings:

* if a trial `k` up to the `M`-th is the first that is met, the search has found, and leaves that
  trial in the state and the environment in which it was made;
* if none up to the `M`-th is met, it has not, leaves the `M`-th trial, and counts a failure;
* and these are the only ways in which it returns: otherwise a trial was refused before, and the
  search is refused with it.

The state that is left differs from the one given as `State.atTrial` says, and in nothing else. -/
theorem gammaSearch_outcome (A : Operator σ R) (g : Prox σ R) (s : State R) {budget : Count R}
    {M : Nat} (counted : budget.toNat = .ok M) (env : σ) :
    (∀ k t e, k ≤ M → s.Trials A g env k t e → (∀ j < k, (t j).bounded = false) →
      (t k).bounded = true →
      s.gammaSearch A g budget env = .ok (true, s.atTrial k (t k)) (e k)) ∧
    (∀ t e, s.Trials A g env M t e → (∀ j ≤ M, (t j).bounded = false) →
      s.gammaSearch A g budget env = .ok (false, (s.atTrial M (t M)).outOfTrials) (e M)) ∧
    ∃ k t e, s.Trials A g env k t e ∧ k ≤ M ∧ (∀ j < k, (t j).bounded = false) ∧
      ((t k).bounded = true ∧
          s.gammaSearch A g budget env = .ok (true, s.atTrial k (t k)) (e k) ∨
        (t k).bounded = false ∧ k = M ∧
          s.gammaSearch A g budget env = .ok (false, (s.atTrial M (t M)).outOfTrials) (e M) ∨
        (t k).bounded = false ∧ k < M ∧ ∃ fault env',
          Trial.compute A g s.x s.fx s.grad (s.gammaAt (k + 1)) (e k) = .error fault env' ∧
          s.gammaSearch A g budget env = .error fault env') := by
  rw [gammaSearch_eq counted]
  refine ⟨fun k t e within trials unmet met => gammaTrials_met trials within unmet met,
    fun t e => gammaTrials_unmet, ?_⟩
  obtain ⟨k, t, e, trials, within, unmet, ends⟩ := trials_end A g s env M
  refine ⟨k, t, e, trials, within, unmet, ?_⟩
  rcases ends with met | ⟨here, rfl | ⟨less, fault, env', refused⟩⟩
  · exact .inl ⟨met, gammaTrials_met trials within unmet met⟩
  · exact .inr (.inl ⟨here, rfl, gammaTrials_unmet trials (unmet_upTo unmet here)⟩)
  · exact .inr (.inr ⟨here, less, fault, env', refused,
      gammaTrials_refused trials less (unmet_upTo unmet here) refused⟩)

end State

/-! ## Searches from the start of the plain problem -/

namespace Plain

/-- At the start of the plain problem the trials are answered, and those of a step size up to one
are met. -/
theorem trial {ax grad : Vec Exact} {fx : Exact} {γ : ℝ}
    (evaluated : Evaluated meaning start ax fx grad) (positive : 0 < γ) :
    ∃ t, Trial.compute operator prox start fx grad (.real γ) () = .ok t () ∧
      (t.bounded = true ↔ γ ≤ 1) := by
  have proper : Regularizer.zero.Proper pair := trivial
  obtain ⟨⟨xbar, gxbar⟩, stepped⟩ :=
    evaluated.step_answers proper positive trivial trivial ()
  obtain ⟨e, enveloped, _, steps⟩ := evaluated.step_enveloped proper positive stepped
  have image : operator.apply xbar () = .ok (xbar.scale (.real 1)) () := rfl
  obtain ⟨fits, point⟩ := meaning.apply steps.xbar_fits image
  refine ⟨⟨xbar, gxbar, e.r, e.residual, e.bound, xbar.scale (.real 1),
    0.5 * .real (‖(xbar.scale (.real 1)).point pair‖ ^ 2)⟩,
    Trial.compute_returns.mpr ⟨_, e, _, _, (), stepped, enveloped, image, fits.sqnorm_eq, rfl⟩, ?_⟩
  obtain ⟨B, model, gap⟩ := steps.gap smooth evaluated
  have residual := residual_of_stepped evaluated steps
  have moved : 0 < ‖e.r.point pair‖ ^ 2 := by
    rw [residual]
    exact pow_pos (norm_pos_iff.mpr (smul_ne_zero positive.ne' start_ne_zero)) 2
  have gap : meaning.smooth (xbar.point pair) - B =
      (γ - 1) * (‖e.r.point pair‖ ^ 2 / (2 * γ)) := by
    refine gap.trans ?_
    change 1 / 2 * ‖(1 : ℝ) • e.r.point pair‖ ^ 2 - ‖e.r.point pair‖ ^ 2 / (2 * γ) = _
    rw [one_smul]
    field_simp
  have value : (0.5 * .real (‖(xbar.scale (.real 1)).point pair‖ ^ 2) : Exact) =
      .real (meaning.smooth (xbar.point pair)) := by
    have point : (xbar.scale (.real 1)).point pair = meaning.map (xbar.point pair) := point
    rw [Exact.half_eq, Exact.real_mul, point]
    rfl
  rw [Trial.bounded, value, model, Exact.le_real, ← sub_nonpos, gap, ← not_lt,
    mul_pos_iff_of_pos_right (by positivity), not_lt, sub_nonpos]

/-- A step of the size `4` from the start of the plain problem overshoots, and so does one of the
size `2`; the next is met. -/
theorem overshoots : ∃ (s : State Exact) (t : Nat → Trial Exact), s.x = start ∧
    s.gamma = .real 4 ∧ Evaluated meaning s.x s.ax s.fx s.grad ∧
    Trial.compute operator prox s.x s.fx s.grad s.gamma () = .ok s.trial () ∧
    s.Trials operator prox () 2 t (fun _ => ()) ∧ (∀ j < 2, (t j).bounded = false) ∧
    (t 2).bounded = true := by
  obtain ⟨square, _, evaluated⟩ := meaning.evaluated start_fits
    (show operator.apply start () = .ok (start.scale (.real 1)) () from rfl) rfl
  obtain ⟨t₀, made₀, first⟩ := trial evaluated (show (0 : ℝ) < 4 by norm_num)
  obtain ⟨t₁, made₁, second⟩ := trial evaluated (show (0 : ℝ) < 2 by norm_num)
  obtain ⟨t₂, made₂, third⟩ := trial evaluated (show (0 : ℝ) < 1 by norm_num)
  let s : State Exact := State.atTrial { State.start start 0 with
    gamma := .real 4, ax := start.scale (.real 1), fx := 0.5 * square
    grad := (start.scale (.real 1)).scale (.real 1) } 0 t₀
  have once : s.gammaAt 1 = .real 2 := by
    change Exact.real 4 * 0.5 = _
    rw [Exact.half_eq, Exact.real_mul]
    norm_num
  have twice : s.gammaAt 2 = .real 1 := by
    change s.gammaAt 1 * 0.5 = _
    rw [once, Exact.half_eq, Exact.real_mul]
    norm_num
  refine ⟨s, fun | 0 => t₀ | 1 => t₁ | _ => t₂, rfl, rfl, evaluated, made₀, ⟨rfl, rfl, ?_⟩, ?_,
    third.mpr le_rfl⟩
  · intro j less
    match j, less with
    | 0, _ => rw [once]; exact made₁
    | 1, _ => rw [twice]; exact made₂
  · intro j less
    match j, less with
    | 0, _ => exact Bool.eq_false_iff.mpr (mt first.mp (by norm_num))
    | 1, _ => exact Bool.eq_false_iff.mpr (mt second.mp (by norm_num))

end Plain

namespace State

/-- From the start of the plain problem, where a step of the size `4` overshoots, the search finds
after two halvings. -/
theorem plain_gammaSearch_halves : ∃ (s : State Exact) (t : Nat → Trial Exact) (e : Nat → Unit),
    (Count.whole 32 : Count Exact).toNat = .ok 32 ∧ s.x = Plain.start ∧ s.gamma = .real 4 ∧
    s.Trials Plain.operator Plain.prox () 2 t e ∧ (∀ j < 2, (t j).bounded = false) ∧
    (t 2).bounded = true ∧
    s.gammaSearch Plain.operator Plain.prox (.whole 32) () = .ok (true, s.atTrial 2 (t 2)) () := by
  obtain ⟨s, t, x, gamma, _, _, trials, unmet, met⟩ := Plain.overshoots
  have counted : (Count.whole 32 : Count Exact).toNat = .ok 32 := rfl
  obtain ⟨found, _⟩ := gammaSearch_outcome Plain.operator Plain.prox s counted ()
  exact ⟨s, t, fun _ => (), counted, x, gamma, trials, unmet, met,
    found 2 t _ (by norm_num) trials unmet met⟩

end State

end ForwardBackward
