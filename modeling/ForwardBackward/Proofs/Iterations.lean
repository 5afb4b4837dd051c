/-
# ForwardBackward.Proofs.Iterations -- the iteration, part by part

What an iteration does is told here one part after the other, for runs whose operator,
proximal step and predicate answer (`Solver.Served`): it evaluates the smooth term at the
step, settles the envelope, aims, and accepts a trial.  The places between the parts are
those of `Course`; each statement says which place comes next and what is in the state
there.

Everything that belongs to an iterate is determined by its point and the step size, if
proximal steps are (`Prox.Deterministic`, `State.Sound.alike`): two states at one point
have the same step, the same residual norm and the same envelope, whatever vectors they
hold and however they came to them.
-/
import ForwardBackward.Proofs.Memory
import ForwardBackward.Proofs.Searches
import ForwardBackward.Proofs.Trajectory

namespace ForwardBackward

set_option autoImplicit false

open scoped InnerProductSpace

open Snapshot (trials)

variable {σ : Type} {A : Operator σ Exact} {M : A.Meaning} {g : Prox σ Exact}
  {c : Config σ Exact} {γ : ℝ} {n : Nat} {s t : State Exact}

/-! ## What an iterate determines -/

/-- What a proximal step answers, as a point and a value, depends on nothing but the point that it
starts from and its size. -/
def Prox.Deterministic (g : Prox σ Exact) (S : Structure) : Prop :=
  ∀ {v v' : Vec Exact} {γ : ℝ} {p p' : Vec Exact × Exact} {e₁ e₂ e₁' e₂' : σ},
    v.Fits S → v'.Fits S → v'.point S = v.point S → 0 < γ →
    g.prox v (.real γ) e₁ = .ok p e₂ → g.prox v' (.real γ) e₁' = .ok p' e₂' →
    p'.1.point S = p.1.point S ∧ p'.2 = p.2

/-- A regularizer that takes steps from all vectors answers them with a number. -/
theorem Regularizer.Proper.total {σ : Type} {S : Structure} {g : Regularizer Exact}
    (proper : g.Proper S) (takes : ∀ v, g.Takes v) :
    (Prox.ofRegularizer g : Prox σ Exact).Total S := by
  intro v γ env fits positive
  obtain ⟨p, _, stepped⟩ := Regularizer.prox_total proper positive fits (takes v)
  obtain ⟨G, rfl, _⟩ := Regularizer.prox_minimizes proper positive fits stepped
  exact ⟨p, G, env, lift_returns.mpr ⟨stepped, rfl⟩⟩

/-- Its steps move every entry by a rule, and the value is that of the entries. -/
theorem Regularizer.Proper.deterministic {σ : Type} {S : Structure} {g : Regularizer Exact}
    (proper : g.Proper S) (takes : ∀ v, g.Takes v) :
    (Prox.ofRegularizer g : Prox σ Exact).Deterministic S := by
  intro v v' γ p p' _ _ _ _ fits fits' same positive returned returned'
  have stepped := Regularizer.prox_of_returns returned
  have stepped' := Regularizer.prox_of_returns returned'
  rcases proper.entrywise_or_box positive with ⟨cost, move, entrywise⟩ | ⟨lower, upper, rfl⟩
  · obtain ⟨G, value, minimizes⟩ := Regularizer.prox_minimizes proper positive fits stepped
    obtain ⟨G', value', minimizes'⟩ := Regularizer.prox_minimizes proper positive fits' stepped'
    obtain ⟨us, hv⟩ := fits
    obtain ⟨us', hv'⟩ := fits'
    obtain rfl : us' = us :=
      pointOf_inj hv'.length_eq hv.length_eq (by rw [← hv'.point_eq, ← hv.point_eq, same])
    obtain ⟨q, made, hq⟩ := entrywise.point hv
    obtain ⟨q', made', hq'⟩ := entrywise.point hv'
    cases (Regularizer.prox_accepts stepped).1.symm.trans made
    cases (Regularizer.prox_accepts stepped').1.symm.trans made'
    refine ⟨hq'.point_eq.trans hq.point_eq.symm, ?_⟩
    rw [value, value']
    exact Except.ok.inj ((minimizes'.value.symm.trans (entrywise.value hq')).trans
      ((entrywise.value hq).symm.trans minimizes.value))
  · -- A box takes no steps from complex numbers.
    cases takes (.leaf ⟨[], .complex .double [.ofComplex 0], rfl⟩) _ List.mem_cons_self

theorem Prox.Answers.determined {S : Structure} {x grad x' grad' : Vec Exact}
    {p p' : Vec Exact × Exact} (deterministic : g.Deterministic S) (positive : 0 < γ)
    (hx : x.Fits S) (hg : grad.Fits S) (hx' : x'.Fits S) (hg' : grad'.Fits S)
    (answers : g.Answers S γ x grad p) (answers' : g.Answers S γ x' grad' p')
    (point : x'.point S = x.point S) (slope : grad'.point S = grad.point S) :
    p'.1.point S = p.1.point S ∧ p'.2 = p.2 := by
  obtain ⟨v, _, _, moved, start, returned⟩ := answers
  obtain ⟨v', _, _, moved', start', returned'⟩ := answers'
  refine deterministic (hg.of_axpy hx moved).1 (hg'.of_axpy hx' moved').1 ?_ positive returned
    returned'
  rw [start, start', point, slope]

/-- The same iterate with all that belongs to it, as points and numbers. -/
structure State.Alike (S : Structure) (s t : State Exact) : Prop where
  x : t.x.point S = s.x.point S
  fx : t.fx = s.fx
  grad : t.grad.point S = s.grad.point S
  xbar : t.xbar.point S = s.xbar.point S
  gxbar : t.gxbar = s.gxbar
  residual : t.residual = s.residual
  bound : t.bound = s.bound

theorem State.Alike.value {S : Structure} (alike : s.Alike S t) : t.value = s.value := by
  rw [State.value, State.value, alike.bound, alike.gxbar]

/-- The iterate and the step size determine the rest. -/
theorem State.Sound.alike (deterministic : g.Deterministic A.domain) (hs : s.Sound M g γ)
    (ht : t.Sound M g γ) (same : t.x.point A.domain = s.x.point A.domain) :
    s.Alike A.domain t := by
  have image : t.ax.point A.codomain = s.ax.point A.codomain := by
    rw [ht.evaluated.image, hs.evaluated.image, same]
  have smooth : t.fx = s.fx := by rw [ht.evaluated.value, hs.evaluated.value, image]
  have slope : t.grad.point A.domain = s.grad.point A.domain := by
    rw [ht.evaluated.gradient, hs.evaluated.gradient, image]
  have answered := hs.stepped.step.determined deterministic hs.sized.positive hs.evaluated.x_fits
    hs.evaluated.grad_fits ht.evaluated.x_fits ht.evaluated.grad_fits ht.stepped.step same slope
  have step : t.xbar.point A.domain = s.xbar.point A.domain := answered.1
  have change : t.r.point A.domain = s.r.point A.domain := by
    rw [ht.stepped.difference, hs.stepped.difference, same, step]
  refine ⟨same, smooth, slope, step, answered.2, ?_, ?_⟩
  · rw [ht.stepped.norm, hs.stepped.norm, change]
  · obtain ⟨f, fx, model⟩ := hs.stepped.model
    obtain ⟨f', fx', model'⟩ := ht.stepped.model
    obtain rfl : f' = f := Exact.real.inj (fx'.symm.trans (smooth.trans fx))
    rw [model', model, slope, change]

/-! ## Parts of an iteration -/

/-- From the second iteration on it is the history that chooses, with the pair offered. -/
theorem State.chooseDirection_of_later {R : Type} [Scalar R] {s : State R} {h : History R}
    (later : s.iteration ≠ 1)
    (offered : s.history.update s.xbar s.xbarPrev s.rbar s.rbarPrev = .ok h) :
    s.chooseDirection = (do pure { s with history := h, d := ← h.direction s.rbar }) := by
  simp only [chooseDirection, if_neg later, learn, offered, bind, Except.bind, pure, Except.pure]

namespace Solver

/-- An iteration begins with the image of the step and the smooth term there. -/
theorem Served.evaluates (served : Served A g c n) (sound : s.Sound M g γ) (w : World σ Exact) :
    ∃ axbar fxbar w', StepEvaluated M s.xbar axbar fxbar ∧
      State.Sound M g γ { s.nextIteration with
        axbar := axbar, fxbar := fxbar, operatorCalls := s.operatorCalls + 1 } ∧
      Run.call (s.nextIteration.evaluateStep A) w = .ok { s.nextIteration with
        axbar := axbar, fxbar := fxbar, operatorCalls := s.operatorCalls + 1 } w' := by
  obtain ⟨s₁, env, evaluates⟩ := State.evaluateStep_answers (s := s.nextIteration) M served.total
    sound.stepped.xbar_fits w.env
  obtain ⟨axbar, fxbar, evaluated, rfl⟩ :=
    State.evaluateStep_evaluated (M := M) evaluates sound.stepped.xbar_fits
  exact ⟨axbar, fxbar, _, evaluated,
    ⟨sound.sized, sound.evaluated, sound.stepped, sound.history⟩,
    Run.call_returns.mpr ⟨env, evaluates, rfl⟩⟩

/-- Behind the search for a step size the envelope is recorded. -/
theorem Served.settles (served : Served A g c n) (sound : s.Sound M g γ)
    (evaluated : StepEvaluated M s.xbar s.axbar s.fxbar) (found : Option Bool) (left : Nat)
    (w : World σ Exact) :
    s.record.markValid.Sound M g γ ∧ ∃ w', Move c A g ⟨.measured found, left, s, w⟩
      ⟨.recorded found, left, s.record.markValid, w'⟩ := by
  obtain ⟨d, step⟩ : ∃ d, Move c A g ⟨.measured found, left, s, w⟩ d :=
    served.measured_moves sound evaluated found
  cases step with
  | settle announced settled =>
      obtain ⟨_, _, rfl⟩ := settle_returns settled
      exact ⟨⟨sound.sized, sound.evaluated, sound.stepped, sound.history⟩, _,
        .settle announced settled⟩

/-- The first direction is minus the residual at `xbar`. -/
theorem aim_of_first {gradbar rbar : Vec Exact} {env env' : σ} (first : s.iteration = 1)
    (residual : s.evaluateResidual A g env = .ok { s with
      gradbar := gradbar, rbar := rbar
      operatorCalls := s.operatorCalls + 1, proxCalls := s.proxCalls + 1 } env') :
    aim A g s env = .ok { s with
      gradbar := gradbar, rbar := rbar, d := rbar.scale (-1)
      operatorCalls := s.operatorCalls + 1, proxCalls := s.proxCalls + 1
      xbarPrev := s.xbar, rbarPrev := rbar } env' := by
  unfold aim
  rw [bind_of_returns residual]
  exact bind_returns.mpr ⟨_, _, lift_returns.mpr ⟨if_pos first, rfl⟩, rfl⟩

/-- A later direction is what the history answers, which is offered the pair before. -/
theorem aim_of_later {gradbar rbar : Vec Exact} {h : History Exact} {env env' : σ}
    (later : s.iteration ≠ 1)
    (residual : s.evaluateResidual A g env = .ok { s with
      gradbar := gradbar, rbar := rbar
      operatorCalls := s.operatorCalls + 1, proxCalls := s.proxCalls + 1 } env')
    (updated : s.history.update s.xbar s.xbarPrev rbar s.rbarPrev = .ok h) :
    (∀ d, h.direction rbar = .ok d → ∃ s', aim A g s env = .ok s' env' ∧ s'.d = d) ∧
      ∀ e, h.direction rbar = .error e → aim A g s env = .error e env' := by
  have chosen := State.chooseDirection_of_later
    (s := { s with
      gradbar := gradbar, rbar := rbar
      operatorCalls := s.operatorCalls + 1, proxCalls := s.proxCalls + 1 }) later updated
  constructor
  · intro d asked
    unfold aim
    rw [bind_of_returns residual, chosen, asked]
    exact ⟨_, rfl, rfl⟩
  · intro e refused
    unfold aim
    rw [bind_of_returns residual, chosen, refused]
    rfl

/-- A run that is refused a direction fails. -/
theorem Passes.fails {x0 : Option (Vec Exact)} {w w₁ : World σ Exact} {found : Option Bool}
    {vs : List (Snapshot σ Exact)} {left : Nat} {e : Fault} {env : σ}
    (passes : Passes A g x0 c w vs ⟨.recorded found, left, s, w₁⟩)
    (refused : aim A g s w₁.env = .error e env) :
    solve A g x0 c w = .error (.fault e) { w₁ with env := env } := by
  have fails : Run.call (aim A g s) w₁ = .error (.fault e) { w₁ with env := env } := by
    unfold Run.call
    rw [refused]
  exact passes.solve_eq.trans (bind_of_fails fails _)

end Solver

/-- Where a search along a direction leaves the state if it accepts its first trial. -/
structure State.Arrives (M : A.Meaning) (g : Prox σ Exact) (γ : ℝ) (s t : State Exact) : Prop where
  sound : t.Sound M g γ
  point : t.x.point A.domain = s.xbarPrev.point A.domain + s.d.point A.domain
  gamma : t.gamma = s.gamma
  tau : t.tau = 1
  iteration : t.iteration = s.iteration
  firstResidual : t.firstResidual = s.firstResidual
  xbarPrev : t.xbarPrev = s.xbarPrev
  rbarPrev : t.rbarPrev = s.rbarPrev
  history : t.history = s.history
  gammaFailures : t.gammaFailures = s.gammaFailures
  tauFailures : t.tauFailures = s.tauFailures

theorem State.Trying.arrives {env env' : σ} (stays : g.StaysIn A.domain) (trying : s.Trying M g γ)
    (returned : s.tauTrial g 1 env = .ok t env') : s.Arrives M g γ t := by
  rw [Exact.one_eq] at returned
  have after := (tauTrial_sound stays trying.sized trying.history trying.anchored trying.directed
    returned).1
  obtain ⟨x, ax, square, grad, moved, _, _, _, stepped⟩ := tauTrial_returns returned
  obtain ⟨_, _, _, _, _, _, rfl⟩ := step_frame stepped
  refine ⟨after, ?_, rfl, Exact.one_eq.symm, rfl, rfl, rfl, rfl, rfl, rfl, rfl⟩
  rw [(trying.directed.d_fits.of_axpy trying.anchored.xbarPrev_fits moved).2, one_smul, add_comm]

/-- A search whose first trial is not above the level accepts it, and the iteration ends there. -/
theorem State.Poised.accepts {level : Exact} (served : Solver.Served A g c n) (checked : c.Checked)
    (poised : s.Poised M g γ) (allowed : s.level = .ok level)
    (below : ∀ t, s.Arrives M g γ t → Scalar.le t.value level = true) (left : Nat)
    (w : World σ Exact) :
    ∃ us t w', Course c A g ⟨.aimed, left, s, w⟩ us ⟨.resting, left, t, w'⟩ ∧ trials us = 1 ∧
      s.Arrives M g γ t := by
  obtain ⟨k, rfl⟩ := Nat.exists_eq_succ_of_ne_zero
    (checked.searchBudget_positive served.budget).ne'
  obtain ⟨s₁, env₁, evaluated⟩ := evaluateDirection_answers M served.total poised.d_fits w.env
  obtain ⟨trying, _, _⟩ := poised.trying evaluated
  obtain ⟨t, env, tried⟩ := tauTrial_answers (τ := 1) served.answers served.stays trying.sized
    trying.anchored trying.directed env₁
  rw [← Exact.one_eq] at tried
  have arrives : s.Arrives M g γ t := by
    have arrived := trying.arrives served.stays tried
    obtain ⟨ld, lld, _, _, _, rfl⟩ := evaluateDirection_returns evaluated
    exact { arrived with }
  have departs : Move c A g ⟨.aimed, left, s, w⟩
      ⟨.searchingTau (k + 1) 1 level, left, s₁, { w with env := env₁ }⟩ :=
    .depart allowed (Run.call_returns.mpr ⟨env₁, evaluated, rfl⟩) served.budget
  have accepts : Move c A g ⟨.searchingTau (k + 1) 1 level, left, s₁, { w with env := env₁ }⟩
      ⟨.moved true, left, t, { w with env := env }⟩ :=
    .accept (Run.call_returns.mpr ⟨env, tried, rfl⟩) (below t arrives)
  obtain ⟨d, ends⟩ : ∃ d, Move c A g ⟨.moved true, left, t, { w with env := env }⟩ d :=
    served.moved_moves arrives.sound true
  cases ends with
  | approve reported approved =>
      obtain ⟨_, rfl, rfl⟩ := Solver.approve_returns.mp approved
      refine ⟨_, _, _, ((Course.single departs).move accepts).move (.approve reported approved),
        rfl, { arrives with sound := ?_ }⟩
      exact ⟨arrives.sound.sized, arrives.sound.evaluated, arrives.sound.stepped,
        arrives.sound.history⟩

end ForwardBackward
