/-
# ForwardBackward.Proofs.Effects -- what the parts of an iteration leave behind

One lemma for each part of an iteration: if it returns, these calls were made and
answered, and this is the new state.  What a lemma does not name is as it was.
The lemmas hold in every arithmetic, and whoever uses a part from outside needs
nothing else about it.
-/
import ForwardBackward.Proofs.Computations
import ForwardBackward.Solver

namespace ForwardBackward

set_option autoImplicit false

variable {σ R : Type} [Scalar R]

theorem envelope_accepts {x xbar grad : Vec R} {gxbar fx gamma : R} {e : Envelope R} :
    envelope x xbar gxbar fx grad gamma = .ok e ↔ ∃ r a slope square curvature,
      x.sub xbar = .ok r ∧ r.asArrays = .ok a ∧ grad.inner r = .ok slope ∧
      Scalar.square a.norm = .ok square ∧ Scalar.quotient square (2 * gamma) = .ok curvature ∧
      e = ⟨r, a.norm, fx - slope + curvature, fx - slope + curvature + gxbar⟩ := by
  simp only [envelope, bind_accepts, pure_accepts]
  constructor
  · rintro ⟨r, difference, a, arrays, slope, product, square, squared, curvature, divided, rfl⟩
    exact ⟨r, a, slope, square, curvature, difference, arrays, product, squared, divided, rfl⟩
  · rintro ⟨r, a, slope, square, curvature, difference, arrays, product, squared, divided, rfl⟩
    exact ⟨r, difference, a, arrays, slope, product, square, squared, curvature, divided, rfl⟩

theorem forwardBackwardStep_returns {g : Prox σ R} {x grad : Vec R} {gamma : R} {p : Vec R × R}
    {env env' : σ} :
    forwardBackwardStep g x grad gamma env = .ok p env' ↔
      ∃ v, Vec.axpy (-gamma) grad x = .ok v ∧ g.prox v gamma env = .ok p env' := by
  simp only [forwardBackwardStep, bind_returns, lift_returns]
  constructor
  · rintro ⟨v, _, ⟨moved, rfl⟩, stepped⟩
    exact ⟨v, moved, stepped⟩
  · rintro ⟨v, moved, stepped⟩
    exact ⟨v, env, ⟨moved, rfl⟩, stepped⟩

/-- The operator is applied to some vector, and its adjoint to the image. -/
def Operator.Probed (A : Operator σ R) (env env' : σ) : Prop :=
  ∃ v ax grad env₁, A.apply v env = .ok ax env₁ ∧ A.applyAdjoint ax env₁ = .ok grad env'

namespace State

variable {A : Operator σ R} {g : Prox σ R} {s s' : State R} {env env' : σ} {w w' : World σ R}

theorem certify_returns {what : Monitored} {finite : Bool} :
    (s.certify what finite : Run σ R (State R)) w = .ok s' w' ↔
      finite = true ∧ s' = s.markValid ∧ w' = w := by
  unfold certify
  split
  · next yes => simp [yes, pure_returns]
  · next no => simp [no, throw_returns]

theorem certify_fails {what : Monitored} {finite : Bool} {e : Failure R} :
    (s.certify what finite : Run σ R (State R)) w = .error e w' ↔
      finite = false ∧ e = .nonFinite what ⟨s.iteration, s.validGamma, s.validResidual⟩ ∧
        w' = w := by
  unfold certify
  cases finite with
  | true => exact ⟨nofun, nofun⟩
  | false =>
      constructor
      · intro failed
        cases failed
        exact ⟨rfl, rfl, rfl⟩
      · rintro ⟨_, rfl, rfl⟩
        rfl

theorem evaluate_returns (returned : s.evaluate A env = .ok s' env') :
    ∃ ax square grad env₁, A.apply s.x env = .ok ax env₁ ∧ ax.sqnorm = .ok square ∧
      A.applyAdjoint ax env₁ = .ok grad env' ∧
      s' = { s with
        ax := ax, fx := 0.5 * square, grad := grad, operatorCalls := s.operatorCalls + 2 } := by
  simp only [evaluate, callOperator, bind_returns, pure_returns, lift_returns] at returned
  obtain ⟨_, _, ⟨ax, _, applied, rfl, rfl⟩, square, _, ⟨squared, rfl⟩, _, _,
    ⟨grad, _, adjoint, rfl, rfl⟩, rfl, rfl⟩ := returned
  exact ⟨ax, square, grad, _, applied, squared, adjoint, rfl⟩

theorem evaluateStep_returns (returned : s.evaluateStep A env = .ok s' env') :
    ∃ axbar square, A.apply s.xbar env = .ok axbar env' ∧ axbar.sqnorm = .ok square ∧
      s' = { s with
        axbar := axbar, fxbar := 0.5 * square, operatorCalls := s.operatorCalls + 1 } := by
  simp only [evaluateStep, callOperator, bind_returns, pure_returns, lift_returns] at returned
  obtain ⟨_, _, ⟨axbar, _, applied, rfl, rfl⟩, square, _, ⟨squared, rfl⟩, rfl, rfl⟩ := returned
  exact ⟨axbar, square, applied, squared, rfl⟩

theorem step_returns (returned : s.step g env = .ok s' env') :
    ∃ v p e, Vec.axpy (-s.gamma) s.grad s.x = .ok v ∧ g.prox v s.gamma env = .ok p env' ∧
      envelope s.x p.1 p.2 s.fx s.grad s.gamma = .ok e ∧
      s' = { s with
        xbar := p.1, gxbar := p.2, r := e.r, residual := e.residual, bound := e.bound
        proxCalls := s.proxCalls + 1 } := by
  simp only [step, callProx, forwardBackwardStep, bind_returns, pure_returns,
    lift_returns] at returned
  obtain ⟨_, _, ⟨p, _, ⟨v, _, ⟨moved, rfl⟩, stepped⟩, rfl, rfl⟩, e, _, ⟨enveloped, rfl⟩, rfl,
    rfl⟩ := returned
  exact ⟨v, p, e, moved, stepped, enveloped, rfl⟩

theorem step_of_returns {p : Vec R × R} {e : Envelope R}
    (stepped : forwardBackwardStep g s.x s.grad s.gamma env = .ok p env')
    (enveloped : envelope s.x p.1 p.2 s.fx s.grad s.gamma = .ok e) :
    s.step g env = .ok { s with
      xbar := p.1, gxbar := p.2, r := e.r, residual := e.residual, bound := e.bound
      proxCalls := s.proxCalls + 1 } env' := by
  simp only [step, callProx, bind_returns, pure_returns, lift_returns]
  exact ⟨_, _, ⟨p, env', stepped, rfl, rfl⟩, e, env', ⟨enveloped, rfl⟩, rfl, rfl⟩

theorem gammaTrial_returns (returned : s.gammaTrial A g env = .ok s' env') :
    ∃ s₁ env₁, s.shrinkGamma.step g env = .ok s₁ env₁ ∧ s₁.evaluateStep A env₁ = .ok s' env' := by
  simpa only [gammaTrial, bind_returns] using returned

/-- The quadratic model `bound` has a term for the curvature, from the residual norm and the step
size. -/
def Curved (gamma residual bound : R) : Prop :=
  ∃ f square curvature, Scalar.square residual = .ok square ∧
    Scalar.quotient square (2 * gamma) = .ok curvature ∧ bound = f + curvature

/-- A step replaces what belongs to it. -/
theorem step_frame (returned : s.step g env = .ok s' env') :
    ∃ xbar gxbar r residual bound, Curved s.gamma residual bound ∧
      s' = { s with
        xbar := xbar, gxbar := gxbar, r := r, residual := residual, bound := bound
        proxCalls := s.proxCalls + 1 } := by
  obtain ⟨v, p, e, _, _, enveloped, rfl⟩ := step_returns returned
  obtain ⟨r, a, slope, square, curvature, _, _, _, squared, divided, rfl⟩ :=
    envelope_accepts.mp enveloped
  exact ⟨p.1, p.2, r, a.norm, _, ⟨_, square, curvature, squared, divided, rfl⟩, rfl⟩

/-- A halving replaces the step size, the slope, and what belongs to the step. -/
theorem gammaTrial_frame (returned : s.gammaTrial A g env = .ok s' env') :
    ∃ xbar gxbar r residual bound axbar fxbar, Curved s.shrinkGamma.gamma residual bound ∧
      s' = { s.shrinkGamma with
        xbar := xbar, gxbar := gxbar, r := r, residual := residual, bound := bound
        axbar := axbar, fxbar := fxbar
        operatorCalls := s.operatorCalls + 1, proxCalls := s.proxCalls + 1 } := by
  obtain ⟨s₁, env₁, stepped, evaluated⟩ := gammaTrial_returns returned
  obtain ⟨xbar, gxbar, r, residual, bound, curved, rfl⟩ := step_frame stepped
  obtain ⟨axbar, square, _, _, rfl⟩ := evaluateStep_returns evaluated
  exact ⟨xbar, gxbar, r, residual, bound, axbar, _, curved, rfl⟩

theorem tauTrial_returns {tau : R} (returned : s.tauTrial g tau env = .ok s' env') :
    ∃ x ax square grad, Vec.axpy tau s.d s.xbarPrev = .ok x ∧ Vec.axpy tau s.ld s.axbar = .ok ax ∧
      ax.sqnorm = .ok square ∧ Vec.axpy tau s.lld s.gradbar = .ok grad ∧
      step { s with tau := tau, x := x, ax := ax, fx := 0.5 * square, grad := grad } g env =
        .ok s' env' := by
  simp only [tauTrial, bind_returns, lift_returns] at returned
  obtain ⟨x, _, ⟨moved, rfl⟩, ax, _, ⟨image, rfl⟩, square, _, ⟨squared, rfl⟩, grad, _,
    ⟨slope, rfl⟩, stepped⟩ := returned
  exact ⟨x, ax, square, grad, moved, image, squared, slope, stepped⟩

/-- A trial is a step from the combination of the anchor and the direction. -/
theorem tauTrial_of_combinations {tau square : R} {x ax grad : Vec R}
    (moved : Vec.axpy tau s.d s.xbarPrev = .ok x) (image : Vec.axpy tau s.ld s.axbar = .ok ax)
    (squared : ax.sqnorm = .ok square) (slope : Vec.axpy tau s.lld s.gradbar = .ok grad) :
    s.tauTrial g tau =
      step { s with tau := tau, x := x, ax := ax, fx := 0.5 * square, grad := grad } g := by
  simp only [tauTrial, moved, image, squared, slope, lift_ok, pure_bind]

/-- A trial along the direction replaces the iterate and what belongs to it. -/
theorem tauTrial_frame {tau : R} (returned : s.tauTrial g tau env = .ok s' env') :
    ∃ x ax fx grad xbar gxbar r residual bound, Curved s.gamma residual bound ∧
      s' = { s with
        tau := tau, x := x, ax := ax, fx := fx, grad := grad, xbar := xbar, gxbar := gxbar, r := r
        residual := residual, bound := bound, proxCalls := s.proxCalls + 1 } := by
  obtain ⟨x, ax, square, grad, _, _, _, _, stepped⟩ := tauTrial_returns returned
  obtain ⟨xbar, gxbar, r, residual, bound, curved, rfl⟩ := step_frame stepped
  exact ⟨x, ax, _, grad, xbar, gxbar, r, residual, bound, curved, rfl⟩

theorem evaluateDirection_returns (returned : s.evaluateDirection A env = .ok s' env') :
    ∃ ld lld env₁, A.linearPart.apply s.d env = .ok ld env₁ ∧
      A.applyAdjoint ld env₁ = .ok lld env' ∧
      s' = { s with ld := ld, lld := lld, operatorCalls := s.operatorCalls + 2 } := by
  simp only [evaluateDirection, callOperator, bind_returns, pure_returns] at returned
  obtain ⟨_, _, ⟨ld, _, image, rfl, rfl⟩, _, _, ⟨lld, _, adjoint, rfl, rfl⟩, rfl, rfl⟩ := returned
  exact ⟨ld, lld, _, image, adjoint, rfl⟩

theorem evaluateResidual_returns (returned : s.evaluateResidual A g env = .ok s' env') :
    ∃ gradbar v p rbar env₁, A.applyAdjoint s.axbar env = .ok gradbar env₁ ∧
      Vec.axpy (-s.gamma) gradbar s.xbar = .ok v ∧ g.prox v s.gamma env₁ = .ok p env' ∧
      s.xbar.sub p.1 = .ok rbar ∧
      s' = { s with
        gradbar := gradbar, rbar := rbar
        operatorCalls := s.operatorCalls + 1, proxCalls := s.proxCalls + 1 } := by
  simp only [evaluateResidual, callOperator, callProx, forwardBackwardStep, bind_returns,
    pure_returns, lift_returns] at returned
  obtain ⟨_, _, ⟨gradbar, _, adjoint, rfl, rfl⟩, _, _, ⟨p, _, ⟨v, _, ⟨moved, rfl⟩, stepped⟩, rfl,
    rfl⟩, rbar, _, ⟨difference, rfl⟩, rfl, rfl⟩ := returned
  exact ⟨gradbar, v, p, rbar, _, adjoint, moved, stepped, difference, rfl⟩

theorem setGamma_accepts {gamma : R} :
    s.setGamma gamma = .ok s' ↔
      ∃ sigma, Scalar.quotient safety (4 * gamma) = .ok sigma ∧
        s' = { s with gamma := gamma, sigma := sigma } := by
  simp only [setGamma, bind_accepts, pure_accepts]

theorem level_accepts {level : R} :
    s.level = .ok level ↔
      ∃ square, Scalar.square s.residual = .ok square ∧ level = s.recorded - s.sigma * square := by
  simp only [State.level, bind_accepts, pure_accepts]

/-- The direction and the history after it: the first direction is minus the residual, a later
one is asked of the history, which has been offered the pair. -/
theorem chooseDirection_accepts (chosen : s.chooseDirection = .ok s') :
    ∃ history d, s' = { s with history := history, d := d } ∧
      ((s.iteration = 1 ∧ history = s.history ∧ d = s.rbar.scale (-1)) ∨
        (s.iteration ≠ 1 ∧
          s.history.update s.xbar s.xbarPrev s.rbar s.rbarPrev = .ok history ∧
          history.direction s.rbar = .ok d)) := by
  unfold chooseDirection at chosen
  split at chosen
  · next one =>
      cases chosen
      exact ⟨_, _, rfl, .inl ⟨one, rfl, rfl⟩⟩
  · next later =>
      simp only [learn, bind_accepts, pure_accepts] at chosen
      obtain ⟨_, ⟨history, offered, rfl⟩, d, asked, rfl⟩ := chosen
      exact ⟨history, d, rfl, .inr ⟨later, offered, asked⟩⟩

theorem estimateLipschitz_returns {lipschitz : R}
    (returned : s.estimateLipschitz A env = .ok (lipschitz, s') env') :
    A.Probed env env' ∧ s' = { s with operatorCalls := s.operatorCalls + 2 } := by
  simp only [estimateLipschitz, callOperator, bind_returns, pure_returns, lift_returns] at returned
  obtain ⟨delta, _, ⟨_, rfl⟩, _, _, ⟨ax, env₁, applied, rfl, rfl⟩, _, _,
    ⟨grad, _, adjoint, rfl, rfl⟩, _, _, ⟨_, rfl⟩, _, _, ⟨_, rfl⟩, _, _, ⟨_, rfl⟩, _, _, ⟨_, rfl⟩,
    last, rfl⟩ := returned
  exact ⟨⟨s.x.shift delta, ax, grad, _, applied, adjoint⟩, (Prod.mk.inj last).2⟩

/-- An estimated step size is one for a number above the machine epsilon, or for one. -/
theorem estimateGamma_returns {verbosity : Verbosity} {gamma : R}
    (returned : s.estimateGamma A verbosity w = .ok (gamma, s') w') :
    A.Probed w.env w'.env ∧ s' = { s with operatorCalls := s.operatorCalls + 2 } ∧
      (gamma = gammaFor 1 ∨ ∃ lipschitz eps, s.x.machineEps = .ok eps ∧
        Scalar.isFinite lipschitz = true ∧ Scalar.le lipschitz eps = false ∧
        gamma = gammaFor lipschitz) := by
  simp only [estimateGamma, bind_returns, Run.lift_call, Run.lift_refuse, Run.call_returns,
    Run.refuse_returns] at returned
  obtain ⟨⟨lipschitz, s₁⟩, _, ⟨_, estimated, rfl⟩, eps, _, ⟨spacing, rfl⟩, returned⟩ := returned
  obtain ⟨probed, rfl⟩ := estimateLipschitz_returns estimated
  split at returned
  · next clear =>
      rw [pure_returns] at returned
      obtain ⟨answer, rfl⟩ := returned
      obtain ⟨rfl, rfl⟩ := Prod.mk.inj answer
      simp only [Bool.and_eq_true, Bool.not_eq_true'] at clear
      exact ⟨probed, rfl, .inr ⟨lipschitz, eps, spacing, clear.1, clear.2, rfl⟩⟩
  · split at returned
    · rw [bind_returns] at returned
      obtain ⟨_, _, noted, returned⟩ := returned
      cases noted
      obtain ⟨answer, rfl⟩ := pure_returns.mp returned
      obtain ⟨rfl, rfl⟩ := Prod.mk.inj answer
      exact ⟨probed, rfl, .inl rfl⟩
    · obtain ⟨answer, rfl⟩ := pure_returns.mp returned
      obtain ⟨rfl, rfl⟩ := Prod.mk.inj answer
      exact ⟨probed, rfl, .inl rfl⟩

end State

namespace Solver

variable {A : Operator σ R} {g : Prox σ R} {c : Config σ R} {s s' : State R} {env env' : σ}
  {w w' : World σ R}

theorem report_env (returned : report c s w = .ok () w') : w'.env = w.env := by
  unfold report at returned
  cases wanted : c.verbosity with
  | off | everyIteration =>
      rw [wanted] at returned
      cases returned
      rfl
  | periodic =>
      rw [wanted] at returned
      change (if _ then _ else _ : Run σ R Unit) w = _ at returned
      split at returned <;> cases returned <;> rfl

theorem reportExhausted_env {found : Bool} {n : Note R}
    (returned : reportExhausted c found n w = .ok () w') : w'.env = w.env := by
  unfold reportExhausted at returned
  split at returned <;> cases returned <;> rfl

theorem conclude_env {status : Status} (returned : conclude c status s w = .ok () w') :
    w'.env = w.env := by
  unfold conclude at returned
  split at returned
  · cases status <;> cases returned <;> rfl
  · cases returned
    rfl

/-- The predicate has decided, and its memory is what it made of it. -/
theorem consult_returns {halt : Bool} (returned : consult c s w = .ok halt w') :
    c.predicate.judge c.tolerance s w.env = (.decided halt, w'.env) := by
  obtain ⟨_, _, got, returned⟩ := bind_returns.mp returned
  cases got
  cases told : c.predicate.judge c.tolerance s w.env with
  | mk verdict env =>
      simp only [told] at returned
      obtain ⟨_, _, kept, returned⟩ := bind_returns.mp returned
      cases kept
      cases verdict with
      | decided halt =>
          cases returned
          rfl
      | notTruth | raised => cases returned

/-- A predicate that decides is a question answered. -/
theorem consult_of_decided {halt : Bool}
    (told : c.predicate.judge c.tolerance s w.env = (.decided halt, env)) :
    consult c s w = .ok halt { w with env := env } := by
  refine bind_returns.mpr ⟨w, w, rfl, ?_⟩
  rw [told]
  rfl

theorem aim_returns (returned : aim A g s env = .ok s' env') :
    ∃ s₁ s₂, s.evaluateResidual A g env = .ok s₁ env' ∧ s₁.chooseDirection = .ok s₂ ∧
      s' = s₂.keep := by
  simp only [aim, bind_returns, lift_returns, pure_returns] at returned
  obtain ⟨s₁, _, evaluated, s₂, _, ⟨chosen, rfl⟩, rfl, rfl⟩ := returned
  exact ⟨s₁, s₂, evaluated, chosen, rfl⟩

/-- The choice of a direction keeps `xbar` and its residual for the next pair, and all but the
first offer a pair to the history. -/
theorem aim_frame (returned : aim A g s env = .ok s' env') :
    ∃ gradbar rbar history d,
      (s.iteration ≠ 1 → s.history.update s.xbar s.xbarPrev rbar s.rbarPrev = .ok history) ∧
      s' = { s with
        gradbar := gradbar, rbar := rbar, history := history, d := d
        operatorCalls := s.operatorCalls + 1, proxCalls := s.proxCalls + 1
        xbarPrev := s.xbar, rbarPrev := rbar } := by
  obtain ⟨s₁, s₂, residual, chosen, rfl⟩ := aim_returns returned
  obtain ⟨gradbar, v, p, rbar, env₁, _, _, _, _, rfl⟩ := State.evaluateResidual_returns residual
  obtain ⟨history, d, rfl, choice⟩ := State.chooseDirection_accepts chosen
  refine ⟨gradbar, rbar, history, d, fun later => ?_, rfl⟩
  rcases choice with ⟨one, _⟩ | ⟨_, offered, _⟩
  · exact absurd one later
  · exact offered

theorem settle_returns (returned : settle c s w = .ok s' w') :
    Scalar.isFinite s.fxbar = true ∧ Scalar.isFinite s.value = true ∧
      s' = s.record.markValid := by
  simp only [settle, bind_returns, pure_returns, State.certify_returns, Bool.and_eq_true]
    at returned
  obtain ⟨_, _, ⟨finite, rfl, rfl⟩, _, _, _, rfl, rfl⟩ := returned
  exact ⟨finite.1, finite.2, rfl⟩

theorem settle_env (returned : settle c s w = .ok s' w') : w'.env = w.env := by
  simp only [settle, bind_returns, pure_returns, State.certify_returns] at returned
  obtain ⟨_, _, ⟨_, rfl, rfl⟩, _, _, reported, rfl, rfl⟩ := returned
  exact report_env reported

theorem approve_returns :
    (approve s : Run σ R (State R)) w = .ok s' w' ↔
      (Scalar.isFinite s.fx && s.grad.allFinite && Scalar.isFinite s.value) = true ∧
        s' = s.markValid ∧ w' = w :=
  State.certify_returns

/-- The step size of the options is taken as it is, and where there is none it is estimated. -/
theorem firstGamma_returns {gamma : R} (returned : firstGamma c A s w = .ok (gamma, s') w') :
    (c.stepSize = some gamma ∧ s' = s ∧ w' = w) ∨
      (c.stepSize = none ∧ A.Probed w.env w'.env ∧
        s' = { s with operatorCalls := s.operatorCalls + 2 } ∧
        (gamma = State.gammaFor 1 ∨
          ∃ lipschitz eps, s.x.machineEps = .ok eps ∧ Scalar.isFinite lipschitz = true ∧
            Scalar.le lipschitz eps = false ∧ gamma = State.gammaFor lipschitz)) := by
  unfold firstGamma at returned
  cases given : c.stepSize with
  | some given =>
      simp only [given, pure_returns] at returned
      obtain ⟨answer, rfl⟩ := returned
      obtain ⟨rfl, rfl⟩ := Prod.mk.inj answer
      exact .inl ⟨rfl, rfl, rfl⟩
  | none =>
      simp only [given] at returned
      exact .inr ⟨rfl, State.estimateGamma_returns returned⟩

/-- The search for the first step size only counts its calls. -/
theorem firstGamma_frame {gamma : R} (returned : firstGamma c A s w = .ok (gamma, s') w') :
    s' = { s with
      operatorCalls := s.operatorCalls + if c.stepSize.isNone then 2 else 0 } := by
  rcases firstGamma_returns returned with ⟨given, rfl, _⟩ | ⟨none, _, rfl, _⟩
  · rw [given]
    rfl
  · rw [none]
    rfl

/-- From the arguments to the first snapshot: the iterate is evaluated, a step size is found, and
the first step is taken with it.  What is checked on the way is finite. -/
theorem launch_returns {x0 : Option (Vec R)} (returned : launch A g x0 c w = .ok s' w') :
    ∃ x memory s₁ w₁ gamma s₂ w₂ s₃ s₄, startingPoint A x0 = .ok x ∧
      c.memory.slots = .ok memory ∧ (State.start x memory).evaluate A w.env = .ok s₁ w₁.env ∧
      firstGamma c A s₁.markValid w₁ = .ok (gamma, s₂) w₂ ∧ s₂.setGamma gamma = .ok s₃ ∧
      s₃.step g w₂.env = .ok s₄ w'.env ∧
      ((Scalar.isFinite s₁.fx && s₁.grad.allFinite) = true ∧ Scalar.isFinite s₄.value = true) ∧
      s' = State.markValid { s₄ with recorded := s₄.value } := by
  simp only [launch, bind_returns, Run.lift_refuse, Run.refuse_returns] at returned
  obtain ⟨x, w₁, ⟨started, here⟩, memory, w₂, ⟨slots, there⟩, returned⟩ := returned
  subst w₁ w₂
  have begun : ∃ w₀, w₀.env = w.env ∧ begin c A g (State.start x memory) w₀ = .ok s' w' := by
    split at returned
    · rw [bind_returns] at returned
      obtain ⟨_, w₀, noted, begun⟩ := returned
      cases noted
      exact ⟨⟨w.env, w.notes.push .opening⟩, rfl, begun⟩
    · exact ⟨_, rfl, returned⟩
  obtain ⟨w₀, same, begun⟩ := begun
  simp only [begin, bind_returns, Run.lift_refuse, Run.refuse_returns, Run.lift_call,
    Run.call_returns, State.certify_returns] at begun
  obtain ⟨s₁, _, ⟨_, evaluated, rfl⟩, _, _, ⟨smooth, rfl, rfl⟩, ⟨gamma, s₂⟩, w₂, sized, s₃, _,
    ⟨set, rfl⟩, s₄, _, ⟨_, stepped, rfl⟩, finite, rfl, rfl⟩ := begun
  rw [same] at evaluated
  exact ⟨x, memory, s₁, _, gamma, s₂, _, s₃, s₄, started, slots, evaluated, sized, set, stepped,
    ⟨smooth, finite⟩, rfl⟩

/-- A run begins at the starting point, and nothing is counted yet but calls. -/
theorem launch_starts {x0 : Option (Vec R)} (returned : launch A g x0 c w = .ok s' w') :
    s'.iteration = 0 ∧ s'.gammaFailures = 0 ∧ s'.tauFailures = 0 ∧
      startingPoint A x0 = .ok s'.x := by
  obtain ⟨x, memory, s₁, w₁, gamma, s₂, w₂, s₃, s₄, started, _, evaluated, sized, set, stepped, _,
    rfl⟩ := launch_returns returned
  obtain ⟨_, _, _, _, _, _, _, rfl⟩ := State.evaluate_returns evaluated
  obtain rfl := firstGamma_frame sized
  obtain ⟨_, _, rfl⟩ := State.setGamma_accepts.mp set
  obtain ⟨_, _, _, _, _, _, rfl⟩ := State.step_returns stepped
  exact ⟨rfl, rfl, rfl, started⟩

end Solver

end ForwardBackward
