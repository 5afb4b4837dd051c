/-
# ForwardBackward.Proofs.Progress -- runs that end with a result

Nothing in a run is refused where the operator and the proximal step answer all
vectors of their structures (`Operator.Total`, `Prox.Total`) and the predicate
decides.  For a run without memory this file says so place by place: every place
has a move, unless the run ends there (`Snapshot.Kept.moves`).  A move lowers the
rank of the snapshot (`Turn.rank_lt`), the iterations that are left before the
trials of a search, so the run ends, and with a result (`Solver.returns`).
-/
import ForwardBackward.Proofs.Launch

namespace ForwardBackward

set_option autoImplicit false

variable {σ : Type} {A : Operator σ Exact} {M : A.Meaning} {g : Prox σ Exact}
  {c : Config σ Exact} {γ : ℝ} {n : Nat}

/-! ## Capabilities that answer -/

/-- The operator answers all vectors of its structures. -/
structure Operator.Total (A : Operator σ Exact) : Prop where
  apply : ∀ {x : Vec Exact} (env : σ), x.Fits A.domain → ∃ y env', A.apply x env = .ok y env'
  applyLinear : ∀ {x : Vec Exact} (env : σ), x.Fits A.domain →
    ∃ y env', A.linearPart.apply x env = .ok y env'
  applyAdjoint : ∀ {x : Vec Exact} (env : σ), x.Fits A.codomain →
    ∃ y env', A.applyAdjoint x env = .ok y env'

/-- Proximal steps answer all vectors of a structure, and the value that they answer is a
number. -/
def Prox.Total (g : Prox σ Exact) (S : Structure) : Prop :=
  ∀ {v : Vec Exact} {γ : ℝ} (env : σ), v.Fits S → 0 < γ →
    ∃ p G env', g.prox v (.real γ) env = .ok (p, .real G) env'

/-- The predicate gives a truth value, whatever it sees. -/
def Predicate.Decides (p : Predicate σ Exact) : Prop :=
  ∀ tol s env, ∃ halt env', p.judge tol s env = (.decided halt, env')

/-! ## The parts of an iteration -/

namespace State

variable {s : State Exact}

theorem evaluateStep_answers (M : A.Meaning) (total : A.Total) (fits : s.xbar.Fits A.domain)
    (env : σ) : ∃ s' env', s.evaluateStep A env = .ok s' env' := by
  obtain ⟨axbar, env', applied⟩ := total.apply env fits
  have squared := (M.apply fits applied).1.sqnorm_eq
  simp only [evaluateStep, callOperator, bind_returns, pure_returns, lift_returns]
  exact ⟨_, _, _, _, ⟨axbar, _, applied, rfl, rfl⟩, _, _, ⟨squared, rfl⟩, rfl, rfl⟩

theorem evaluate_answers (M : A.Meaning) (total : A.Total) (fits : s.x.Fits A.domain) (env : σ) :
    ∃ s' env', s.evaluate A env = .ok s' env' := by
  obtain ⟨ax, env₁, applied⟩ := total.apply env fits
  have fitsA := (M.apply fits applied).1
  obtain ⟨grad, env', adjoint⟩ := total.applyAdjoint env₁ fitsA
  simp only [evaluate, callOperator, bind_returns, pure_returns, lift_returns]
  exact ⟨_, _, _, _, ⟨ax, _, applied, rfl, rfl⟩, _, _, ⟨fitsA.sqnorm_eq, rfl⟩, _, _,
    ⟨grad, _, adjoint, rfl, rfl⟩, rfl, rfl⟩

theorem step_answers (answers : g.Total A.domain) (stays : g.StaysIn A.domain)
    (sized : Sized γ s.gamma s.sigma) (evaluated : Evaluated M s.x s.ax s.fx s.grad) (env : σ) :
    ∃ s' env', s.step g env = .ok s' env' := by
  obtain ⟨v, moved, fits, _⟩ := evaluated.grad_fits.axpy (-γ) evaluated.x_fits
  obtain ⟨p, G, env', stepped⟩ := answers env fits sized.positive
  obtain ⟨fitsP, answered⟩ :=
    stays.answers sized.positive evaluated.x_fits evaluated.grad_fits moved stepped
  obtain ⟨e, enveloped, _⟩ := evaluated.enveloped sized.positive fitsP answered
  rw [← sized.gamma] at stepped enveloped
  rw [← Exact.neg_real, ← sized.gamma] at moved
  exact ⟨_, env', step_of_returns (forwardBackwardStep_returns.mpr ⟨v, moved, stepped⟩) enveloped⟩

theorem setGamma_answers (positive : 0 < γ) :
    ∃ sigma, Sized γ (.real γ) sigma ∧
      s.setGamma (.real γ) = .ok { s with gamma := .real γ, sigma := sigma } := by
  refine ⟨_, ⟨positive, rfl, rfl⟩, setGamma_accepts.mpr ⟨_, ?_, rfl⟩⟩
  rw [safety_eq, Exact.four_eq, Exact.real_mul, Exact.quotient_real]
  exact ⟨(mul_pos four_pos positive).ne', rfl⟩

theorem gammaTrial_answers (total : A.Total) (answers : g.Total A.domain)
    (stays : g.StaysIn A.domain) (sound : s.Sound M g γ) (env : σ) :
    ∃ s' env', s.gammaTrial A g env = .ok s' env' := by
  have halved : Sized (γ / 2) s.shrinkGamma.gamma s.shrinkGamma.sigma := sound.sized.halve
  obtain ⟨s₁, env₁, stepped⟩ :=
    step_answers (s := s.shrinkGamma) answers stays halved sound.evaluated env
  obtain ⟨_, _, _, _, _, steps, made⟩ :=
    step_stepped (s := s.shrinkGamma) stays halved sound.evaluated stepped
  have fits : s₁.xbar.Fits A.domain := by
    rw [made]
    exact steps.xbar_fits
  obtain ⟨s', env', evaluated⟩ := evaluateStep_answers M total fits env₁
  simp only [gammaTrial, bind_returns]
  exact ⟨s', env', _, env₁, stepped, evaluated⟩

theorem evaluateResidual_answers (total : A.Total) (answers : g.Total A.domain)
    (stays : g.StaysIn A.domain) (sound : s.Sound M g γ)
    (evaluated : StepEvaluated M s.xbar s.axbar s.fxbar) (env : σ) :
    ∃ s' env', s.evaluateResidual A g env = .ok s' env' := by
  have fits := sound.stepped.xbar_fits
  obtain ⟨gradbar, env₁, adjoint⟩ := total.applyAdjoint env evaluated.axbar_fits
  obtain ⟨v, moved, fitsV, _⟩ := (M.applyAdjoint evaluated.axbar_fits adjoint).1.axpy (-γ) fits
  obtain ⟨p, G, env', stepped⟩ := answers env₁ fitsV sound.sized.positive
  obtain ⟨rbar, difference, _⟩ := fits.sub (stays fitsV sound.sized.positive stepped)
  rw [← sound.sized.gamma] at stepped
  rw [← Exact.neg_real, ← sound.sized.gamma] at moved
  simp only [evaluateResidual, callOperator, callProx, forwardBackwardStep, bind_returns,
    pure_returns, lift_returns]
  exact ⟨_, _, _, _, ⟨gradbar, _, adjoint, rfl, rfl⟩, _, _, ⟨_, _, ⟨v, _, ⟨moved, rfl⟩, stepped⟩,
    rfl, rfl⟩, rbar, _, ⟨difference, rfl⟩, rfl, rfl⟩

theorem evaluateDirection_answers (M : A.Meaning) (total : A.Total) (fits : s.d.Fits A.domain)
    (env : σ) : ∃ s' env', s.evaluateDirection A env = .ok s' env' := by
  obtain ⟨ld, env₁, image⟩ := total.applyLinear env fits
  obtain ⟨lld, env', adjoint⟩ := total.applyAdjoint env₁ (M.applyLinear fits image).1
  simp only [evaluateDirection, callOperator, bind_returns, pure_returns]
  exact ⟨_, _, _, _, ⟨ld, _, image, rfl, rfl⟩, _, _, ⟨lld, _, adjoint, rfl, rfl⟩, rfl, rfl⟩

theorem tauTrial_answers {τ : ℝ} (answers : g.Total A.domain) (stays : g.StaysIn A.domain)
    (sized : Sized γ s.gamma s.sigma)
    (anchored : Anchored M g γ s.xbarPrev s.rbarPrev s.axbar s.gradbar)
    (directed : Directed M s.d s.ld s.lld) (env : σ) :
    ∃ s' env', s.tauTrial g (.real τ) env = .ok s' env' := by
  obtain ⟨x, moved, _⟩ := directed.d_fits.axpy τ anchored.xbarPrev_fits
  obtain ⟨ax, image, fitsA, _⟩ := directed.ld_fits.axpy τ anchored.axbar_fits
  obtain ⟨grad, slope, _⟩ := directed.lld_fits.axpy τ anchored.gradbar_fits
  have evaluated := anchored.evaluated directed moved image slope
  rw [tauTrial_of_combinations moved image fitsA.sqnorm_eq slope]
  exact step_answers (s := { s with
    tau := .real τ, x := x, ax := ax, fx := 0.5 * .real (‖ax.point A.codomain‖ ^ 2)
    grad := grad }) answers stays sized evaluated env

end State

/-- The envelope is a number. -/
theorem Stepped.value_real {S : Structure} {x grad xbar r : Vec Exact}
    {fx gxbar residual bound : Exact} (answers : g.Total S) (positive : 0 < γ) (hx : x.Fits S)
    (hg : grad.Fits S) (stepped : Stepped g S γ x fx grad xbar gxbar r residual bound) :
    ∃ E, bound + gxbar = .real E := by
  obtain ⟨v, env, env', moved, _, returned⟩ := stepped.step
  obtain ⟨p, G, _, answered⟩ := answers env (hg.of_axpy hx moved).1 positive
  have regular : gxbar = .real G :=
    congrArg Prod.snd (EStateM.Result.ok.inj (returned.symm.trans answered)).1
  obtain ⟨f, _, model⟩ := stepped.model
  rw [model, regular, Exact.real_add]
  exact ⟨_, rfl⟩

theorem State.Sound.value_real {s : State Exact} (answers : g.Total A.domain)
    (sound : s.Sound M g γ) : ∃ E, s.value = .real E :=
  sound.stepped.value_real answers sound.sized.positive sound.evaluated.x_fits
    sound.evaluated.grad_fits

/-! ## Runs without memory -/

section Memoryless

variable {R : Type} [Scalar R]

/-- Without memory the direction is minus the residual. -/
theorem State.chooseDirection_of_nil {s : State R} (none : s.history.slots = []) :
    s.chooseDirection = .ok { s with d := s.rbar.scale (-1) } := by
  unfold chooseDirection
  split
  · rfl
  · simp only [learn, History.update_of_nil none, History.direction_of_nil none, bind, Except.bind,
      pure, Except.pure]

theorem Solver.aim_of_nil {A : Operator σ R} {g : Prox σ R} {s s' : State R} {env env' : σ}
    (none : s.history.slots = []) (returned : aim A g s env = .ok s' env') :
    s'.history.slots = [] ∧ s'.d = s'.rbarPrev.scale (-1) := by
  obtain ⟨s₁, s₂, residual, chosen, rfl⟩ := aim_returns returned
  obtain ⟨gradbar, v, p, rbar, env₁, _, _, _, _, rfl⟩ := State.evaluateResidual_returns residual
  cases chosen.symm.trans (State.chooseDirection_of_nil none)
  exact ⟨none, rfl⟩

theorem Move.memoryless {c : Config σ R} {A : Operator σ R} {g : Prox σ R} {b d : Snapshot σ R}
    (none : b.state.history.slots = []) (step : Move c A g b d) :
    d.state.history.slots = [] := by
  by_cases recorded : b.isRecorded = true
  · cases step with
    | aim called =>
        obtain ⟨env, aimed, rfl⟩ := Run.call_returns.mp called
        exact (Solver.aim_of_nil none aimed).1
    | _ => cases recorded
  · rw [step.turn.history_eq (Bool.eq_false_iff.mpr recorded)]
    exact none

end Memoryless

/-! ## Notes and questions -/

namespace Solver

section Notes

variable {R : Type} [Scalar R] (c : Config σ R) (s : State R) (w : World σ R)

theorem reportExhausted_returns (found : Bool) (note : Note R) :
    ∃ w', reportExhausted c found note w = .ok () w' := by
  unfold reportExhausted
  split
  · exact ⟨_, rfl⟩
  · exact ⟨_, rfl⟩

theorem announce_returns (found : Option Bool) : ∃ w', announce c found s w = .ok () w' := by
  cases found with
  | none => exact ⟨_, rfl⟩
  | some found => exact reportExhausted_returns c w found _

theorem report_returns : ∃ w', report c s w = .ok () w' := by
  unfold report
  cases c.verbosity with
  | off => exact ⟨_, rfl⟩
  | periodic =>
      cases c.isDue s.iteration with
      | false => exact ⟨_, rfl⟩
      | true => exact ⟨_, rfl⟩
  | everyIteration => exact ⟨_, rfl⟩

theorem conclude_returns (status : Status) : ∃ w', conclude c status s w = .ok () w' := by
  unfold conclude
  split
  · cases status with
    | converged => exact ⟨_, rfl⟩
    | iterationsSpent => exact ⟨_, rfl⟩
  · exact ⟨_, rfl⟩

end Notes

theorem settle_answers {s : State Exact} (smooth : Scalar.isFinite s.fxbar = true)
    (value : Scalar.isFinite s.value = true) (w : World σ Exact) :
    ∃ s' w', settle c s w = .ok s' w' := by
  obtain ⟨w', reported⟩ := report_returns c s.record.markValid w
  have finite : (Scalar.isFinite s.fxbar && Scalar.isFinite s.value) = true := by
    rw [smooth, value, Bool.and_self]
  simp only [settle, bind_returns, pure_returns, State.certify_returns]
  exact ⟨_, w', _, w, ⟨finite, rfl, rfl⟩, (), w', reported, rfl, rfl⟩

theorem aim_answers {s : State Exact} (total : A.Total) (answers : g.Total A.domain)
    (stays : g.StaysIn A.domain) (sound : s.Sound M g γ)
    (evaluated : StepEvaluated M s.xbar s.axbar s.fxbar) (none : s.history.slots = []) (env : σ) :
    ∃ s' env', aim A g s env = .ok s' env' := by
  obtain ⟨s₁, env', residual⟩ :=
    State.evaluateResidual_answers total answers stays sound evaluated env
  have same : s₁.history = s.history := by
    obtain ⟨_, _, _, _, _, _, _, _, _, rfl⟩ := State.evaluateResidual_returns residual
    rfl
  rw [← same] at none
  simp only [aim, bind_returns, lift_returns, pure_returns]
  exact ⟨_, env', s₁, env', residual, _, env', ⟨State.chooseDirection_of_nil none, rfl⟩, rfl, rfl⟩

/-- A run whose loop ends has a result. -/
theorem finish_returns {left : Nat} {s s' : State Exact} {w w₁ : World σ Exact} {status : Status}
    (looped : loop c A g left s w = .ok (status, s') w₁) :
    ∃ r w', finish c A g left s w = .ok r w' := by
  obtain ⟨w', concluded⟩ := conclude_returns c s' w₁ status
  simp only [finish, bind_returns, pure_returns]
  exact ⟨_, w', _, w₁, looped, (), w', concluded, rfl, rfl⟩

end Solver

/-! ## Every place has a move -/

/-- What a run asks for is there. -/
structure Solver.Served (A : Operator σ Exact) (g : Prox σ Exact) (c : Config σ Exact)
    (n : Nat) : Prop where
  total : A.Total
  answers : g.Total A.domain
  stays : g.StaysIn A.domain
  decides : c.predicate.Decides
  budget : c.searchBudget.toNat = .ok n

/-- The run ends here: no iterations are left, or the predicate halts it. -/
def Snapshot.Ends (c : Config σ Exact) (v : Snapshot σ Exact) : Prop :=
  v.place = .resting ∧
    (v.left = 0 ∨ ∃ env, c.predicate.judge c.tolerance v.state v.world.env = (.decided true, env))

/-- A run that ends has a result. -/
theorem Snapshot.Ends.returns {b : Snapshot σ Exact} (ends : b.Ends c) :
    ∃ r w', b.resume c A g = .ok r w' := by
  obtain ⟨place, left, s, w⟩ := b
  obtain ⟨resting, spent | ⟨env, halted⟩⟩ := ends
  · cases resting
    cases spent
    exact Solver.finish_returns rfl
  · cases resting
    cases left with
    | zero => exact Solver.finish_returns rfl
    | succ left =>
        have looped : Solver.loop c A g (left + 1) s w =
            .ok (.converged, s) { w with env := env } :=
          bind_returns.mpr ⟨true, _, Solver.consult_of_decided halted, rfl⟩
        exact Solver.finish_returns looped

section Moves

variable {left : Nat} {s : State Exact} {w : World σ Exact}

/-- An iteration begins, unless the predicate halts the run. -/
theorem Solver.Served.resting_moves (served : Served A g c n) (sound : s.Sound M g γ) :
    (∃ d, Move c A g ⟨.resting, left, s, w⟩ d) ∨
      (⟨.resting, left, s, w⟩ : Snapshot σ Exact).Ends c := by
  cases left with
  | zero => exact .inr ⟨rfl, .inl rfl⟩
  | succ left =>
      obtain ⟨halt, env, decided⟩ := served.decides c.tolerance s w.env
      cases halt with
      | true => exact .inr ⟨rfl, .inr ⟨env, decided⟩⟩
      | false =>
          have asked := consult_of_decided decided
          obtain ⟨s₁, env₁, evaluated⟩ := State.evaluateStep_answers (s := s.nextIteration) M
            served.total sound.stepped.xbar_fits env
          have called : Run.call (s.nextIteration.evaluateStep A) { w with env := env } =
              .ok s₁ { w with env := env₁ } := Run.call_returns.mpr ⟨env₁, evaluated, rfl⟩
          cases wanted : c.searchesGamma with
          | false => exact .inl ⟨_, .skip asked called wanted⟩
          | true => exact .inl ⟨_, .search asked called wanted served.budget⟩

theorem Solver.Served.searchingGamma_moves (served : Served A g c n) (sound : s.Sound M g γ)
    (halvings : Nat) : ∃ d, Move c A g ⟨.searchingGamma halvings, left, s, w⟩ d := by
  cases met : s.bounded with
  | true => exact ⟨_, .bounded met⟩
  | false =>
      cases halvings with
      | zero => exact ⟨_, .unbounded met⟩
      | succ halvings =>
          obtain ⟨s₁, env, tried⟩ :=
            State.gammaTrial_answers served.total served.answers served.stays sound w.env
          exact ⟨_, .halve met (Run.call_returns.mpr ⟨env, tried, rfl⟩)⟩

theorem Solver.Served.measured_moves (served : Served A g c n) (sound : s.Sound M g γ)
    (evaluated : StepEvaluated M s.xbar s.axbar s.fxbar) (found : Option Bool) :
    ∃ d, Move c A g ⟨.measured found, left, s, w⟩ d := by
  obtain ⟨E, value⟩ := sound.value_real served.answers
  have smooth : Scalar.isFinite s.fxbar = true := by rw [evaluated.value]; rfl
  have finite : Scalar.isFinite s.value = true := by rw [value]; rfl
  obtain ⟨w₁, announced⟩ := announce_returns c s w found
  obtain ⟨s', w', settled⟩ := settle_answers (c := c) smooth finite w₁
  exact ⟨_, .settle announced settled⟩

theorem Solver.Served.aimed_moves (served : Served A g c n) (sound : s.Sound M g γ)
    (fits : s.d.Fits A.domain) : ∃ d, Move c A g ⟨.aimed, left, s, w⟩ d := by
  obtain ⟨s₁, env, evaluated⟩ := State.evaluateDirection_answers M served.total fits w.env
  have squared := Exact.square_real ‖s.r.point A.domain‖
  rw [← sound.stepped.norm] at squared
  have level := State.level_accepts.mpr ⟨_, squared, rfl⟩
  have called := Run.call_returns.mpr ⟨env, evaluated, rfl⟩
  exact ⟨_, .depart level called served.budget⟩

theorem Solver.Served.searchingTau_moves {τ : ℝ} {level : Exact} (served : Served A g c n)
    (sized : Sized γ s.gamma s.sigma)
    (anchored : Anchored M g γ s.xbarPrev s.rbarPrev s.axbar s.gradbar)
    (directed : Directed M s.d s.ld s.lld) (trials : Nat) :
    ∃ d, Move c A g ⟨.searchingTau trials (.real τ) level, left, s, w⟩ d := by
  cases trials with
  | zero => exact ⟨_, .exhaust⟩
  | succ trials =>
      obtain ⟨s₁, env, tried⟩ := State.tauTrial_answers (τ := τ) served.answers served.stays
        sized anchored directed w.env
      have called : Run.call (s.tauTrial g (.real τ)) w = .ok s₁ { w with env := env } :=
        Run.call_returns.mpr ⟨env, tried, rfl⟩
      cases met : Scalar.le s₁.value level with
      | false => exact ⟨_, .reject called met⟩
      | true => exact ⟨_, .accept called met⟩

theorem Solver.Served.moved_moves (served : Served A g c n) (sound : s.Sound M g γ)
    (found : Bool) : ∃ d, Move c A g ⟨.moved found, left, s, w⟩ d := by
  obtain ⟨E, value⟩ := sound.value_real served.answers
  obtain ⟨w₁, reported⟩ := reportExhausted_returns c w found (.tauSearchExhausted s.iteration)
  have finite : (Scalar.isFinite s.fx && s.grad.allFinite && Scalar.isFinite s.value) = true := by
    rw [sound.evaluated.finite, value]
    rfl
  exact ⟨_, .approve reported (approve_returns.mpr ⟨finite, rfl, rfl⟩)⟩

/-- Every place has a move, unless the run ends there. -/
theorem Snapshot.Kept.moves {b : Snapshot σ Exact} (served : Solver.Served A g c n)
    (kept : b.Kept M g) (none : b.state.history.slots = []) :
    (∃ d, Move c A g b d) ∨ b.Ends c := by
  obtain ⟨γ, sound, holds⟩ := kept
  obtain ⟨place, left, s, w⟩ := b
  cases place with
  | resting => exact served.resting_moves sound
  | searchingGamma halvings => exact .inl (served.searchingGamma_moves sound halvings)
  | measured found => exact .inl (served.measured_moves sound holds.1 found)
  | recorded found =>
      obtain ⟨s₁, env, aimed⟩ := Solver.aim_answers served.total served.answers served.stays sound
        holds.1 none w.env
      exact .inl ⟨_, .aim (Run.call_returns.mpr ⟨env, aimed, rfl⟩)⟩
  | aimed => exact .inl (served.aimed_moves sound holds.2.1)
  | searchingTau trials tau level =>
      obtain ⟨anchored, directed, ⟨τ, rfl⟩, _⟩ := holds
      exact .inl (served.searchingTau_moves sound.sized anchored directed trials)
  | moved found => exact .inl (served.moved_moves sound found)

end Moves

/-! ## Every run ends -/

section Rank

variable {R : Type} [Scalar R]

/-- At most so many moves are left of an iteration whose searches have a budget of `n`. -/
def Place.rank (n : Nat) : Place R → Nat
  | .resting => 0
  | .moved _ => 1
  | .searchingTau trials _ _ => trials + 2
  | .aimed => n + 3
  | .recorded _ => n + 4
  | .measured _ => n + 5
  | .searchingGamma halvings => n + 6 + halvings

/-- At most so many moves are left of a run. -/
def Snapshot.rank (n : Nat) (v : Snapshot σ R) : Nat := v.left * (2 * n + 7) + v.place.rank n

theorem Turn.rank_lt {c : Config σ R} {b d : Snapshot σ R}
    (budget : c.searchBudget.toNat = .ok n) (turn : Turn c b d) : d.rank n < b.rank n := by
  cases turn with
  | @search left m _ _ _ _ _ budget' =>
      cases budget.symm.trans budget'
      show left * (2 * n + 7) + (n + 6 + n) < (left + 1) * (2 * n + 7) + 0
      rw [Nat.succ_mul left]
      omega
  | @skip left =>
      show left * (2 * n + 7) + (n + 5) < (left + 1) * (2 * n + 7) + 0
      rw [Nat.succ_mul left]
      omega
  | @bounded left m =>
      show left * (2 * n + 7) + (n + 5) < left * (2 * n + 7) + (n + 6 + m)
      omega
  | @depart left m _ _ _ _ _ _ _ budget' =>
      cases budget.symm.trans budget'
      show left * (2 * n + 7) + (n + 2) < left * (2 * n + 7) + (n + 3)
      omega
  | @accept left m =>
      show left * (2 * n + 7) + 1 < left * (2 * n + 7) + (m + 1 + 2)
      omega
  | @reject left m =>
      show left * (2 * n + 7) + (m + 2) < left * (2 * n + 7) + (m + 1 + 2)
      omega
  | halve | unbounded | settle | aim | exhaust | approve =>
      exact Nat.add_lt_add_left (by simp [Place.rank]) _

end Rank

/-- What a run does from a snapshot on has a result. -/
theorem Snapshot.Kept.returns {b : Snapshot σ Exact} (served : Solver.Served A g c n)
    (kept : b.Kept M g) (none : b.state.history.slots = []) :
    ∃ r w', b.resume c A g = .ok r w' := by
  induction rank : b.rank n using Nat.strong_induction_on generalizing b with
  | _ k ih =>
      subst rank
      rcases kept.moves served none with ⟨d, step⟩ | ends
      · obtain ⟨r, w', returned⟩ := ih _ (step.turn.rank_lt served.budget)
          (step.kept served.stays kept) (step.memoryless none) rfl
        exact ⟨r, w', step.resume_eq.trans returned⟩
      · exact ends.returns

/-- If the predicate never halts the run, there is a record ahead of every iteration that has not
recorded yet or is not the last one. -/
theorem Snapshot.Kept.records {b : Snapshot σ Exact} (served : Solver.Served A g c n)
    (goes : ∀ s env, ∃ env', c.predicate.judge c.tolerance s env = (.decided false, env'))
    (kept : b.Kept M g) (none : b.state.history.slots = [])
    (due : b.place.pending = 1 ∨ 0 < b.left) :
    ∃ vs d, Course c A g b vs d ∧ d.isRecorded = true ∧ ∀ v ∈ vs, v.isRecorded = false := by
  induction rank : b.rank n using Nat.strong_induction_on generalizing b with
  | _ k ih =>
      subst rank
      by_cases recorded : b.isRecorded = true
      · exact ⟨[], b, .stay, recorded, by simp⟩
      · have elsewhere := Bool.eq_false_iff.mpr recorded
        rcases kept.moves served none with ⟨d, step⟩ | ⟨resting, spent | ⟨env, halted⟩⟩
        · have due' : d.place.pending = 1 ∨ 0 < d.left := by
            cases step.turn with
            | search | skip | bounded | halve | unbounded | settle => exact .inl rfl
            | aim => cases elsewhere
            | depart | accept | reject | exhaust | approve => exact due
          obtain ⟨vs, e, course, found, others⟩ := ih _ (step.turn.rank_lt served.budget)
            (step.kept served.stays kept) (step.memoryless none) due' rfl
          refine ⟨[b] ++ vs, e, (Course.single step).trans course, found, ?_⟩
          simpa using ⟨elsewhere, others⟩
        · rw [resting, spent] at due
          rcases due with due | due
          · cases due
          · cases due
        · obtain ⟨env', going⟩ := goes b.state b.world.env
          cases halted.symm.trans going

namespace Solver

/-- A run takes its first step where a first step size is found. -/
theorem begin_of_firstGamma (M : A.Meaning) (served : Served A g c n) {s : State Exact}
    (fits : s.x.Fits A.domain)
    (finds : ∀ (s₁ : State Exact) (w₁ : World σ Exact), Evaluated M s₁.x s₁.ax s₁.fx s₁.grad →
      s₁.x = s.x → ∃ γ s₂ w₂, 0 < γ ∧ firstGamma c A s₁ w₁ = .ok (.real γ, s₂) w₂)
    (w : World σ Exact) : ∃ s' w', begin c A g s w = .ok s' w' := by
  obtain ⟨s₁, env₁, evaluates⟩ := State.evaluate_answers M served.total fits w.env
  have first := State.evaluated_of_returns M evaluates fits
  have same : s₁.x = s.x := by
    obtain ⟨_, _, _, _, rfl⟩ := State.evaluate_evaluated (M := M) evaluates fits
    rfl
  obtain ⟨γ, s₂, w₂, positive, found⟩ := finds s₁.markValid { w with env := env₁ } first same
  have parts : Evaluated M s₂.x s₂.ax s₂.fx s₂.grad := by
    rw [firstGamma_frame found]
    exact first
  obtain ⟨sigma, sized, set⟩ := State.setGamma_answers (s := s₂) positive
  obtain ⟨s₃, env₃, steps⟩ := State.step_answers
    (s := { s₂ with gamma := .real γ, sigma := sigma }) served.answers served.stays sized parts
    w₂.env
  obtain ⟨xbar, gxbar, r, residual, bound, stepped, made⟩ := State.step_stepped
    (s := { s₂ with gamma := .real γ, sigma := sigma }) served.stays sized parts steps
  obtain ⟨E, value⟩ := stepped.value_real served.answers positive parts.x_fits parts.grad_fits
  have finite : Scalar.isFinite s₃.value = true := by
    rw [made]
    change Scalar.isFinite (bound + gxbar) = true
    rw [value]
    rfl
  simp only [begin, bind_returns, Run.lift_refuse, Run.refuse_returns, Run.lift_call,
    Run.call_returns, State.certify_returns]
  exact ⟨_, _, s₁, _, ⟨env₁, evaluates, rfl⟩, _, _, ⟨first.finite, rfl, rfl⟩, _, w₂, found, _, _,
    ⟨set, rfl⟩, s₃, _, ⟨env₃, steps, rfl⟩, finite, rfl, rfl⟩

/-- A run begins where its starting point is accepted and a step size is given. -/
theorem begin_answers (M : A.Meaning) (served : Served A g c n) (positive : 0 < γ)
    (given : c.stepSize = some (.real γ)) {s : State Exact} (fits : s.x.Fits A.domain)
    (w : World σ Exact) : ∃ s' w', begin c A g s w = .ok s' w' := by
  refine begin_of_firstGamma M served fits (fun s₁ w₁ _ _ => ⟨γ, s₁, w₁, positive, ?_⟩) w
  unfold firstGamma
  rw [given]
  rfl

/-- A run starts where its starting point and its number of slots are accepted and its first step
is taken. -/
theorem launch_of_begins {memory : Nat} (slots : c.memory.slots = .ok memory)
    {x0 : Option (Vec Exact)} {x : Vec Exact} (started : startingPoint A x0 = .ok x)
    (begins : ∀ w, ∃ s' w', begin c A g (State.start x memory) w = .ok s' w')
    (w : World σ Exact) : ∃ s w', launch A g x0 c w = .ok s w' := by
  simp only [launch, bind_returns, Run.lift_refuse, Run.refuse_returns]
  by_cases told : c.verbosity ≠ .off
  · obtain ⟨s, w', begun⟩ := begins { w with notes := w.notes.push .opening }
    refine ⟨s, w', x, w, ⟨started, rfl⟩, memory, w, ⟨slots, rfl⟩, ?_⟩
    rw [if_pos told]
    exact bind_returns.mpr ⟨(), _, rfl, begun⟩
  · obtain ⟨s, w', begun⟩ := begins w
    refine ⟨s, w', x, w, ⟨started, rfl⟩, memory, w, ⟨slots, rfl⟩, ?_⟩
    rw [if_neg told]
    exact begun

theorem launch_answers (M : A.Meaning) (served : Served A g c n) (checked : c.Checked)
    {gamma : Exact} (given : c.stepSize = some gamma) {memory : Nat}
    (slots : c.memory.slots = .ok memory) {x0 : Option (Vec Exact)}
    (finite : ∀ v, x0 = some v → v.allFinite = true) {x : Vec Exact}
    (started : startingPoint A x0 = .ok x) (w : World σ Exact) :
    ∃ s w', launch A g x0 c w = .ok s w' := by
  obtain ⟨γ, positive, rfl⟩ := checked.stepSize_positive given
  exact launch_of_begins slots started
    (begin_answers M served positive given (startingPoint_fits finite started)) w

/-- Without slots a run begins without memory. -/
theorem launch_of_nil (slots : c.memory.slots = .ok 0) {x0 : Option (Vec Exact)} {s : State Exact}
    {w w' : World σ Exact} (launched : launch A g x0 c w = .ok s w') : s.history.slots = [] := by
  obtain ⟨x, memory, s₁, w₁, gamma, s₂, w₂, s₃, s₄, _, slots', evaluates, sizes, set, steps, _,
    rfl⟩ := launch_returns launched
  cases slots.symm.trans slots'
  obtain ⟨_, _, _, _, _, _, _, rfl⟩ := State.evaluate_returns evaluates
  obtain rfl := firstGamma_frame sizes
  obtain ⟨_, _, rfl⟩ := State.setGamma_accepts.mp set
  obtain ⟨_, _, _, _, _, _, rfl⟩ := State.step_returns steps
  rfl

/-- A run without memory that is given a step size has a result. -/
theorem returns (M : A.Meaning) (served : Served A g c n) (checked : c.Checked)
    {gamma : Exact} (given : c.stepSize = some gamma) (slots : c.memory.slots = .ok 0)
    {limit : Nat} (iterations : c.maxIterations.toNat = .ok limit) {x0 : Option (Vec Exact)}
    (finite : ∀ v, x0 = some v → v.allFinite = true) {x : Vec Exact}
    (started : startingPoint A x0 = .ok x) (w : World σ Exact) :
    ∃ r w', solve A g x0 c w = .ok r w' := by
  obtain ⟨s, w₁, launched⟩ :=
    launch_answers M served checked given slots finite started w
  have kept := launch_kept M served.stays checked finite launched limit
  obtain ⟨r, w', resumed⟩ := kept.returns served (launch_of_nil slots launched)
  exact ⟨r, w', (solve_eq_resume launched iterations).trans resumed⟩

end Solver

end ForwardBackward
