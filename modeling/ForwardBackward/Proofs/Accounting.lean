/-
# ForwardBackward.Proofs.Accounting -- the counters of a result are the calls of its run

A run counts its calls in its state, and a run under observation has every call in
a log besides.  At every moment of a run under observation the log and the state
agree (`Move.logged`), since every part of the solver logs what it counts: a call
of the operator is a product, a product with the linear part, or one with the
adjoint.  The plain run has the same result (`Solver.solve_observed`), so what its
result tells is what was called.

Main fact: `Solver.calls_accounted`, what the result of any run tells of its
iterations, calls and failures, in terms of the halvings and trials of its course,
and how many pairs its history was offered.  It holds in every arithmetic and for
every operator and proximal step.
-/
import ForwardBackward.Proofs.Endings
import ForwardBackward.Proofs.Mirrors
import ForwardBackward.Proofs.Multiples
import ForwardBackward.Proofs.Tally

namespace ForwardBackward

set_option autoImplicit false

open Snapshot (halvings trials offers)

variable {σ R : Type} [Scalar R]

/-! ## The log -/

namespace Observed

/-- The logged calls of the operator, of its linear part and of its adjoint. -/
def operatorCalls (o : Observed σ R) : Nat := o.calls.countP fun e => e ≠ .prox

/-- The logged proximal steps. -/
def proxCalls (o : Observed σ R) : Nat := o.calls.countP fun e => e = .prox

/-- From one environment to the other, `n` calls of the operator and `m` proximal steps were
logged. -/
structure Spends (n m : Nat) (o o' : Observed σ R) : Prop where
  operatorCalls : o'.operatorCalls = o.operatorCalls + n
  proxCalls : o'.proxCalls = o.proxCalls + m

variable {α : Type} {n m n' m' : Nat} {o o' o'' : Observed σ R}

theorem Spends.trans (first : o.Spends n m o') (rest : o'.Spends n' m' o'') :
    o.Spends (n + n') (m + m') o'' := by
  obtain ⟨operator, prox⟩ := first
  obtain ⟨operator', prox'⟩ := rest
  exact ⟨by omega, by omega⟩

theorem calls_of_log {e : Event} {c : Call σ α} {a : α} (returned : log e c o = .ok a o') :
    o'.calls = o.calls.push e := by
  unfold log lift at returned
  split at returned <;> cases returned
  rfl

theorem spends_of_operator {e : Event} (operator : e ≠ .prox) {c : Call σ α} {a : α}
    (returned : log e c o = .ok a o') : o.Spends 1 0 o' := by
  constructor
  · simp [operatorCalls, calls_of_log returned, operator]
  · simp [proxCalls, calls_of_log returned, operator]

theorem spends_of_prox {c : Call σ α} {a : α} (returned : log .prox c o = .ok a o') :
    o.Spends 0 1 o' := by
  constructor
  · simp [operatorCalls, calls_of_log returned]
  · simp [proxCalls, calls_of_log returned]

end Observed

section Parts

variable {A : Operator σ R} {g : Prox σ R} {c : Config σ R} {o o' : Observed σ R}

namespace Operator

theorem spends_of_apply {x y : Vec R} (returned : A.observed.apply x o = .ok y o') :
    o.Spends 1 0 o' :=
  Observed.spends_of_operator (e := .apply) nofun returned

theorem spends_of_adjoint {x y : Vec R} (returned : A.observed.applyAdjoint y o = .ok x o') :
    o.Spends 1 0 o' :=
  Observed.spends_of_operator (e := .applyAdjoint) nofun returned

theorem spends_of_linear {x y : Vec R} (returned : A.observed.linearPart.apply x o = .ok y o') :
    o.Spends 1 0 o' := by
  unfold linearPart at returned
  split at returned
  · exact spends_of_apply returned
  · refine Observed.spends_of_operator ?_ returned
    split <;> nofun

theorem Probed.spends (probed : A.observed.Probed o o') : o.Spends 2 0 o' := by
  obtain ⟨_, _, _, _, applied, adjoint⟩ := probed
  exact (spends_of_apply applied).trans (spends_of_adjoint adjoint)

end Operator

namespace State

variable {s s' : State R}

/-- The state has counted what is logged. -/
structure Logged (s : State R) (o : Observed σ R) : Prop where
  operatorCalls : o.operatorCalls = s.operatorCalls
  proxCalls : o.proxCalls = s.proxCalls

theorem Logged.spend {n m : Nat} (logged : s.Logged o) (spends : o.Spends n m o')
    (operatorCalls : s'.operatorCalls = s.operatorCalls + n)
    (proxCalls : s'.proxCalls = s.proxCalls + m) : s'.Logged o' :=
  ⟨by rw [spends.operatorCalls, logged.operatorCalls, operatorCalls],
    by rw [spends.proxCalls, logged.proxCalls, proxCalls]⟩

theorem Logged.evaluate (logged : s.Logged o) (returned : s.evaluate A.observed o = .ok s' o') :
    s'.Logged o' := by
  obtain ⟨_, _, _, _, applied, _, adjoint, rfl⟩ := evaluate_returns returned
  exact logged.spend
    ((Operator.spends_of_apply applied).trans (Operator.spends_of_adjoint adjoint)) rfl rfl

theorem Logged.evaluateStep (logged : s.Logged o)
    (returned : s.evaluateStep A.observed o = .ok s' o') : s'.Logged o' := by
  obtain ⟨_, _, applied, _, rfl⟩ := evaluateStep_returns returned
  exact logged.spend (Operator.spends_of_apply applied) rfl rfl

theorem Logged.step (logged : s.Logged o) (returned : s.step g.observed o = .ok s' o') :
    s'.Logged o' := by
  obtain ⟨_, _, _, _, stepped, _, rfl⟩ := step_returns returned
  exact logged.spend (Observed.spends_of_prox stepped) rfl rfl

theorem Logged.gammaTrial (logged : s.Logged o)
    (returned : s.gammaTrial A.observed g.observed o = .ok s' o') : s'.Logged o' := by
  obtain ⟨s₁, o₁, stepped, evaluated⟩ := gammaTrial_returns returned
  have halved : s.shrinkGamma.Logged o := ⟨logged.operatorCalls, logged.proxCalls⟩
  exact (halved.step stepped).evaluateStep evaluated

theorem Logged.tauTrial {tau : R} (logged : s.Logged o)
    (returned : s.tauTrial g.observed tau o = .ok s' o') : s'.Logged o' := by
  obtain ⟨x, ax, square, grad, _, _, _, _, stepped⟩ := tauTrial_returns returned
  refine Logged.step ?_ stepped
  exact ⟨logged.operatorCalls, logged.proxCalls⟩

theorem Logged.evaluateDirection (logged : s.Logged o)
    (returned : s.evaluateDirection A.observed o = .ok s' o') : s'.Logged o' := by
  obtain ⟨_, _, _, image, adjoint, rfl⟩ := evaluateDirection_returns returned
  exact logged.spend
    ((Operator.spends_of_linear image).trans (Operator.spends_of_adjoint adjoint)) rfl rfl

theorem Logged.evaluateResidual (logged : s.Logged o)
    (returned : s.evaluateResidual A.observed g.observed o = .ok s' o') : s'.Logged o' := by
  obtain ⟨_, _, _, _, _, adjoint, _, stepped, _, rfl⟩ := evaluateResidual_returns returned
  exact logged.spend
    ((Operator.spends_of_adjoint adjoint).trans (Observed.spends_of_prox stepped)) rfl rfl

theorem Logged.aim (logged : s.Logged o)
    (returned : Solver.aim A.observed g.observed s o = .ok s' o') : s'.Logged o' := by
  obtain ⟨s₁, s₂, residual, chosen, rfl⟩ := Solver.aim_returns returned
  obtain ⟨_, _, rfl, _⟩ := chooseDirection_accepts chosen
  have after := logged.evaluateResidual residual
  exact ⟨after.operatorCalls, after.proxCalls⟩

end State

/-! ## The log of a run -/

theorem Solver.announce_env {found : Option Bool} {s : State R} {w w' : World σ R}
    (returned : announce c found s w = .ok () w') : w'.env = w.env := by
  cases found with
  | none =>
      cases returned
      rfl
  | some found => exact reportExhausted_env returned

/-- A question to the predicate is no call. -/
theorem Solver.calls_of_consult {s : State R} {w w' : World (Observed σ R) R} {halt : Bool}
    (returned : consult c.observed s w = .ok halt w') : w.env.Spends 0 0 w'.env := by
  obtain ⟨verdict, same⟩ := Prod.mk.inj (consult_returns returned)
  rw [← same]
  exact ⟨rfl, rfl⟩

/-- The state of a snapshot has counted what is logged in its world. -/
def Snapshot.Logged (v : Snapshot (Observed σ R) R) : Prop := v.state.Logged v.world.env

theorem Move.logged {b d : Snapshot (Observed σ R) R}
    (step : Move c.observed A.observed g.observed b d) (logged : b.Logged) : d.Logged := by
  cases step with
  | @search _ _ s _ _ w₁ _ goes called | @skip _ s _ _ w₁ _ goes called =>
      obtain ⟨env, evaluated, rfl⟩ := Run.call_returns.mp called
      have asked : s.nextIteration.Logged w₁.env :=
        State.Logged.spend logged (Solver.calls_of_consult goes) rfl rfl
      exact asked.evaluateStep evaluated
  | bounded => exact logged
  | halve _ called =>
      obtain ⟨env, tried, rfl⟩ := Run.call_returns.mp called
      exact State.Logged.gammaTrial logged tried
  | unbounded | exhaust => exact ⟨logged.operatorCalls, logged.proxCalls⟩
  | settle announced settled =>
      obtain ⟨_, _, rfl⟩ := Solver.settle_returns settled
      have env := (Solver.settle_env settled).trans (Solver.announce_env announced)
      unfold Snapshot.Logged
      rw [env]
      exact ⟨logged.operatorCalls, logged.proxCalls⟩
  | aim called =>
      obtain ⟨env, aimed, rfl⟩ := Run.call_returns.mp called
      exact State.Logged.aim logged aimed
  | depart _ called =>
      obtain ⟨env, evaluated, rfl⟩ := Run.call_returns.mp called
      exact State.Logged.evaluateDirection logged evaluated
  | accept called | reject called =>
      obtain ⟨env, tried, rfl⟩ := Run.call_returns.mp called
      exact State.Logged.tauTrial logged tried
  | approve reported approved =>
      obtain ⟨_, rfl, rfl⟩ := Solver.approve_returns.mp approved
      unfold Snapshot.Logged
      rw [Solver.reportExhausted_env reported]
      exact ⟨logged.operatorCalls, logged.proxCalls⟩

namespace Solver

variable {x0 : Option (Vec R)}

theorem firstGamma_logged {s s' : State R} {w w' : World (Observed σ R) R} {gamma : R}
    (logged : s.Logged w.env)
    (returned : firstGamma c.observed A.observed s w = .ok (gamma, s') w') : s'.Logged w'.env := by
  rcases firstGamma_returns returned with ⟨_, rfl, rfl⟩ | ⟨_, probed, rfl, _⟩
  · exact logged
  · exact logged.spend probed.spends rfl rfl

theorem launch_logged {s : State R} {w : World σ R} {w' : World (Observed σ R) R}
    (launched : launch A.observed g.observed x0 c.observed w.observed = .ok s w') :
    s.Logged w'.env := by
  obtain ⟨x, memory, s₁, w₁, gamma, s₂, w₂, s₃, s₄, _, _, evaluated, sized, set, stepped, _, rfl⟩ :=
    launch_returns launched
  have start : (State.start x memory).Logged w.observed.env := ⟨rfl, rfl⟩
  have first := start.evaluate evaluated
  have valid : s₁.markValid.Logged w₁.env := ⟨first.operatorCalls, first.proxCalls⟩
  have second := firstGamma_logged valid sized
  have third : s₃.Logged w₂.env := by
    obtain ⟨_, _, rfl⟩ := State.setGamma_accepts.mp set
    exact ⟨second.operatorCalls, second.proxCalls⟩
  have last := third.step stepped
  exact ⟨last.operatorCalls, last.proxCalls⟩

/-- What is logged of a whole run is what its result tells. -/
theorem solve_logged {r : Result R} {w : World σ R} {w' : World (Observed σ R) R}
    (returned : solve A.observed g.observed x0 c.observed w.observed = .ok r w') :
    w'.env.operatorCalls = r.operatorCalls ∧ w'.env.proxCalls = r.proxCalls := by
  obtain ⟨vs, b, status, w₁, ⟨s₀, w₀, limit, launched, _, course⟩, _, rfl, ends, told⟩ :=
    ends_of_solve returned
  have logged : b.Logged := course.invariant (P := Snapshot.Logged)
    (fun _ _ before step => step.logged before) (launch_logged launched)
  have last : b.state.Logged w₁.env := by
    rcases ends with ⟨_, rfl⟩ | asked
    · exact logged
    · exact State.Logged.spend logged (calls_of_consult asked) rfl rfl
  rw [conclude_env told]
  exact ⟨last.operatorCalls, last.proxCalls⟩

end Solver

end Parts

/-! ## Accounts -/

namespace Solver

variable {A : Operator σ R} {g : Prox σ R} {c : Config σ R} {x0 : Option (Vec R)}
  {w w' : World σ R} {vs : List (Snapshot σ R)} {b : Snapshot σ R}

/-- What a launch has spent, and the history it begins with. -/
theorem launch_counts {s : State R} (launched : launch A g x0 c w = .ok s w') :
    s.operatorCalls = 2 + (if c.stepSize.isNone then 2 else 0) ∧ s.proxCalls = 1 ∧
      ∃ x memory, c.memory.slots = .ok memory ∧ s.history = History.empty x memory := by
  obtain ⟨x, memory, s₁, w₁, gamma, s₂, w₂, s₃, s₄, _, slots, evaluated, sized, set, stepped, _,
    rfl⟩ := launch_returns launched
  obtain ⟨_, _, _, _, _, _, _, rfl⟩ := State.evaluate_returns evaluated
  obtain rfl := firstGamma_frame sized
  obtain ⟨_, _, rfl⟩ := State.setGamma_accepts.mp set
  obtain ⟨_, _, _, _, _, _, rfl⟩ := State.step_returns stepped
  exact ⟨rfl, rfl, x, memory, slots, rfl⟩

/-- What a result tells of a run with `H` halvings of the step size and `T` trials along
directions. -/
structure Accounts (c : Config σ R) (H T : Nat) (r : Result R) : Prop where
  operatorCalls : r.operatorCalls =
    2 + (if c.stepSize.isNone then 2 else 0) + 4 * r.iterations + H
  proxCalls : r.proxCalls = 1 + r.iterations + H + T
  /-- No step size is halved where no search for one is wanted. -/
  unwanted : c.searchesGamma = false → H = 0
  gammaFailures_le : r.gammaFailures ≤ r.iterations
  tauFailures_le : r.tauFailures ≤ r.iterations
  /-- Every search has a budget of `M`, and one that fails has spent it. -/
  within : ∀ M, c.searchBudget.toNat = .ok M →
    r.iterations ≤ T ∧ T ≤ r.iterations * M ∧ H ≤ r.iterations * M ∧
      M * r.gammaFailures ≤ H ∧ r.iterations + (M - 1) * r.tauFailures ≤ T
  /-- Without a budget that is a count no iteration ends. -/
  idle : (∀ M, c.searchBudget.toNat ≠ .ok M) → r.iterations = 0 ∧ H = 0 ∧ T = 0

theorem first_within {s : State R} (launched : launch A g x0 c w = .ok s w') (limit M : Nat) :
    (Snapshot.first limit s w').Within M 0 0 := by
  obtain ⟨iteration, gammaFailures, tauFailures, _⟩ := launch_starts launched
  refine ⟨?_, ⟨Nat.zero_le _, ?_, ?_⟩, ?_, ?_⟩
  · exact Nat.zero_le _
  · exact Nat.zero_le _
  · show s.iteration + (M - 1) * s.tauFailures + 0 * M ≤ 0 + 0 + 0
    rw [iteration, tauFailures, Nat.mul_zero, Nat.zero_mul]
  · exact gammaFailures.trans_le (Nat.zero_le _)
  · exact tauFailures.trans_le (Nat.zero_le _)

theorem Passes.accounts {o : Settings R} {halt : Option (Predicate σ R)}
    (checked : Config.ofSettings o halt = .ok c) (passes : Passes A g x0 c w vs b)
    (resting : b.place = .resting) (status : Status) :
    Accounts c (halvings vs) (trials vs) (b.state.result status) := by
  obtain ⟨s₀, w₀, limit, launched, _, course⟩ := passes
  obtain ⟨iteration, gammaFailures, _, _⟩ := launch_starts launched
  obtain ⟨operator, prox, _⟩ := launch_counts launched
  have within : ∀ M, c.Allows M → 1 ≤ M → b.Within M (halvings vs) (trials vs) :=
    fun M allows positive => course.within allows positive (first_within launched limit M)
  have some : ∃ M, c.Allows M ∧ 1 ≤ M := by
    by_cases budget : ∃ M, c.searchBudget.toNat = .ok M
    · obtain ⟨M, budget⟩ := budget
      exact ⟨M, fun n same => Except.ok.inj (same.symm.trans budget),
        Config.searchBudget_ge checked budget⟩
    · exact ⟨1, fun n same => absurd ⟨n, same⟩ budget, le_rfl⟩
  obtain ⟨N, allows, positive⟩ := some
  have spent := within N allows positive
  have failures := spent.failures
  rw [resting] at failures
  refine ⟨?_, ?_, ?_, ?_, ?_, ?_, ?_⟩
  · have counts := course.operatorCalls_eq
    rw [resting] at counts
    change _ + 0 + 4 * s₀.iteration = s₀.operatorCalls + 0 + _ + _ at counts
    rw [iteration, operator] at counts
    exact counts
  · have counts := course.proxCalls_eq
    rw [resting] at counts
    change _ + 0 + s₀.iteration = s₀.proxCalls + 0 + _ + _ + _ at counts
    rw [iteration, prox] at counts
    exact counts
  · exact fun unwanted => course.halvings_of_unwanted unwanted rfl
  · exact failures.1
  · exact failures.2
  · intro M budget
    obtain ⟨halvings, ⟨_, most, least⟩, _⟩ := within M
      (fun n same => Except.ok.inj (same.symm.trans budget))
      (Config.searchBudget_ge checked budget)
    rw [resting] at halvings most least
    change b.state.iteration + (M - 1) * b.state.tauFailures + 0 * M ≤ trials vs + 0 + 0 at least
    rw [Nat.zero_mul] at least
    have spends := course.gammaFailures_le rfl gammaFailures budget
    rw [Nat.mul_comm] at spends
    exact ⟨le_trans (Nat.le_add_right _ _) least, most, halvings, spends, least⟩
  · intro none
    have idle : b.state.iteration = 0 := by
      by_contra begun
      obtain ⟨M, budget⟩ := course.budgeted iteration resting begun
      exact none M budget
    obtain ⟨halvings, ⟨_, most, _⟩, _⟩ := spent
    rw [resting, idle, Nat.zero_mul] at halvings most
    exact ⟨idle, Nat.le_zero.mp halvings, Nat.le_zero.mp most⟩

/-- The history at the end of a run is what its offers have made of it. -/
theorem Passes.offers_counted (passes : Passes A g x0 c w vs b) (resting : b.place = .resting) :
    ∃ x m, c.memory.slots = .ok m ∧
      (History.empty x m).offerAll (offers (vs ++ [b])) = .ok b.state.history ∧
      (0 < m → (accepted (offers (vs ++ [b]))).length + b.state.history.rejected =
        b.state.iteration - 1) := by
  obtain ⟨s₀, w₀, limit, launched, _, course⟩ := passes
  obtain ⟨iteration, _, _, _⟩ := launch_starts launched
  obtain ⟨_, _, x, m, slots, history⟩ := launch_counts launched
  have offered : (History.empty x m).offerAll (offers (vs ++ [b])) = .ok b.state.history := by
    rw [← history]
    exact course.offerAll
  refine ⟨x, m, slots, offered, fun ring => ?_⟩
  obtain ⟨_, _, queue⟩ := (History.empty_queues x m).offerAll ring offered
  have length := course.length_offers iteration rfl
  rw [resting] at length
  rw [queue.rejected, Nat.zero_add, accepted_add_skipped]
  exact length

/-- What the result of a run tells: its calls are those that were made, which a run of the same
capabilities under observation logs; they are known from its iterations and from the halvings and
trials on its course; and all iterations but the first have offered the history a pair, which was
accepted or refused. -/
theorem calls_accounted {o : Settings R} {halt : Option (Predicate σ R)} {r : Result R}
    (checked : Config.ofSettings o halt = .ok c) (returned : solve A g x0 c w = .ok r w') :
    (∃ wo, solve A.observed g.observed x0 c.observed w.observed = .ok r wo ∧
      Mirrors.world Observed.inner wo = w' ∧
      wo.env.operatorCalls = r.operatorCalls ∧ wo.env.proxCalls = r.proxCalls) ∧
    ∃ vs b status, Passes A g x0 c w vs b ∧ b.place = .resting ∧ r = b.state.result status ∧
      Accounts c (halvings vs) (trials vs) r ∧
      ∃ x m, c.memory.slots = .ok m ∧
        (History.empty x m).offerAll (offers (vs ++ [b])) = .ok b.state.history ∧
        (0 < m → (accepted (offers (vs ++ [b]))).length + b.state.history.rejected =
          r.iterations - 1) := by
  constructor
  · obtain ⟨wo, observed, same⟩ := (solve_observed A g x0 c).returns (w := w.observed) returned
    exact ⟨wo, observed, same, solve_logged observed⟩
  · obtain ⟨vs, b, status, passes, resting, rfl⟩ := passes_of_solve returned
    exact ⟨vs, b, status, passes, resting, rfl, passes.accounts checked resting status,
      passes.offers_counted resting⟩

/-- Nothing ends the run of the plain problem before its two iterations are done. -/
theorem plain_iterations {γ : ℝ} {r : Result Exact} {w' : World Unit Exact}
    (returned : solve Plain.operator Plain.prox (some Plain.start) (Plain.config γ) Plain.world =
      .ok r w') : r.iterations = 2 :=
  (iterations_of_patient rfl (fun _ _ => rfl) returned).2

/-- Two iterations that begin with a step size that is too large. -/
theorem plain_calls_accounted :
    ∃ r w' wo H T, solve Plain.operator Plain.prox (some Plain.start) (Plain.config 4)
        Plain.world = .ok r w' ∧
      solve Plain.operator.observed Plain.prox.observed (some Plain.start)
        (Plain.config 4).observed Plain.world.observed = .ok r wo ∧
      wo.env.operatorCalls = 10 + H ∧ wo.env.proxCalls = 3 + H + T ∧
      2 ≤ T ∧ T ≤ 64 ∧ H ≤ 64 := by
  obtain ⟨r, w', returned⟩ := Plain.returns four_pos
  obtain ⟨o, halt, checked⟩ := Plain.config_checked four_pos
  obtain ⟨⟨wo, observed, _, operator, prox⟩, vs, b, status, _, _, _, accounts, _⟩ :=
    calls_accounted checked returned
  have iterations := plain_iterations returned
  obtain ⟨least, most, halvings, _⟩ := accounts.within 32 rfl
  rw [iterations] at least most halvings
  refine ⟨r, w', wo, _, _, returned, observed, ?_, ?_, least, most, halvings⟩
  · rw [operator, accounts.operatorCalls, iterations]
    rfl
  · rw [prox, accounts.proxCalls, iterations]

end Solver

end ForwardBackward
