/-
# ForwardBackward.Proofs.Mirrors -- a run in a larger environment

An environment may hold more than a capability keeps there: a counter, or a log of
the calls.  `π` leads from such an environment back to the one that matters.  A
computation in the larger environment *mirrors* one in the smaller if it has the
same outcome, a refusal included, and leaves behind an environment that `π` leads
back to the one left behind there (`Mirrors`).

Mirrors of computations in steps are made of mirrors of the steps
(`Mirrors.bind`), so a run mirrors the run of the capabilities that its own
capabilities mirror (`Solver.solve_mirrors`).  Capabilities under observation
mirror the plain ones: observation changes no result (`Solver.solve_observed`).
-/
import ForwardBackward.Observation
import ForwardBackward.Proofs.Computations
import ForwardBackward.Solver

namespace ForwardBackward

set_option autoImplicit false

/-! ## Computations -/

/-- An outcome, seen from the smaller environment. -/
def outcomeUnder {ε α σ τ : Type} (π : τ → σ) : EStateM.Result ε τ α → EStateM.Result ε σ α
  | .ok a w => .ok a (π w)
  | .error e w => .error e (π w)

/-- The computation `m'` does in the larger environment what `m` does in the smaller. -/
def Mirrors {ε α σ τ : Type} (π : τ → σ) (m : EStateM ε σ α) (m' : EStateM ε τ α) : Prop :=
  ∀ w, outcomeUnder π (m' w) = m (π w)

namespace Mirrors

section Steps

variable {ε α β σ τ : Type} {π : τ → σ}

protected theorem pure (a : α) :
    Mirrors π (pure a : EStateM ε σ α) (pure a) := fun _ => rfl

protected theorem throw (e : ε) :
    Mirrors π (throw e : EStateM ε σ α) (throw e) := fun _ => rfl

protected theorem bind {m : EStateM ε σ α} {m' : EStateM ε τ α} {f : α → EStateM ε σ β}
    {f' : α → EStateM ε τ β} (first : Mirrors π m m') (rest : ∀ a, Mirrors π (f a) (f' a)) :
    Mirrors π (m >>= f) (m' >>= f') := by
  intro w
  change outcomeUnder π (EStateM.bind m' f' w) = EStateM.bind m f (π w)
  unfold EStateM.bind
  rw [← first w]
  cases m' w with
  | ok a w₁ => exact rest a w₁
  | error e w₁ => rfl

protected theorem ite {p : Prop} [Decidable p] {m n : EStateM ε σ α} {m' n' : EStateM ε τ α}
    (yes : p → Mirrors π m m') (no : ¬p → Mirrors π n n') :
    Mirrors π (if p then m else n) (if p then m' else n') := by
  by_cases holds : p
  · rw [if_pos holds, if_pos holds]
    exact yes holds
  · rw [if_neg holds, if_neg holds]
    exact no holds

/-- What returns in the smaller environment returns the same in the larger. -/
theorem returns {m : EStateM ε σ α} {m' : EStateM ε τ α} (mirrors : Mirrors π m m') {a : α}
    {w : τ} {w₁ : σ} (returned : m (π w) = .ok a w₁) : ∃ w', m' w = .ok a w' ∧ π w' = w₁ := by
  have same := mirrors w
  rw [returned] at same
  cases outcome : m' w with
  | ok b w' =>
      rw [outcome] at same
      cases same
      exact ⟨w', rfl, rfl⟩
  | error e w' =>
      rw [outcome] at same
      cases same

end Steps

variable {σ τ R α : Type} {π : τ → σ}

theorem lift (x : Except Fault α) :
    Mirrors π (liftM x : Call σ α) (liftM x : Call τ α) := by
  cases x with
  | ok a => exact .pure a
  | error e => exact .throw e

/-- The world with the smaller environment. -/
def world (π : τ → σ) (w : World τ R) : World σ R := ⟨π w.env, w.notes⟩

theorem call {c : Call σ α} {c' : Call τ α} (mirrors : Mirrors π c c') :
    Mirrors (world π) (Run.call c : Run σ R α) (Run.call c') := by
  intro w
  have same : outcomeUnder π (c' w.env) = c (world π w).env := mirrors w.env
  unfold Run.call
  rw [← same]
  cases c' w.env with
  | ok a env => rfl
  | error e env => rfl

theorem refuse (x : Except Fault α) :
    Mirrors (world π) (Run.refuse x : Run σ R α) (Run.refuse x) := by
  cases x with
  | ok a => exact .pure a
  | error e => exact .throw (Failure.fault e)

theorem note (n : Note R) : Mirrors (world π) (Run.note n : Run σ R Unit) (Run.note n) :=
  fun _ => rfl

end Mirrors

/-! ## Capabilities -/

section Capabilities

variable {σ τ R : Type} [Scalar R] (π : τ → σ)

/-- An operator of the same spaces whose answers mirror those of another. -/
structure Operator.Mirrors (A : Operator σ R) (A' : Operator τ R) : Prop where
  isLinear : A'.isLinear = A.isLinear
  domain : A'.domain = A.domain
  apply (x : Vec R) : ForwardBackward.Mirrors π (A.apply x) (A'.apply x)
  applyLinear (x : Vec R) : ForwardBackward.Mirrors π (A.applyLinear x) (A'.applyLinear x)
  applyAdjoint (y : Vec R) : ForwardBackward.Mirrors π (A.applyAdjoint y) (A'.applyAdjoint y)

/-- A proximal step whose answers mirror those of another. -/
def Prox.Mirrors (g : Prox σ R) (g' : Prox τ R) : Prop :=
  ∀ v gamma, ForwardBackward.Mirrors π (g.prox v gamma) (g'.prox v gamma)

/-- A predicate of the same replies. -/
def Predicate.Mirrors (p : Predicate σ R) (p' : Predicate τ R) : Prop :=
  ∀ tol s env, ((p' tol s env).1, π (p' tol s env).2) = p tol s (π env)

/-- The same replies are the same verdicts. -/
theorem Predicate.Mirrors.judge {p : Predicate σ R} {p' : Predicate τ R} (same : p.Mirrors π p')
    (tol : R) (s : State R) (env : τ) :
    ((p'.judge tol s env).1, π (p'.judge tol s env).2) = p.judge tol s (π env) :=
  congrArg (fun told : Reply R × σ => (told.1.verdict, told.2)) (same tol s env)

/-- The options with another predicate, perhaps in another environment. -/
abbrev Config.asking (c : Config σ R) (p : Predicate τ R) : Config τ R := { c with halt := some p }

variable {π} {A : Operator σ R} {A' : Operator τ R}

theorem Operator.Mirrors.linearPart (same : A.Mirrors π A') (x : Vec R) :
    ForwardBackward.Mirrors π (A.linearPart.apply x) (A'.linearPart.apply x) := by
  unfold Operator.linearPart
  rw [same.isLinear]
  cases A.isLinear with
  | true => exact same.apply x
  | false => exact same.applyLinear x

end Capabilities

/-! ## Parts of a run -/

section Parts

variable {σ τ R : Type} [Scalar R] {π : τ → σ} {A : Operator σ R} {A' : Operator τ R}
  {g : Prox σ R} {g' : Prox τ R}

namespace State

theorem callOperator_mirrors {f : Vec R → Call σ (Vec R)} {f' : Vec R → Call τ (Vec R)} {v : Vec R}
    (same : Mirrors π (f v) (f' v)) (s : State R) :
    Mirrors π (s.callOperator f v) (s.callOperator f' v) :=
  .bind same fun _ => .pure _

theorem callProx_mirrors (same : g.Mirrors π g') (s : State R) (x grad : Vec R) :
    Mirrors π (s.callProx g x grad) (s.callProx g' x grad) :=
  .bind (.bind (.lift _) fun v => same v s.gamma) fun _ => .pure _

theorem evaluate_mirrors (same : A.Mirrors π A') (s : State R) :
    Mirrors π (s.evaluate A) (s.evaluate A') :=
  .bind (callOperator_mirrors (same.apply _) s) fun ⟨ax, s⟩ =>
    .bind (.lift _) fun _ =>
    .bind (callOperator_mirrors (same.applyAdjoint ax) s) fun _ => .pure _

theorem evaluateStep_mirrors (same : A.Mirrors π A') (s : State R) :
    Mirrors π (s.evaluateStep A) (s.evaluateStep A') :=
  .bind (callOperator_mirrors (same.apply _) s) fun _ => .bind (.lift _) fun _ => .pure _

theorem step_mirrors (same : g.Mirrors π g') (s : State R) :
    Mirrors π (s.step g) (s.step g') :=
  .bind (callProx_mirrors same s _ _) fun _ => .bind (.lift _) fun _ => .pure _

theorem estimateLipschitz_mirrors (same : A.Mirrors π A') (s : State R) :
    Mirrors π (s.estimateLipschitz A) (s.estimateLipschitz A') :=
  .bind (.lift _) fun _ =>
  .bind (callOperator_mirrors (same.apply _) s) fun ⟨ax, s⟩ =>
  .bind (callOperator_mirrors (same.applyAdjoint ax) s) fun _ =>
  .bind (.lift _) fun _ => .bind (.lift _) fun _ => .bind (.lift _) fun _ =>
  .bind (.lift _) fun _ => .pure _

theorem estimateGamma_mirrors (same : A.Mirrors π A') (s : State R) (verbosity : Verbosity) :
    Mirrors (Mirrors.world π) (s.estimateGamma A verbosity) (s.estimateGamma A' verbosity) :=
  .bind (.call (estimateLipschitz_mirrors same s)) fun _ =>
  .bind (.refuse _) fun _ =>
  .ite (fun _ => .pure _) fun _ =>
  .ite (fun _ => .bind (.note _) fun _ => .pure _) fun _ => .pure _

theorem gammaTrial_mirrors (hA : A.Mirrors π A') (hg : g.Mirrors π g') (s : State R) :
    Mirrors π (s.gammaTrial A g) (s.gammaTrial A' g') :=
  .bind (step_mirrors hg _) fun s => evaluateStep_mirrors hA s

theorem gammaTrials_mirrors (hA : A.Mirrors π A') (hg : g.Mirrors π g') (budget : Nat)
    (s : State R) : Mirrors π (gammaTrials A g budget s) (gammaTrials A' g' budget s) := by
  induction budget generalizing s with
  | zero => exact .ite (fun _ => .pure _) fun _ => .pure _
  | succ budget ih =>
      exact .ite (fun _ => .pure _) fun _ => .bind (gammaTrial_mirrors hA hg s) fun s => ih s

theorem tauTrial_mirrors (same : g.Mirrors π g') (s : State R) (tau : R) :
    Mirrors π (s.tauTrial g tau) (s.tauTrial g' tau) :=
  .bind (.lift _) fun _ => .bind (.lift _) fun _ => .bind (.lift _) fun _ =>
  .bind (.lift _) fun _ => step_mirrors same _

theorem tauTrials_mirrors (same : g.Mirrors π g') (level : R) (budget : Nat) (tau : R)
    (s : State R) :
    Mirrors π (tauTrials g level budget tau s) (tauTrials g' level budget tau s) := by
  induction budget generalizing s tau with
  | zero => exact .pure _
  | succ budget ih =>
      exact .bind (tauTrial_mirrors same s tau) fun s =>
        .ite (fun _ => .pure _) fun _ => ih _ s

theorem evaluateDirection_mirrors (same : A.Mirrors π A') (s : State R) :
    Mirrors π (s.evaluateDirection A) (s.evaluateDirection A') :=
  .bind (callOperator_mirrors (same.linearPart _) s) fun ⟨ld, s⟩ =>
  .bind (callOperator_mirrors (same.applyAdjoint ld) s) fun _ => .pure _

theorem evaluateResidual_mirrors (hA : A.Mirrors π A') (hg : g.Mirrors π g') (s : State R) :
    Mirrors π (s.evaluateResidual A g) (s.evaluateResidual A' g') :=
  .bind (callOperator_mirrors (hA.applyAdjoint _) s) fun ⟨gradbar, s⟩ =>
  .bind (callProx_mirrors hg s s.xbar gradbar) fun _ => .bind (.lift _) fun _ => .pure _

theorem certify_mirrors (s : State R) (what : Monitored) (finite : Bool) :
    Mirrors (Mirrors.world π) (s.certify what finite : Run σ R (State R))
      (s.certify what finite) :=
  .ite (fun _ => .pure _) fun _ => .throw _

end State

namespace Solver

variable {c : Config σ R} {p' : Predicate τ R}

theorem report_mirrors (c : Config σ R) (p' : Predicate τ R) (s : State R) :
    Mirrors (Mirrors.world π) (report c s) (report (c.asking p') s) := by
  unfold report
  cases c.verbosity with
  | off => exact .pure _
  | periodic => exact .ite (fun _ => .note _) fun _ => .pure _
  | everyIteration => exact .note _

theorem reportExhausted_mirrors (c : Config σ R) (p' : Predicate τ R) (found : Bool) (n : Note R) :
    Mirrors (Mirrors.world π) (reportExhausted c found n) (reportExhausted (c.asking p') found n) :=
  .ite (fun _ => .note _) fun _ => .pure _

theorem consult_mirrors (asked : c.predicate.Mirrors π p') (s : State R) :
    Mirrors (Mirrors.world π) (consult c s) (consult (c.asking p') s) := by
  intro w
  have same := asked.judge π c.tolerance s w.env
  cases told : p'.judge c.tolerance s w.env with
  | mk verdict env =>
      rw [told] at same
      have plain : c.predicate.judge c.tolerance s (Mirrors.world π w).env = (verdict, π env) := same.symm
      have large : (c.asking p').predicate.judge c.tolerance s w.env = (verdict, env) := told
      unfold consult
      rw [bind_of_returns (show (get : Run σ R (World σ R)) _ = .ok _ _ from rfl),
        bind_of_returns (show (get : Run τ R (World τ R)) _ = .ok _ _ from rfl), plain, large]
      cases verdict with
      | decided halt => rfl
      | notTruth typeName => rfl
      | raised e => rfl

theorem searchGamma_mirrors (p' : Predicate τ R) (hA : A.Mirrors π A') (hg : g.Mirrors π g')
    (s : State R) :
    Mirrors (Mirrors.world π) (searchGamma c A g s) (searchGamma (c.asking p') A' g' s) :=
  .ite
    (fun _ => .bind (.call (.bind (.lift _) fun n => State.gammaTrials_mirrors hA hg n s))
      fun _ => .bind (reportExhausted_mirrors c p' _ _) fun _ => .pure _)
    fun _ => .pure _

theorem searchTau_mirrors (p' : Predicate τ R) (hA : A.Mirrors π A') (hg : g.Mirrors π g')
    (s : State R) :
    Mirrors (Mirrors.world π) (searchTau c A g s) (searchTau (c.asking p') A' g' s) :=
  .bind (.refuse _) fun level =>
  .bind (.call (.bind (State.evaluateDirection_mirrors hA s) fun s =>
    .bind (.lift _) fun n => State.tauTrials_mirrors hg level n 1 s)) fun _ =>
  .bind (reportExhausted_mirrors c p' _ _) fun _ => .pure _

theorem settle_mirrors (c : Config σ R) (p' : Predicate τ R) (s : State R) :
    Mirrors (Mirrors.world π) (settle c s) (settle (c.asking p') s) :=
  .bind (State.certify_mirrors _ _ _) fun s => .bind (report_mirrors c p' s) fun _ => .pure _

theorem aim_mirrors (hA : A.Mirrors π A') (hg : g.Mirrors π g') (s : State R) :
    Mirrors π (aim A g s) (aim A' g' s) :=
  .bind (State.evaluateResidual_mirrors hA hg s) fun _ => .bind (.lift _) fun _ => .pure _

theorem iterate_mirrors (p' : Predicate τ R) (hA : A.Mirrors π A') (hg : g.Mirrors π g')
    (s : State R) :
    Mirrors (Mirrors.world π) (iterate c A g s) (iterate (c.asking p') A' g' s) :=
  .bind (.call (State.evaluateStep_mirrors hA _)) fun s =>
  .bind (searchGamma_mirrors p' hA hg s) fun s =>
  .bind (settle_mirrors c p' s) fun s =>
  .bind (.call (aim_mirrors hA hg s)) fun s =>
  .bind (searchTau_mirrors p' hA hg s) fun s => State.certify_mirrors s _ _

theorem loop_mirrors (asked : c.predicate.Mirrors π p') (hA : A.Mirrors π A')
    (hg : g.Mirrors π g') (budget : Nat) (s : State R) :
    Mirrors (Mirrors.world π) (loop c A g budget s) (loop (c.asking p') A' g' budget s) := by
  induction budget generalizing s with
  | zero => exact .pure _
  | succ budget ih =>
      exact .bind (consult_mirrors asked s) fun halt =>
        .ite (fun _ => .pure _) fun _ => .bind (iterate_mirrors p' hA hg s) fun s => ih s

theorem firstGamma_mirrors (p' : Predicate τ R) (same : A.Mirrors π A') (s : State R) :
    Mirrors (Mirrors.world π) (firstGamma c A s) (firstGamma (c.asking p') A' s) := by
  unfold firstGamma
  cases c.stepSize with
  | none => exact State.estimateGamma_mirrors same s c.verbosity
  | some gamma => exact .pure _

theorem begin_mirrors (p' : Predicate τ R) (hA : A.Mirrors π A') (hg : g.Mirrors π g')
    (s : State R) :
    Mirrors (Mirrors.world π) (begin c A g s) (begin (c.asking p') A' g' s) :=
  .bind (.call (State.evaluate_mirrors hA s)) fun s =>
  .bind (State.certify_mirrors s _ _) fun s =>
  .bind (firstGamma_mirrors p' hA s) fun _ =>
  .bind (.refuse _) fun s =>
  .bind (.call (State.step_mirrors hg s)) fun _ => State.certify_mirrors _ _ _

theorem conclude_mirrors (c : Config σ R) (p' : Predicate τ R) (status : Status) (s : State R) :
    Mirrors (Mirrors.world π) (conclude c status s) (conclude (c.asking p') status s) := by
  refine .ite (fun _ => .bind (.note _) fun _ => ?_) fun _ => .pure _
  cases status with
  | converged => exact .note _
  | iterationsSpent => exact .bind (.note _) fun _ => .note _

theorem launch_mirrors (p' : Predicate τ R) (hA : A.Mirrors π A') (hg : g.Mirrors π g')
    (x0 : Option (Vec R)) :
    Mirrors (Mirrors.world π) (launch A g x0 c) (launch A' g' x0 (c.asking p')) := by
  have start : startingPoint A' x0 = startingPoint A x0 := by
    unfold startingPoint
    rw [hA.domain]
  unfold launch
  rw [start]
  exact .bind (.refuse _) fun x => .bind (.refuse _) fun _ =>
    .ite (fun _ => .bind (.note _) fun _ => begin_mirrors p' hA hg _)
      fun _ => begin_mirrors p' hA hg _

/-- A run of capabilities that mirror others mirrors the run of those. -/
theorem solve_mirrors (asked : c.predicate.Mirrors π p') (hA : A.Mirrors π A')
    (hg : g.Mirrors π g') (x0 : Option (Vec R)) :
    Mirrors (Mirrors.world π) (solve A g x0 c) (solve A' g' x0 (c.asking p')) :=
  .bind (launch_mirrors p' hA hg x0) fun s =>
  .bind (.refuse _) fun limit =>
  .bind (loop_mirrors asked hA hg limit s) fun _ =>
  .bind (conclude_mirrors c p' _ _) fun _ => .pure _

end Solver

end Parts

/-! ## Observation -/

section Observation

variable {σ R α : Type} [Scalar R]

theorem Observed.lift_mirrors (c : Call σ α) :
    Mirrors Observed.inner c (Observed.lift c : Call (Observed σ R) α) := by
  intro o
  unfold Observed.lift
  cases c o.inner with
  | ok a env => rfl
  | error e env => rfl

theorem Observed.log_mirrors (e : Event) (c : Call σ α) :
    Mirrors Observed.inner c (Observed.log e c : Call (Observed σ R) α) :=
  fun o => lift_mirrors c { o with calls := o.calls.push e }

theorem Operator.observed_mirrors (A : Operator σ R) : A.Mirrors Observed.inner A.observed where
  isLinear := rfl
  domain := rfl
  apply _ := Observed.log_mirrors _ _
  applyLinear _ := Observed.log_mirrors _ _
  applyAdjoint _ := Observed.log_mirrors _ _

theorem Prox.observed_mirrors (g : Prox σ R) : g.Mirrors Observed.inner g.observed :=
  fun _ _ => Observed.log_mirrors _ _

theorem Predicate.observed_mirrors (p : Predicate σ R) :
    p.Mirrors Observed.inner p.observed := fun _ _ _ => rfl

/-- The options with their predicate under observation. -/
def Config.observed (c : Config σ R) : Config (Observed σ R) R := c.asking c.predicate.observed

/-- The world before a run under observation. -/
def World.observed (w : World σ R) : World (Observed σ R) R := ⟨.start w.env, w.notes⟩

/-- A run under observation has the outcome of the plain run, and leaves the world of it behind. -/
theorem Solver.solve_observed (A : Operator σ R) (g : Prox σ R) (x0 : Option (Vec R))
    (c : Config σ R) :
    Mirrors (Mirrors.world Observed.inner) (solve A g x0 c)
      (solve A.observed g.observed x0 c.observed) :=
  solve_mirrors c.predicate.observed_mirrors A.observed_mirrors g.observed_mirrors x0

end Observation

end ForwardBackward
