/-
# ForwardBackward.Solver -- forward-backward steps with quasi-Newton directions

`solve` minimises `½ ‖A x‖² + g(x)`, the operator `A` linear or affine, `g` known
by its proximal step.  After the first forward-backward step, one iteration

1. computes `f(xbar)` and searches for a step size that bounds it,
2. records the envelope at `x` and the cost at `xbar`, and reports,
3. takes a forward-backward step from `xbar`, whose residual is `rbar`,
4. offers the change of `(xbar, rbar)` to the history and asks it for a direction,
5. searches along the direction from `xbar` for a point whose envelope is below
   the recorded one by `sigma ‖r‖²`.

The predicate is asked before each iteration and not after the last.  At three
places the values a run depends on are checked: one that is not finite ends the
run, and otherwise the step size and the residual norm of the moment are kept as
the last valid ones (`State.certify`).
-/
import ForwardBackward.StepSize

namespace ForwardBackward

set_option autoImplicit false

/-- How a run that has a result ended. -/
inductive Status where
  | converged
  | iterationsSpent
  deriving DecidableEq, Repr

def Status.text : Status → String
  | converged => "converged"
  | iterationsSpent => "max_iter"

/-- The outcome of a run. -/
structure Result (R : Type) [Scalar R] where
  /-- The final forward-backward point. -/
  x : Vec R
  iterations : Nat
  residual : R
  /-- The last cost `f(xbar) + g(xbar)`; undefined if no iteration ran. -/
  cost : R
  gamma : R
  operatorCalls : Nat
  proxCalls : Nat
  gammaFailures : Nat
  tauFailures : Nat
  status : Status

namespace State

variable {σ R : Type} [Scalar R]

/-- Ends the run if the monitored values are not finite; keeps the valid ones otherwise. -/
def certify (s : State R) (what : Monitored) (finite : Bool) : Run σ R (State R) :=
  if finite then pure s.markValid
  else throw (.nonFinite what ⟨s.iteration, s.validGamma, s.validResidual⟩)

/-- The state when iteration `s.iteration + 1` begins. -/
def nextIteration (s : State R) : State R :=
  { s with iteration := s.iteration + 1, recordedPrev := s.recorded }

/-- Records the envelope and the cost, and in the first iteration the residual norm. -/
def record (s : State R) : State R :=
  { s with
    firstResidual := if s.iteration = 1 then s.residual else s.firstResidual
    recorded := s.value
    cost := s.fxbar + s.gxbar }

/-- The gradient at `xbar` and the residual of the forward-backward step from there. -/
def evaluateResidual (s : State R) (A : Operator σ R) (g : Prox σ R) : Call σ (State R) := do
  let (gradbar, s) ← s.callOperator A.applyAdjoint s.axbar
  let ((xbarbar, _), s) ← s.callProx g s.xbar gradbar
  let rbar ← s.xbar.sub xbarbar
  pure { s with gradbar := gradbar, rbar := rbar }

/-- Offers the change of `xbar` and `rbar` to the history. -/
def learn (s : State R) : Except Fault (State R) := do
  pure { s with history := ← s.history.update s.xbar s.xbarPrev s.rbar s.rbarPrev }

/-- The direction of the first iteration is minus the residual, later the history knows. -/
def chooseDirection (s : State R) : Except Fault (State R) :=
  if s.iteration = 1 then pure { s with d := s.rbar.scale (-1) }
  else do
    let s ← s.learn
    pure { s with d := ← s.history.direction s.rbar }

/-- Keeps `xbar` and `rbar` for the next pair. -/
def keep (s : State R) : State R := { s with rbarPrev := s.rbar, xbarPrev := s.xbar }

/-- What the envelope at the next iterate may be at most. -/
def level (s : State R) : Except Fault R := do
  pure (s.recorded - s.sigma * (← Scalar.square s.residual))

/-- The status line of the moment. -/
def statusRow (s : State R) : StatusRow R :=
  ⟨s.iteration, s.gamma, s.residual, s.tau, s.cost, 0⟩

def result (s : State R) (status : Status) : Result R where
  x := s.xbar
  iterations := s.iteration
  residual := s.residual
  cost := s.cost
  gamma := s.gamma
  operatorCalls := s.operatorCalls
  proxCalls := s.proxCalls
  gammaFailures := s.gammaFailures
  tauFailures := s.tauFailures
  status := status

end State

namespace Config

variable {σ R : Type} [Scalar R]

/-- Whether the iteration is one that `Verbosity.periodic` reports. -/
def isDue (c : Config σ R) (iteration : Nat) : Bool :=
  match c.reportPeriod with
  | .whole n => iteration % n = 0
  | .flag b => iteration % b.toNat = 0
  | .fraction x => Scalar.divides x (Scalar.ofInt iteration)

end Config

namespace Solver

variable {σ R : Type} [Scalar R]

/-- Writes the status line of an iteration, if it is wanted. -/
def report (c : Config σ R) (s : State R) : Run σ R Unit :=
  match c.verbosity with
  | .off => pure ()
  | .periodic => if c.isDue s.iteration then Run.note (.status s.statusRow) else pure ()
  | .everyIteration => Run.note (.status s.statusRow)

/-- A note about a search that ran out of trials, if every iteration is reported. -/
def reportExhausted (c : Config σ R) (found : Bool) (n : Note R) : Run σ R Unit :=
  if !found && c.verbosity = .everyIteration then Run.note n else pure ()

/-- Asks the halting predicate. -/
def consult (c : Config σ R) (s : State R) : Run σ R Bool := do
  let w ← get
  let (verdict, env) := c.predicate.judge c.tolerance s w.env
  set { w with env := env }
  let now : Diagnostics R := ⟨s.iteration, s.gamma, s.residual⟩
  match verdict with
  | .decided halt => pure halt
  | .notTruth typeName => throw (.halting (.notTruth typeName) now)
  | .raised e => throw (.halting (.raised e) now)

/-- The search for a step size, if the options want one. -/
def searchGamma (c : Config σ R) (A : Operator σ R) (g : Prox σ R) (s : State R) :
    Run σ R (State R) := do
  if c.searchesGamma then
    let (found, s) ← s.gammaSearch A g c.searchBudget
    reportExhausted c found (.gammaSearchExhausted s.iteration)
    return s
  pure s

/-- The search along the direction. -/
def searchTau (c : Config σ R) (A : Operator σ R) (g : Prox σ R) (s : State R) :
    Run σ R (State R) := do
  let (found, s) ← s.tauSearch A g (← s.level) c.searchBudget
  reportExhausted c found (.tauSearchExhausted s.iteration)
  pure s

/-- The envelope and the cost recorded and checked, and the status line. -/
def settle (c : Config σ R) (s : State R) : Run σ R (State R) := do
  let s := s.record
  let s ← s.certify .envelope (Scalar.isFinite s.fxbar && Scalar.isFinite s.recorded)
  report c s
  pure s

/-- The residual of the step from `xbar`, and the direction. -/
def aim (A : Operator σ R) (g : Prox σ R) (s : State R) : Call σ (State R) := do
  let s ← s.evaluateResidual A g
  let s ← s.chooseDirection
  pure s.keep

/-- The check at the end of an iteration. -/
def approve (s : State R) : Run σ R (State R) :=
  s.certify .smoothTermOrEnvelope
    (Scalar.isFinite s.fx && s.grad.allFinite && Scalar.isFinite s.value)

/-- One iteration. -/
def iterate (c : Config σ R) (A : Operator σ R) (g : Prox σ R) (s : State R) :
    Run σ R (State R) := do
  let s ← s.nextIteration.evaluateStep A
  let s ← searchGamma c A g s
  let s ← settle c s
  let s ← aim A g s
  let s ← searchTau c A g s
  approve s

/-- At most `budget` iterations, the predicate asked before each. -/
def loop (c : Config σ R) (A : Operator σ R) (g : Prox σ R) :
    Nat → State R → Run σ R (Status × State R)
  | 0, s => pure (.iterationsSpent, s)
  | budget + 1, s => do
      if ← consult c s then return (.converged, s)
      loop c A g budget (← iterate c A g s)

/-- The step size of the options, or an estimated one. -/
def firstGamma (c : Config σ R) (A : Operator σ R) (s : State R) : Run σ R (R × State R) :=
  match c.stepSize with
  | some gamma => pure (gamma, s)
  | none => s.estimateGamma A c.verbosity

/-- From the starting point to the first forward-backward step. -/
def begin (c : Config σ R) (A : Operator σ R) (g : Prox σ R) (s : State R) :
    Run σ R (State R) := do
  let s ← s.evaluate A
  let s ← s.certify .smoothTermAtStart (Scalar.isFinite s.fx && s.grad.allFinite)
  let (gamma, s) ← firstGamma c A s
  let s ← s.setGamma gamma
  let s ← s.step g
  let s := { s with recorded := s.value }
  s.certify .envelopeAtStart (Scalar.isFinite s.recorded)

/-- What a run tells at its end. -/
def conclude (c : Config σ R) (status : Status) (s : State R) : Run σ R Unit := do
  if c.verbosity ≠ .off then
    Run.note (.status s.statusRow)
    match status with
    | .converged => Run.note (.converged s.iteration 0)
    | .iterationsSpent =>
      Run.note (.iterationsSpent c.maxIterations)
      Run.note .advice

/-- The starting point: zero if none is given; refused if it does not fit the operator. -/
def startingPoint (A : Operator σ R) (x0 : Option (Vec R)) : Except Fault (Vec R) := do
  let x ← (x0.getD (Vec.zeros A.domain)).toInexact
  x.check "x0" A.domain
  pure x

/-- From the arguments to the first forward-backward step. -/
def launch (A : Operator σ R) (g : Prox σ R) (x0 : Option (Vec R)) (c : Config σ R) :
    Run σ R (State R) := do
  let x ← startingPoint A x0
  let s := State.start x (← c.memory.slots)
  if c.verbosity ≠ .off then
    Run.note .opening
  begin c A g s

/-- A whole run. -/
def solve (A : Operator σ R) (g : Prox σ R) (x0 : Option (Vec R)) (c : Config σ R) :
    Run σ R (Result R) := do
  let s ← launch A g x0 c
  let (status, s) ← loop c A g (← c.maxIterations.toNat) s
  conclude c status s
  pure (s.result status)

end Solver

/-- The outcome in one line. -/
def Result.summary (status : String) (iterations : Int) (residual cost time : Float)
    (operatorCalls proxCalls : Int) : String :=
  "ZeroFPR " ++ status ++ ": it=" ++ toString iterations ++ " normfpr="
    ++ Text.scientific 4 residual ++ " cost=" ++ Text.scientific 4 cost ++ " time="
    ++ Text.fixed 3 time ++ "s matvec=" ++ toString operatorCalls ++ " prox=" ++ toString proxCalls

end ForwardBackward
