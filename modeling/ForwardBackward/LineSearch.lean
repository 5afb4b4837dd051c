/-
# ForwardBackward.LineSearch -- the two searches of an iteration

`gammaSearch` halves the step size until `f(xbar)` is at most its quadratic
model.  The test comes before each halving and once more after the last, so a
budget of `n` halvings has `n + 1` tests; each halving costs one proximal step
and one product with the operator.

`tauSearch` goes from `xbarPrev` along the direction `d`, with the lengths
`1, 0.4, 0.4², …`, until the envelope is at most `level`.  Because the operator
is affine, `A x` and the gradient at a trial are those at `xbarPrev` plus
multiples of `L d` and `Lᴴ L d`, computed once; each trial costs one proximal
step.

A search that runs out of trials keeps the last one and is counted.  A test that
involves a not-a-number fails.
-/
import ForwardBackward.State
import ForwardBackward.Count

namespace ForwardBackward

set_option autoImplicit false

namespace State

variable {σ R : Type} [Scalar R]

/-- One halving of the step size, with the step, the envelope and `f(xbar)` anew. -/
def gammaTrial (s : State R) (A : Operator σ R) (g : Prox σ R) : Call σ (State R) := do
  let s ← s.shrinkGamma.step g
  s.evaluateStep A

/-- Whether `f(xbar)` is at most its quadratic model. -/
def bounded (s : State R) : Bool := Scalar.le s.fxbar s.bound

/-- At most `budget` halvings; whether the test was met. -/
def gammaTrials (A : Operator σ R) (g : Prox σ R) : Nat → State R → Call σ (Bool × State R)
  | 0, s =>
      if s.bounded then pure (true, s)
      else pure (false, { s with gammaFailures := s.gammaFailures + 1 })
  | budget + 1, s => do
      if s.bounded then return (true, s)
      gammaTrials A g budget (← s.gammaTrial A g)

/-- The search for a step size. -/
def gammaSearch (s : State R) (A : Operator σ R) (g : Prox σ R) (budget : Count R) :
    Call σ (Bool × State R) := do
  gammaTrials A g (← budget.toNat) s

/-- The factor between the lengths of two trials. -/
def tauFactor : R := 0.4

/-- The state at the trial of length `tau`. -/
def tauTrial (s : State R) (g : Prox σ R) (tau : R) : Call σ (State R) := do
  let x ← Vec.axpy tau s.d s.xbarPrev
  let ax ← Vec.axpy tau s.ld s.axbar
  let fx := 0.5 * (← ax.sqnorm)
  let grad ← Vec.axpy tau s.lld s.gradbar
  step { s with tau := tau, x := x, ax := ax, fx := fx, grad := grad } g

/-- At most `budget` trials from the length `tau` down; whether the test was met. -/
def tauTrials (g : Prox σ R) (level : R) : Nat → R → State R → Call σ (Bool × State R)
  | 0, _, s => pure (false, { s with tauFailures := s.tauFailures + 1 })
  | budget + 1, tau, s => do
      let s ← s.tauTrial g tau
      if Scalar.le s.value level then return (true, s)
      tauTrials g level budget (tau * tauFactor) s

/-- `L d` and `Lᴴ L d`. -/
def evaluateDirection (s : State R) (A : Operator σ R) : Call σ (State R) := do
  let (ld, s) ← s.callOperator A.linearPart.apply s.d
  let (lld, s) ← s.callOperator A.applyAdjoint ld
  pure { s with ld := ld, lld := lld }

/-- The search for a step along the direction. -/
def tauSearch (s : State R) (A : Operator σ R) (g : Prox σ R) (level : R) (budget : Count R) :
    Call σ (Bool × State R) := do
  let s ← s.evaluateDirection A
  tauTrials g level (← budget.toNat) 1 s

end State

end ForwardBackward
