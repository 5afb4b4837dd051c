/-
# ForwardBackward.State -- what a run of the solver knows

`State` holds the vectors, numbers and counters of one run.  A vector that is
not known yet is the empty tree, a number that is not known yet is undefined.

Only `callOperator` and `callProx` go outside, and each counts its call.  The
step size `gamma` and the slope `sigma` of the sufficient decrease belong
together: `setGamma` sets both, `shrinkGamma` halves the one and doubles the
other, so their product stays `safety / 4`.
-/
import ForwardBackward.Envelope
import ForwardBackward.History

namespace ForwardBackward

set_option autoImplicit false

/-- The part of a step size given away for safety. -/
def safety {R : Type} [Scalar R] : R := 0.05

/-- The state of a run. -/
structure State (R : Type) [Scalar R] where
  /-- The number of the iteration in progress, or of the last one. -/
  iteration : Nat
  /-- The step size. -/
  gamma : R
  /-- The slope of the sufficient decrease. -/
  sigma : R
  /-- The length of the last step along a direction. -/
  tau : R
  /-- The iterate, `A x`, `f(x)` and the gradient of `f` at `x`. -/
  x : Vec R
  ax : Vec R
  fx : R
  grad : Vec R
  /-- The forward-backward step from `x`, with the same quantities and `g(xbar)`. -/
  xbar : Vec R
  axbar : Vec R
  fxbar : R
  gradbar : Vec R
  gxbar : R
  /-- The envelope at `x`: residual, its norm, and the quadratic model at `xbar`. -/
  r : Vec R
  residual : R
  bound : R
  /-- The residual of the forward-backward step from `xbar`. -/
  rbar : Vec R
  /-- `xbar` and `rbar` of the iteration before. -/
  xbarPrev : Vec R
  rbarPrev : Vec R
  /-- The direction, `L d` and `Lᴴ L d`. -/
  d : Vec R
  ld : Vec R
  lld : Vec R
  history : History R
  /-- The recorded envelope, the one recorded before it, and the cost `f(xbar) + g(xbar)`. -/
  recorded : R
  recordedPrev : R
  cost : R
  /-- The residual norm after the search for a step size of the first iteration. -/
  firstResidual : R
  /-- Calls of the operator and of the proximal step. -/
  operatorCalls : Nat
  proxCalls : Nat
  /-- Searches that ran out of trials. -/
  gammaFailures : Nat
  tauFailures : Nat
  /-- The last step size and residual norm that were finite when all was well. -/
  validGamma : R
  validResidual : R

namespace State

variable {σ R : Type} [Scalar R]

/-- The state before anything is known but the starting point. -/
def start (x : Vec R) (memory : Nat) : State R where
  iteration := 0
  gamma := Scalar.undefined
  sigma := Scalar.undefined
  tau := 1
  x := x
  ax := .empty
  fx := Scalar.undefined
  grad := .empty
  xbar := .empty
  axbar := .empty
  fxbar := Scalar.undefined
  gradbar := .empty
  gxbar := Scalar.undefined
  r := .empty
  residual := Scalar.infinity
  bound := Scalar.undefined
  rbar := .empty
  xbarPrev := .empty
  rbarPrev := .empty
  d := .empty
  ld := .empty
  lld := .empty
  history := History.empty x memory
  recorded := Scalar.undefined
  recordedPrev := Scalar.undefined
  cost := Scalar.undefined
  firstResidual := Scalar.undefined
  operatorCalls := 0
  proxCalls := 0
  gammaFailures := 0
  tauFailures := 0
  validGamma := Scalar.undefined
  validResidual := Scalar.undefined

/-! ## Calls -/

/-- A counted call of the operator or of its adjoint. -/
def callOperator (s : State R) (f : Vec R → Call σ (Vec R)) (v : Vec R) :
    Call σ (Vec R × State R) := do
  let y ← f v
  pure (y, { s with operatorCalls := s.operatorCalls + 1 })

/-- A counted forward-backward step at the current step size. -/
def callProx (s : State R) (g : Prox σ R) (x grad : Vec R) : Call σ ((Vec R × R) × State R) := do
  let p ← forwardBackwardStep g x grad s.gamma
  pure (p, { s with proxCalls := s.proxCalls + 1 })

/-! ## Step sizes -/

def setGamma (s : State R) (gamma : R) : Except Fault (State R) := do
  pure { s with gamma := gamma, sigma := ← Scalar.quotient safety (4 * gamma) }

def shrinkGamma (s : State R) : State R :=
  { s with gamma := s.gamma * 0.5, sigma := s.sigma * 2 }

/-! ## Quantities at the iterate and at its step -/

/-- `A x`, `f(x)` and the gradient at the iterate. -/
def evaluate (s : State R) (A : Operator σ R) : Call σ (State R) := do
  let (ax, s) ← s.callOperator A.apply s.x
  let fx := 0.5 * (← ax.sqnorm)
  let (grad, s) ← s.callOperator A.applyAdjoint ax
  pure { s with ax := ax, fx := fx, grad := grad }

/-- `A xbar` and `f(xbar)`. -/
def evaluateStep (s : State R) (A : Operator σ R) : Call σ (State R) := do
  let (axbar, s) ← s.callOperator A.apply s.xbar
  let fxbar := 0.5 * (← axbar.sqnorm)
  pure { s with axbar := axbar, fxbar := fxbar }

/-- The forward-backward step from the iterate, with all that belongs to it. -/
def step (s : State R) (g : Prox σ R) : Call σ (State R) := do
  let ((xbar, gxbar), s) ← s.callProx g s.x s.grad
  let e ← envelope s.x xbar gxbar s.fx s.grad s.gamma
  pure { s with xbar := xbar, gxbar := gxbar, r := e.r, residual := e.residual, bound := e.bound }

/-- The envelope at the iterate. -/
def value (s : State R) : R := s.bound + s.gxbar

/-- Keeps the step size and the residual norm, each if it is finite. -/
def markValid (s : State R) : State R :=
  { s with
    validGamma := if Scalar.isFinite s.gamma then s.gamma else s.validGamma
    validResidual := if Scalar.isFinite s.residual then s.residual else s.validResidual }

end State

end ForwardBackward
