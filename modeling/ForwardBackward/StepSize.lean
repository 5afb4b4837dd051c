/-
# ForwardBackward.StepSize -- the first step size

Where the options name no step size, it is `(1 - safety) / L` for an estimate `L`
of the Lipschitz constant of the gradient: the change of the gradient between
`x` and `x + e`, divided by the norm of `e`, where every entry of `e` is the root
of the machine epsilon.  An estimate that is not finite, or not above the
machine epsilon, is replaced by `1`, and a run that reports anything says so.
-/
import ForwardBackward.Run
import ForwardBackward.Config

namespace ForwardBackward

set_option autoImplicit false

namespace State

variable {σ R : Type} [Scalar R]

/-- The quotient of the change of the gradient and the norm of the change of `x`. -/
def estimateLipschitz (s : State R) (A : Operator σ R) : Call σ (R × State R) := do
  let delta ← s.x.sqrtEps
  let (ax, s) ← s.callOperator A.apply (s.x.shift delta)
  let (grad, s) ← s.callOperator A.applyAdjoint ax
  let change ← (← s.grad.sub grad).asArrays
  let size ← s.x.size
  let lipschitz ← Scalar.quotient change.norm (delta * Scalar.sqrt (Scalar.ofInt size))
  pure (lipschitz, s)

/-- The step size for an estimate of the Lipschitz constant. -/
def gammaFor (lipschitz : R) : R := (1 - safety) / lipschitz

/-- The estimated step size; the state only counts the calls. -/
def estimateGamma (s : State R) (A : Operator σ R) (verbosity : Verbosity) :
    Run σ R (R × State R) := do
  let (lipschitz, s) ← s.estimateLipschitz A
  let eps ← s.x.machineEps
  if Scalar.isFinite lipschitz && !Scalar.le lipschitz eps then
    return (gammaFor lipschitz, s)
  if verbosity ≠ .off then
    Run.note (.degenerateEstimate lipschitz)
  pure (gammaFor 1, s)

end State

end ForwardBackward
