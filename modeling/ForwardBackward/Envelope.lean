/-
# ForwardBackward.Envelope -- the forward-backward envelope

At a point `x` with value `f(x)` and gradient, and for a step size `γ`, the
forward-backward step is `xbar`, the proximal point of `x - γ grad`.  With
`r = x - xbar`, the quadratic model of `f` around `x` has at `xbar` the value

    bound = f(x) - ⟨grad, r⟩ + ‖r‖² / (2 γ),

and the envelope at `x` is `bound + g(xbar)`.
-/
import ForwardBackward.Call

namespace ForwardBackward

set_option autoImplicit false

/-- What belongs to a point and its forward-backward step. -/
structure Envelope (R : Type) [Scalar R] where
  /-- The fixed-point residual, the point minus its step. -/
  r : Vec R
  /-- The norm of `r`. -/
  residual : R
  /-- The quadratic model at the step. -/
  bound : R
  /-- The envelope, `bound` plus the regularizer at the step. -/
  value : R

variable {σ R : Type} [Scalar R]

/-- The forward-backward step from `x`, and the regularizer there. -/
def forwardBackwardStep (g : Prox σ R) (x grad : Vec R) (gamma : R) : Call σ (Vec R × R) := do
  let v ← Vec.axpy (-gamma) grad x
  g.prox v gamma

/-- The envelope at `x`, given its step `xbar` with `g(xbar)`, and `f(x)` with its gradient. -/
def envelope (x xbar : Vec R) (gxbar fx : R) (grad : Vec R) (gamma : R) :
    Except Fault (Envelope R) := do
  let r ← x.sub xbar
  let residual := (← r.asArrays).norm
  let slope ← grad.inner r
  let curvature ← Scalar.quotient (← Scalar.square residual) (2 * gamma)
  let bound := fx - slope + curvature
  pure ⟨r, residual, bound, bound + gxbar⟩

end ForwardBackward
