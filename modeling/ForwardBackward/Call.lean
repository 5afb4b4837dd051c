/-
# ForwardBackward.Call -- what a solver calls

The solver knows its problem through two capabilities: an `Operator`, which maps
vectors, and a `Prox`, which takes proximal steps.  Either may keep a state of
its own (a counter, a log, a fault that strikes later), so a `Call` runs in the
environment `σ` that all of them share.  A call that fails keeps the
environment it had reached.

`Operator.ofTransform` and `Prox.ofRegularizer` are the capabilities of the
catalogue; they leave every environment alone.
-/
import ForwardBackward.Transform.Basic
import ForwardBackward.Regularizer

namespace ForwardBackward

set_option autoImplicit false

/-- A computation in an environment, which may be refused. -/
abbrev Call (σ α : Type) := EStateM Fault σ α

/-- A refusal that needs no environment. -/
instance Call.instMonadLift {σ : Type} : MonadLift (Except Fault) (EStateM Fault σ) where
  monadLift
    | .ok a => pure a
    | .error e => throw e

/-- The operator of a least-squares term: a linear or affine map `A`, its linear
part `L` and the adjoint of `L`. -/
structure Operator (σ R : Type) [Scalar R] where
  isLinear : Bool
  domain : Structure
  codomain : Structure
  apply : Vec R → Call σ (Vec R)
  applyLinear : Vec R → Call σ (Vec R)
  applyAdjoint : Vec R → Call σ (Vec R)

/-- A proximable function: its value, and its proximal step with the value there. -/
structure Prox (σ R : Type) [Scalar R] where
  value : Vec R → Call σ R
  prox : Vec R → R → Call σ (Vec R × R)

namespace Prox

variable {σ R : Type} [Scalar R]

def ofRegularizer (g : Regularizer R) : Prox σ R where
  value x := monadLift (g.value x)
  prox v gamma := monadLift (g.prox v gamma)

end Prox

namespace Operator

variable {σ R : Type} [Scalar R]

def ofTransform (t : Transform R) : Operator σ R where
  isLinear := true
  domain := t.domain
  codomain := t.codomain
  apply x := monadLift (t.apply x)
  applyLinear x := monadLift (t.apply x)
  applyAdjoint y := monadLift (t.adjoint y)

/-- The linear part, an operator of its own. -/
def linearPart (A : Operator σ R) : Operator σ R :=
  if A.isLinear then A
  else { A with isLinear := true, apply := A.applyLinear }

/-- The affine operator `A x = L x - b`. -/
def affine (L : Operator σ R) (b : Vec R) : Except Fault (Operator σ R) := do
  if !L.isLinear then throw .linearPartNotLinear
  b.check "b" L.codomain
  pure {
    isLinear := false
    domain := L.domain
    codomain := L.codomain
    apply := fun x => do
      let y ← L.apply x
      let r ← Vec.sub y b
      pure r
    applyLinear := L.apply
    applyAdjoint := L.applyAdjoint }

end Operator

end ForwardBackward
