/-
# ForwardBackward.Observation -- what a run does to the outside, written down

A run under observation happens in a larger environment: beside the environment
of its capabilities, `Observed` holds a log of the calls that went outside and a
copy of the state at every consultation of the predicate.

`observed` turns an operator, a proximable function or a predicate into one that
works in the larger environment.  A call is logged before it is made, so a call
that is refused is in the log.  Observation changes no result: what the observed
capability returns, and what it does to the inner environment, is what the plain
one would.
-/
import ForwardBackward.Halting
import ForwardBackward.Source

namespace ForwardBackward

set_option autoImplicit false

/-- A call that goes outside. -/
inductive Event where
  | apply
  /-- The linear part of an affine operator. -/
  | applyLinear
  | applyAdjoint
  | prox
  deriving DecidableEq, Repr

def Event.letter : Event → Char
  | apply => 'A'
  | applyLinear => 'L'
  | applyAdjoint => 'H'
  | prox => 'P'

/-- An environment under observation. -/
structure Observed (σ R : Type) [Scalar R] where
  inner : σ
  calls : Array Event
  consultations : Array (State R)

namespace Observed

variable {σ R α : Type} [Scalar R]

/-- The environment before anything has happened. -/
def start (env : σ) : Observed σ R := ⟨env, #[], #[]⟩

/-- A call in the inner environment. -/
def lift (c : Call σ α) : Call (Observed σ R) α := fun o =>
  match c o.inner with
  | .ok a env => .ok a { o with inner := env }
  | .error e env => .error e { o with inner := env }

/-- A call in the inner environment, logged. -/
def log (e : Event) (c : Call σ α) : Call (Observed σ R) α := fun o =>
  lift c { o with calls := o.calls.push e }

end Observed

/-- The operator with every call logged. -/
def Operator.observed {σ R : Type} [Scalar R] (A : Operator σ R) : Operator (Observed σ R) R where
  isLinear := A.isLinear
  domain := A.domain
  codomain := A.codomain
  apply x := Observed.log .apply (A.apply x)
  applyLinear x := Observed.log (if A.isLinear then .apply else .applyLinear) (A.applyLinear x)
  applyAdjoint y := Observed.log .applyAdjoint (A.applyAdjoint y)

/-- The source with the calls of an operator that it already has logged. -/
def Source.observed {σ R : Type} [Scalar R] : Source σ R → Source (Observed σ R) R
  | .operator A => .operator A.observed
  | .transform t => .transform t
  | .data x => .data x
  | .rows ms => .rows ms
  | .other typeName => .other typeName

/-- The proximable function with every step logged. -/
def Prox.observed {σ R : Type} [Scalar R] (g : Prox σ R) : Prox (Observed σ R) R where
  value x := Observed.lift (g.value x)
  prox v gamma := Observed.log .prox (g.prox v gamma)

/-- The predicate with every state it is shown kept. -/
def Predicate.observed {σ R : Type} [Scalar R] (p : Predicate σ R) : Predicate (Observed σ R) R :=
  fun tol s o =>
    let (reply, env) := p tol s o.inner
    (reply, { o with inner := env, consultations := o.consultations.push s })

end ForwardBackward
