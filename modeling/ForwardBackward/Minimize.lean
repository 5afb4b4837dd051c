/-
# ForwardBackward.Minimize -- regularized least squares in one call

`minimize` solves `½ ‖A x - b‖² + g(x)` for an operator given in any of the
forms of `Source`, with options given as a checked `Config` or as named
settings, but not both.  What is wrong is found in this order: a setting with
the name of an argument, options given twice, the settings, the operator, the
data term, the starting point.
-/
import ForwardBackward.Solver
import ForwardBackward.Source

namespace ForwardBackward

set_option autoImplicit false

/-- Named settings with a halting predicate. -/
structure Options (σ R : Type) [Scalar R] where
  settings : List (String × Setting R)
  halt : Option (Predicate σ R)

namespace Options

variable {σ R : Type} [Scalar R]

/-- The names of the settings in order. -/
def names (o : Options σ R) : List String := (o.settings.map (·.1)).mergeSort (· ≤ ·)

/-- The names of the arguments that are no settings. -/
def arguments : List String := ["A", "g", "x0", "b", "config"]

/-- The options of a run; a config excludes named settings. -/
def toConfig (o : Options σ R) (config : Option (Config σ R)) : Except Fault (Config σ R) := do
  if let some (name, _) := o.settings.find? fun s => arguments.contains s.1 then
    throw (.repeatedArgument "minimize()" name)
  match config, o.settings with
  | some c, [] => pure c
  | some _, _ :: _ => throw (.configAndOptions o.names)
  | none, settings => Config.ofSettings (← Settings.ofList settings) o.halt

end Options

/-- A least-squares problem with a regularizer, and how to start on it. -/
structure Problem (σ R : Type) [Scalar R] where
  operator : Source σ R
  /-- The data term. -/
  data : Option (Vec R)
  /-- The regularizer; without one there is nothing but the least-squares term. -/
  regularizer : Option (Prox σ R)
  start : Option (Vec R)

/-- The solution of a problem. -/
def Problem.minimize {σ R : Type} [Scalar R] (p : Problem σ R) (config : Option (Config σ R))
    (options : Options σ R) : Run σ R (Result R) := do
  let c ← options.toConfig config
  let A ← (← p.operator.toOperator).withData p.data
  Solver.solve A (p.regularizer.getD (.ofRegularizer .zero)) p.start c

end ForwardBackward
