/-
# ForwardBackward.Session -- the parts of an iteration, one at a time

A session holds the state of a run and performs single `Step`s on it, in any
order: what `Solver.iterate` does in one sweep can be done piece by piece and
looked at in between.  A step answers a number, a truth value or nothing.

`direction` and `tauSearch` can be given the direction and the level that they
would otherwise compute.
-/
import ForwardBackward.Solver

namespace ForwardBackward

set_option autoImplicit false

/-- A step of a session. -/
inductive Step (R : Type) [Scalar R] where
  /-- `A x`, `f(x)` and the gradient at the iterate. -/
  | evaluate
  /-- The estimated step size, which is not set. -/
  | estimateGamma
  | setGamma (gamma : R)
  | shrinkGamma
  | markValid
  | assign (change : State R → State R)
  /-- The forward-backward step, whose envelope is recorded. -/
  | step
  /-- `A xbar` and `f(xbar)`. -/
  | evaluateStep
  | gammaSearch
  | direction (d : Option (Vec R))
  | tauSearch (level : Option R)
  /-- Whether the residual norm is small against a first one. -/
  | halt (firstResidual : R)

/-- What a step answers. -/
inductive Answer (R : Type) where
  | nothing
  | number (x : R)
  | flag (b : Bool)

namespace Session

variable {σ R : Type} [Scalar R]

/-- The state a session begins with. -/
def start (x : Vec R) (c : Config σ R) : Except Fault (State R) := do
  pure (State.start (← x.toInexact) (← c.memory.slots))

/-- The envelope is recorded, `rbar` computed, and the pair offered if there is an earlier
one; then the given direction, or the one of the history, is taken. -/
def takeDirection (A : Operator σ R) (g : Prox σ R) (d : Option (Vec R)) (s : State R) :
    Call σ (State R) := do
  let s ← State.evaluateResidual { s with recorded := s.value } A g
  let s ← if s.rbarPrev.skeleton = .empty then pure s else s.learn
  let d ← match d with
    | some d => pure d
    | none => s.history.direction s.rbar
  pure (State.keep { s with d := d })

/-- One step. -/
def perform (c : Config σ R) (A : Operator σ R) (g : Prox σ R) (s : State R) :
    Step R → Run σ R (Answer R × State R)
  | .evaluate => do pure (.nothing, ← s.evaluate A)
  | .estimateGamma => do
      let (gamma, s) ← s.estimateGamma A c.verbosity
      pure (.number gamma, s)
  | .setGamma gamma => do pure (.nothing, ← s.setGamma gamma)
  | .shrinkGamma => pure (.nothing, s.shrinkGamma)
  | .markValid => pure (.nothing, s.markValid)
  | .assign change => pure (.nothing, change s)
  | .step => do
      let s ← s.step g
      pure (.nothing, { s with recorded := s.value })
  | .evaluateStep => do pure (.nothing, ← s.evaluateStep A)
  | .gammaSearch => do
      let (found, s) ← s.gammaSearch A g c.searchBudget
      pure (.flag found, s)
  | .direction d => do pure (.nothing, ← takeDirection A g d s)
  | .tauSearch level => do
      let level ← match level with
        | some level => pure level
        | none => s.level
      let (found, s) ← s.tauSearch A g level c.searchBudget
      pure (.flag found, s)
  | .halt firstResidual =>
      pure (.flag (s.isBelow c.tolerance firstResidual), s)

end Session

end ForwardBackward
