/-
# ForwardBackward.Exports -- what the packages offer by name

A package lists its public names in order.  The root package has a version, and
the solver's package has a constant.  Asking for any other attribute is refused.
-/
import ForwardBackward.State

namespace ForwardBackward

set_option autoImplicit false

/-- A package with public names. -/
inductive Package where
  | root
  | solver
  deriving DecidableEq, Repr

namespace Package

def name : Package → String
  | root => "regls"
  | solver => "regls.optim"

/-- The public names in order. -/
def exports : Package → List String
  | root =>
    ["AbstractOperator", "AffineOperator", "HaltingPredicateError", "IndBox", "LinearOperator",
     "NonFiniteError", "NormL0", "NormL1", "ProximableFunction", "SolverConfig", "SqrNormL2",
     "Verbosity", "Zero", "ZeroFPRError", "ZeroFPRResult", "as_operator", "function_operator",
     "identity_operator", "matrix_operator", "minimize", "solve"]
  | solver =>
    ["BETA", "Envelope", "HaltingPredicateError", "LBFGSState", "NonFiniteError", "SolverConfig",
     "SolverState", "Verbosity", "ZeroFPRError", "ZeroFPRResult", "estimate_gamma",
     "forward_backward_envelope", "forward_backward_step", "gamma_linesearch", "halt_default",
     "lbfgs_apply", "lbfgs_init", "lbfgs_update", "minimize", "solve", "tau_linesearch"]

def version? : Package → Option String
  | root => some "0.1.0"
  | solver => none

/-- A name as a package shows it where it does not have it. -/
def shown : Package → String → String
  | root => Text.quoted
  | solver => Text.enclosed

/-- The value of a constant. -/
def constant {R : Type} [Scalar R] (p : Package) (key : String) : Except Fault R :=
  match p, key with
  | solver, "BETA" => .ok safety
  | p, key => .error (.unknownAttribute p.name (p.shown key))

end Package

end ForwardBackward
