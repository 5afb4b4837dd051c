/-
# ForwardBackward.Config -- the options of a run

Options arrive as named *settings* of any type.  `Config.ofSettings` checks them
and gives the options their types.  The checks come in a fixed order, and the
first that fails decides; a comparison of something that has no order is a
failure of its own.

A whole number is wanted for each count, but a fraction is accepted here if it
is in range, and refused only where the count is used.  `verbosity` accepts
whatever reads as `0`, `1` or `2`: a fraction is cut off, a text is read as a
whole number, a truth value is `0` or `1`.
-/
import ForwardBackward.Halting
import ForwardBackward.LineSearch
import ForwardBackward.Text.Integer

namespace ForwardBackward

set_option autoImplicit false

/-- How much a run reports. -/
inductive Verbosity where
  | off
  | periodic
  | everyIteration
  deriving DecidableEq, Repr

namespace Verbosity

def level : Verbosity → Nat
  | off => 0
  | periodic => 1
  | everyIteration => 2

def name : Verbosity → String
  | off => "OFF"
  | periodic => "PERIODIC"
  | everyIteration => "EVERY_ITERATION"

def ofInt (n : Int) : Except Fault Verbosity :=
  if n = 0 then .ok off
  else if n = 1 then .ok periodic
  else if n = 2 then .ok everyIteration
  else .error (.notAVerbosity n)

end Verbosity

/-- The value of an option as it arrives. -/
inductive Setting (R : Type) where
  | nothing
  | flag (b : Bool)
  | whole (n : Int)
  | fraction (x : R)
  | text (s : String)
  /-- A container, or a value of any other type; an empty container counts as false. -/
  | other (typeName : String) (isEmpty : Bool)

/-- The options of a run as they arrive, with what holds where none is given. -/
structure Settings (R : Type) where
  tolerance : Setting R
  maxIterations : Setting R
  memory : Setting R
  verbosity : Setting R
  reportPeriod : Setting R
  stepSize : Setting R
  searchesGamma : Setting R
  searchBudget : Setting R

/-- The options of a run. -/
structure Config (σ R : Type) [Scalar R] where
  tolerance : R
  maxIterations : Count R
  memory : Count R
  verbosity : Verbosity
  reportPeriod : Count R
  /-- The halting predicate; `none` is the standard one. -/
  halt : Option (Predicate σ R)
  /-- The first step size; `none` estimates one. -/
  stepSize : Option R
  searchesGamma : Bool
  searchBudget : Count R

namespace Setting

variable {R : Type} [Scalar R]

def typeName : Setting R → String
  | nothing => "NoneType"
  | flag _ => "bool"
  | whole _ => "int"
  | fraction _ => "float"
  | text _ => "str"
  | other t _ => t

/-- The setting as a number. -/
def number? : Setting R → Option R
  | flag b => some (if b then 1 else 0)
  | whole n => some (Scalar.ofInt n)
  | fraction x => some x
  | _ => none

/-- The truth value that a number is still written as: one that was set as a truth value
and has not changed. -/
def flag? (s : Setting R) (x : R) : Option Bool :=
  match s with
  | flag b => if Scalar.eq x (if b then 1 else 0) then some b else none
  | _ => none

/-- Whether a setting counts as true. -/
def isTrue : Setting R → Bool
  | nothing => false
  | flag b => b
  | whole n => n ≠ 0
  | fraction x => !Scalar.eq x 0
  | text s => s ≠ ""
  | other _ isEmpty => !isEmpty

/-- A number that is at least `least`, for a setting that counts something. -/
def count (least : Nat) (tooSmall : Fault) : Setting R → Except Fault (Count R)
  | flag b => if b.toNat < least then .error tooSmall else .ok (.flag b)
  | whole n => if n < least then .error tooSmall else .ok (.whole n.toNat)
  | fraction x =>
      if Scalar.lt x (Scalar.ofInt least) then .error tooSmall else .ok (.fraction x)
  | s => .error (.notComparable .less s.typeName)

/-- The whole number a setting stands for. -/
def toInteger : Setting R → Except Fault Int
  | flag b => .ok (if b then 1 else 0)
  | whole n => .ok n
  | fraction x =>
      if Scalar.isNaN x then .error .undefinedAsInteger
      else if !Scalar.isFinite x then .error .infiniteAsInteger
      else .ok (Scalar.truncate x)
  | text s =>
    match Text.readInteger s with
    | .number n => .ok n
    | .tooLong digits => .error (.tooManyDigits digits)
    | .malformed => .error (.notAnInteger s)
  | s => .error (.notConvertible s.typeName)

/-- A tolerance: a positive number. -/
def tolerance (s : Setting R) : Except Fault R :=
  match s.number? with
  | none => .error (.notComparable .greater s.typeName)
  | some x => if Scalar.lt 0 x then .ok x else .error .toleranceNotPositive

/-- A step size: a positive finite number, or nothing. -/
def stepSize : Setting R → Except Fault (Option R)
  | nothing => .ok none
  | s =>
    match s.number? with
    | none => .error (.notComparable .greater s.typeName)
    | some x =>
      if Scalar.lt 0 x && Scalar.isFinite x then .ok (some x) else .error .stepSizeNotPositive

end Setting

namespace Settings

variable {R : Type} [Scalar R]

/-- The options where none is given. -/
def standard : Settings R where
  tolerance := .fraction 1e-8
  maxIterations := .whole 10000
  memory := .whole 5
  verbosity := .whole 1
  reportPeriod := .whole 100
  stepSize := .nothing
  searchesGamma := .flag true
  searchBudget := .whole 32

/-- Sets an option by its name. -/
def set (o : Settings R) (name : String) (value : Setting R) : Except Fault (Settings R) :=
  match name with
  | "tol" => .ok { o with tolerance := value }
  | "max_iter" => .ok { o with maxIterations := value }
  | "memory_size" => .ok { o with memory := value }
  | "verbose" => .ok { o with verbosity := value }
  | "print_every" => .ok { o with reportPeriod := value }
  | "halt" => .ok o
  | "gamma" => .ok { o with stepSize := value }
  | "linesearch" => .ok { o with searchesGamma := value }
  | "max_linesearch_steps" => .ok { o with searchBudget := value }
  | "self" => .error (.repeatedArgument Fault.optionsCallee name)
  | name => .error (.unknownOption name)

/-- The standard options with some of them set; the first name that is no option is refused. -/
def ofList (options : List (String × Setting R)) : Except Fault (Settings R) :=
  options.foldlM (fun o p => o.set p.1 p.2) standard

end Settings

namespace Config

variable {σ R : Type} [Scalar R]

/-- The checked options. -/
def ofSettings (o : Settings R) (halt : Option (Predicate σ R)) : Except Fault (Config σ R) := do
  let tolerance ← o.tolerance.tolerance
  let maxIterations ← o.maxIterations.count 0 .negativeIterations
  let memory ← o.memory.count 0 .negativeMemory
  let reportPeriod ← o.reportPeriod.count 1 .reportPeriodTooSmall
  let stepSize ← o.stepSize.stepSize
  let searchBudget ← o.searchBudget.count 1 .searchBudgetTooSmall
  let verbosity ← Verbosity.ofInt (← o.verbosity.toInteger)
  pure {
    tolerance := tolerance
    maxIterations := maxIterations
    memory := memory
    verbosity := verbosity
    reportPeriod := reportPeriod
    halt := halt
    stepSize := stepSize
    searchesGamma := o.searchesGamma.isTrue
    searchBudget := searchBudget }

/-- The predicate a run asks. -/
def predicate (c : Config σ R) : Predicate σ R := c.halt.getD .standard

/-- Options cannot be changed once they are checked. -/
def assign (_ : Config σ R) (name : String) : Except Fault (Config σ R) :=
  .error (.frozenField name)

end Config

end ForwardBackward
