/-
# ForwardBackward.Halting -- when a run stops

Before each iteration a *predicate* is asked whether to stop.  It sees the state
and may keep a memory in the environment.  Its `Reply` is a value of any type, or an
exception that it raised, and the `Verdict` is what is made of that
(`Predicate.judge`): a decision, if the value is a truth value, one outside arrays or
an array without axes of one; anything else ends the run.

`standard` is the predicate of a run that names none: the residual norm is at
most the tolerance times that of the first iteration.  The first residual norm is
undefined until there is one, so this never stops a run before its first
iteration.
-/
import ForwardBackward.State

namespace ForwardBackward

set_option autoImplicit false

/-- An argument of an exception. -/
inductive Literal where
  | text (s : String)
  /-- A number, as it is written. -/
  | number (token : String)
  | flag (b : Bool)
  | nothing
  | list (members : List Literal)
  | dict (members : List (String × Literal))

namespace Literal

mutual
/-- The literal as it is read. -/
def quoted : Literal → String
  | text s => Text.quoted s
  | number token => token
  | flag b => if b then "True" else "False"
  | nothing => "None"
  | list ms => "[" ++ String.intercalate ", " (quotedAll ms) ++ "]"
  | dict ms => "\x7b" ++ String.intercalate ", " (quotedMembers ms) ++ "\x7d"

def quotedAll : List Literal → List String
  | [] => []
  | m :: ms => quoted m :: quotedAll ms

def quotedMembers : List (String × Literal) → List String
  | [] => []
  | (key, m) :: ms => (Text.quoted key ++ ": " ++ quoted m) :: quotedMembers ms
end

/-- The literal as it is shown: a text without quotes. -/
def shown : Literal → String
  | text s => s
  | l => l.quoted

end Literal

/-- An exception. -/
structure Raised where
  typeName : String
  arguments : List Literal

namespace Raised

/-- The class of system errors, and those of its members that a number stands for. -/
def systemErrors : List (String × List String) :=
  [("OSError", []), ("PermissionError", ["1", "13"]), ("FileNotFoundError", ["2"]),
   ("ProcessLookupError", ["3"]), ("InterruptedError", ["4"]), ("ChildProcessError", ["10"]),
   ("BlockingIOError", ["11", "114", "115"]), ("FileExistsError", ["17"]),
   ("NotADirectoryError", ["20"]), ("IsADirectoryError", ["21"]),
   ("BrokenPipeError", ["32", "108"]), ("ConnectionAbortedError", ["103"]),
   ("ConnectionResetError", ["104"]), ("TimeoutError", ["110"]),
   ("ConnectionRefusedError", ["111"])]

/-- The exception of a class with given arguments.  A system error with a number and a text is
one of the class of its number. -/
def ofCall (typeName : String) (arguments : List Literal) : Raised :=
  match typeName, arguments with
  | "OSError", .number n :: _ :: _ =>
    ⟨((systemErrors.find? fun c => c.2.contains n).map (·.1)).getD typeName, arguments⟩
  | _, _ => ⟨typeName, arguments⟩

/-- What an exception says: its argument, or the list of them if there are
several.  A missing key is quoted, and a system error opens with its number. -/
def text (e : Raised) : String :=
  match e.arguments with
  | [] => ""
  | [a] => if e.typeName = "KeyError" then a.quoted else a.shown
  | as =>
    match as, systemErrors.any (·.1 = e.typeName) with
    | [n, a], true => "[Errno " ++ n.shown ++ "] " ++ a.shown
    | [n, a, file], true => "[Errno " ++ n.shown ++ "] " ++ a.shown ++ ": " ++ file.quoted
    | as, _ => "(" ++ String.intercalate ", " (Literal.quotedAll as) ++ ")"

end Raised

/-- A value that a predicate returns, by what is looked at to tell whether it is a truth value. -/
inductive Returned (R : Type) [Scalar R] where
  | flag (b : Bool)
  /-- A truth value that the array library keeps outside arrays. -/
  | scalarFlag (b : Bool)
  | array (a : NDArray R)
  /-- A value of any other type. -/
  | other (typeName : String)

/-- What a predicate gives back: a value, or an exception that it raised. -/
inductive Reply (R : Type) [Scalar R] where
  | returned (value : Returned R)
  | raised (e : Raised)

/-- What is made of a reply. -/
inductive Verdict where
  | decided (halt : Bool)
  | notTruth (typeName : String)
  | raised (e : Raised)

/-- The truth value that an array of truth values without axes holds. -/
def NDArray.flag? {R : Type} [Scalar R] (a : NDArray R) : Option Bool :=
  match a.shape, a.entries with
  | [], .whole .flag [n] => some (n ≠ 0)
  | _, _ => none

/-- A truth value decides, and so does an array that is one; an array of one entry along an axis
does not, and a number does not either. -/
def Returned.verdict {R : Type} [Scalar R] : Returned R → Verdict
  | flag b | scalarFlag b => .decided b
  | array a =>
    match a.flag? with
    | some b => .decided b
    | none => .notTruth "ArrayImpl"
  | other typeName => .notTruth typeName

namespace Reply

variable {R : Type} [Scalar R]

def verdict : Reply R → Verdict
  | returned value => value.verdict
  | raised e => .raised e

/-- The reply of a truth value. -/
def decided (halt : Bool) : Reply R := .returned (.flag halt)

/-- What comes of consulting a value that is no predicate. -/
def notCallable (typeName : String) : Reply R :=
  .raised ⟨"TypeError", [.text (Text.quoted typeName ++ " object is not callable")]⟩

end Reply

/-- A halting predicate.  It sees the tolerance of the options and the state. -/
def Predicate (σ R : Type) [Scalar R] := R → State R → σ → Reply R × σ

/-- Whether the residual norm is at most `tol` times a first one. -/
def State.isBelow {R : Type} [Scalar R] (s : State R) (tol firstResidual : R) : Bool :=
  Scalar.le s.residual (tol * firstResidual)

namespace Predicate

variable {σ R : Type} [Scalar R]

/-- A predicate without memory. -/
def ofTest (test : R → State R → Bool) : Predicate σ R :=
  fun tol s env => (.decided (test tol s), env)

/-- The verdict on a state. -/
def judge (p : Predicate σ R) (tol : R) (s : State R) (env : σ) : Verdict × σ :=
  let (reply, env) := p tol s env
  (reply.verdict, env)

/-- The residual norm is at most the tolerance times that of the first iteration. -/
def standard : Predicate σ R := ofTest fun tol s => s.isBelow tol s.firstResidual

/-- The residual norm is at most `ratio` times that of the first iteration. -/
def reducedTo (ratio : R) : Predicate σ R := ofTest fun _ s => s.isBelow ratio s.firstResidual

/-- The number of completed iterations is at least `n`. -/
def reached (n : R) : Predicate σ R := ofTest fun _ s => Scalar.le n (Scalar.ofInt s.iteration)

/-- The residual norm is at most `bound`. -/
def residualAtMost (bound : R) : Predicate σ R := ofTest fun _ s => Scalar.le s.residual bound

/-- The recorded envelope fell by at most `bound`. -/
def stalled (bound : R) : Predicate σ R :=
  ofTest fun _ s => Scalar.le (s.recordedPrev - s.recorded) bound

/-- The same reply every time. -/
def always (reply : Reply R) : Predicate σ R := fun _ _ env => (reply, env)

end Predicate

end ForwardBackward
