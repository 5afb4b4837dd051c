/-
# ForwardBackward.Fault -- what can be wrong with an input

Every refusal is a cause, a constructor of `Fault`, and every cause has one
wording, `Fault.message`.  A cause that the array layer finds (trees or shapes
that do not fit) has no wording of its own.

The failures of a *run* carry diagnostics of the solver and are in
`ForwardBackward.Failure`.
-/
import ForwardBackward.Scalar
import ForwardBackward.Text.Integer
import ForwardBackward.Text.Quoted

namespace ForwardBackward

open Text (quoted enclosed digitLimit)

set_option autoImplicit false

/-- The text of a shape: `()`, `(3,)`, `(2, 1)`. -/
def shapeText : List Nat → String
  | [] => "()"
  | [n] => "(" ++ toString n ++ ",)"
  | ns => "(" ++ String.intercalate ", " (ns.map toString) ++ ")"

/-- The comparisons a setting is checked with. -/
inductive Comparison where
  | less
  | greater
  deriving DecidableEq, Repr

def Comparison.symbol : Comparison → String
  | .less => "<"
  | .greater => ">"

/-- A cause of refusal. -/
inductive Fault where
  /-- Two trees of different structure were combined. -/
  | treesDiffer
  /-- An array was combined with an inner node. -/
  | arrayMeetsNode
  /-- Shapes with as many axes each that neither broadcast nor contract. -/
  | shapesClash
  /-- Shapes with different numbers of axes that do not broadcast. -/
  | ranksClash
  /-- A part of an array without axes. -/
  | noAxis
  /-- A part of a bare number. -/
  | partOfNumber
  /-- Stacks of matrices that do not broadcast. -/
  | stacksClash
  /-- A product of whole numbers in less than the width of a factor. -/
  | narrowedProduct
  /-- A whole number that no array can hold. -/
  | numberTooLarge
  /-- An array that does not fit the part of another one where it belongs. -/
  | partDoesNotFit
  /-- A dictionary among the members of an array. -/
  | dictionaryAsArray
  /-- A missing value, or an empty node, among the members of an array. -/
  | nothingInArray
  /-- A number, where a matrix needs a vector. -/
  | numberAgainstMatrix
  /-- An inner node, where a matrix or a diagonal needs an array. -/
  | nodeAgainstMatrix
  /-- Truth values have no difference. -/
  | differenceOfFlags
  /-- Complex numbers cannot be clipped. -/
  | clipOfComplex
  /-- An array of whole numbers has no machine epsilon. -/
  | noPrecision
  /-- A vector outside the structure an operator was built for. -/
  | outsideDomain
  /-- Transforms that cannot be composed or added. -/
  | transformsDoNotFit
  /-- Rows of different length. -/
  | raggedRows
  /-- A matrix entry that is not a number. -/
  | entryNotANumber
  /-- The first leaf of a tree without leaves. -/
  | noLeaves
  /-- A value that is no array has no such attribute. -/
  | noAttribute (typeName property : String)
  /-- Two values that an operation does not combine. -/
  | unsupportedOperands (symbol left right : String)
  /-- A multiple of a sequence by something that is no whole number. -/
  | sequenceTimes (typeName : String)
  | missingKey (key : String)
  /-- A part of something that has none. -/
  | notSubscriptable (typeName : String)
  | notIterable (typeName : String)
  /-- A key that a dictionary cannot have. -/
  | unhashable (typeName : String)
  | divisionByZero
  /-- The square of a finite number is not finite. -/
  | overflow
  | wrongStructure (name got expected : String)
  | wrongShape (name : String) (got expected : List Nat)
  | negativeWeight
  | notAMatrix (shape : List Nat)
  | notAnOperator (typeName : String)
  | linearPartNotLinear
  | dataTermOnAffine
  | negativeMemory
  /-- A memory that is not a whole number of slots. -/
  | fractionalMemory
  | toleranceNotPositive
  | negativeIterations
  | reportPeriodTooSmall
  | stepSizeNotPositive
  | searchBudgetTooSmall
  | notComparable (test : Comparison) (typeName : String)
  | notConvertible (typeName : String)
  | notAnInteger (text : String)
  /-- A text with more digits than are read. -/
  | tooManyDigits (count : Nat)
  | undefinedAsInteger
  | infiniteAsInteger
  | notAVerbosity (n : Int)
  | unknownOption (name : String)
  /-- An option with the name of an argument that is given already. -/
  | repeatedArgument (callee name : String)
  | frozenField (name : String)
  | configAndOptions (names : List String)
  /-- A fraction, where a count is needed. -/
  | fractionAsCount
  /-- A value that cannot be written as a whole number. -/
  | notWhole (typeName : String)
  /-- A name that a package does not have, as the package shows it. -/
  | unknownAttribute (package shownName : String)
  deriving DecidableEq, Repr

namespace Fault

/-- How many characters of a quoted text a message shows. -/
def shownCharacters : Nat := 200

/-- What reads the options, as a message names it. -/
def optionsCallee : String := "SolverConfig.__init__()"

/-- The wording of a cause; `none` for the causes of the array layer. -/
def message : Fault → Option String
  | treesDiffer | arrayMeetsNode | shapesClash | ranksClash | noAxis | partOfNumber | stacksClash
  | narrowedProduct | numberTooLarge | partDoesNotFit | dictionaryAsArray | nothingInArray
  | numberAgainstMatrix | nodeAgainstMatrix | differenceOfFlags | clipOfComplex | noPrecision
  | outsideDomain | transformsDoNotFit | raggedRows | entryNotANumber | fractionalMemory => none
  | noLeaves => some "list index out of range"
  | noAttribute typeName property =>
      some (quoted typeName ++ " object has no attribute " ++ quoted property)
  | unsupportedOperands symbol left right =>
      some ("unsupported operand type(s) for " ++ symbol ++ ": " ++ quoted left ++ " and "
        ++ quoted right)
  | sequenceTimes typeName =>
      some ("can't multiply sequence by non-int of type " ++ quoted typeName)
  | missingKey key => some (quoted key)
  | notSubscriptable typeName => some (quoted typeName ++ " object is not subscriptable")
  | notIterable typeName => some (quoted typeName ++ " object is not iterable")
  | unhashable typeName => some ("unhashable type: " ++ quoted typeName)
  | divisionByZero => some "float division by zero"
  | overflow => some "(34, 'Numerical result out of range')"
  | wrongStructure name got expected =>
      some (name ++ " has tree structure " ++ got ++ ", operator expects " ++ expected)
  | wrongShape name got expected =>
      some (name ++ " has shape " ++ shapeText got ++ ", operator expects " ++ shapeText expected)
  | negativeWeight => some "lam must be non-negative"
  | notAMatrix shape => some ("Expected a 2-D matrix, got an array of shape " ++ shapeText shape)
  | notAnOperator typeName => some ("Cannot build an operator from " ++ typeName)
  | linearPartNotLinear => some "AffineOperator needs a linear operator as its linear part"
  | dataTermOnAffine => some "A data term b can only be attached to a linear operator"
  | negativeMemory => some "memory_size must be >= 0"
  | toleranceNotPositive => some "tol must be positive"
  | negativeIterations => some "max_iter must be >= 0"
  | reportPeriodTooSmall => some "print_every must be >= 1"
  | stepSizeNotPositive => some "gamma must be a positive finite number or None"
  | searchBudgetTooSmall => some "max_linesearch_steps must be >= 1"
  | notComparable test typeName =>
      some (quoted test.symbol ++ " not supported between instances of " ++ quoted typeName
        ++ " and 'int'")
  | notConvertible typeName =>
      some ("int() argument must be a string, a bytes-like object or a real number, not "
        ++ quoted typeName)
  | notAnInteger text =>
      some ("invalid literal for int() with base 10: "
        ++ String.ofList ((quoted text).toList.take shownCharacters))
  | tooManyDigits count =>
      some ("Exceeds the limit (" ++ toString digitLimit
        ++ " digits) for integer string conversion: value has " ++ toString count
        ++ " digits; use sys.set_int_max_str_digits() to increase the limit")
  | undefinedAsInteger => some "cannot convert float NaN to integer"
  | infiniteAsInteger => some "cannot convert float infinity to integer"
  | notAVerbosity n => some (toString n ++ " is not a valid Verbosity")
  | unknownOption name =>
      some (optionsCallee ++ " got an unexpected keyword argument " ++ enclosed name)
  | repeatedArgument callee name =>
      some (callee ++ " got multiple values for argument " ++ enclosed name)
  | frozenField name => some ("cannot assign to field " ++ quoted name)
  | configAndOptions names =>
      some ("Pass either config or keyword options, not both (got ["
        ++ String.intercalate ", " (names.map quoted) ++ "])")
  | fractionAsCount => some "'float' object cannot be interpreted as an integer"
  | notWhole typeName =>
      some ("Unknown format code 'd' for object of type " ++ quoted typeName)
  | unknownAttribute package shownName =>
      some ("module " ++ quoted package ++ " has no attribute " ++ shownName)

end Fault

/-! ## Checked steps on single numbers -/

namespace Scalar

variable {R : Type} [Scalar R]

/-- The quotient of two numbers; a zero divisor is refused. -/
def quotient (x y : R) : Except Fault R :=
  if eq y 0 then .error .divisionByZero else .ok (x / y)

/-- The square of a number; refused if a finite number has no finite square. -/
def square (x : R) : Except Fault R :=
  let y := x * x
  if isFinite x && !isFinite y then .error .overflow else .ok y

end Scalar

end ForwardBackward
