/-
# ForwardBackward.Scalar -- the arithmetic everything is computed in

The solver, its line searches and its vectors are written once, over any type
`R` with the operations of `Scalar`.  Binary floating point is one such type
(`ForwardBackward.Scalar.Double`); a theorem about exact arithmetic, or about
every interpretation of the operations, is a theorem about another.

Three conventions hold everywhere:

* comparisons are `Bool` tests (`lt`, `le`, `eq`), so an interpretation may
  make every test of a not-a-number false, as floating point does;
* an array is filled entry by entry with the total operations `+ - * / sqrt`,
  which never fail: an overflow or a division by zero leaves an infinity or a
  not-a-number behind;
* a *step of the program* on single numbers is checked: `quotient` refuses a
  zero divisor and `square` refuses a finite number whose square is not finite.

The entries of an array have a `Precision`.  Arithmetic in a precision
(`Precision.add` and its siblings) reads and leaves no number that is too small
for it: such a number counts as zero (`normal`), before the operation and after
it.  Numbers of the program itself are kept however small they are.
-/

namespace ForwardBackward

set_option autoImplicit false

/-- How numbers are kept.  Numbers of `double` precision come in three forms,
which differ in what becomes of them when they meet others. -/
inductive Precision where
  /-- The narrow precision. -/
  | single
  /-- The wide precision. -/
  | double
  /-- The wide precision in an array that takes on the precision of any other array. -/
  | loose
  /-- A number of the program, outside arrays. -/
  | bare
  deriving DecidableEq, Repr

/-- The operations the library computes with. -/
class Scalar (R : Type) extends Add R, Sub R, Mul R, Div R, Neg R where
  /-- The number of a precision nearest an integer. -/
  nearest : Precision → Int → R
  /-- The number nearest `m * 10 ^ e`, the exponent negative if the flag is set. -/
  decimal : Nat → Bool → Nat → R
  /-- The nearest number of a precision. -/
  round : Precision → R → R
  /-- Zero in place of a number that is too small for a precision. -/
  normal : Precision → R → R
  abs : R → R
  sqrt : R → R
  eq : R → R → Bool
  lt : R → R → Bool
  le : R → R → Bool
  isFinite : R → Bool
  /-- The whole part, toward zero; `0` for what is not finite. -/
  truncate : R → Int
  /-- Whether the second number is a whole multiple of the first. -/
  divides : R → R → Bool
  infinity : R
  /-- The result of an operation without a value. -/
  undefined : R

namespace Scalar

variable {R : Type} [Scalar R]

/-- The number nearest an integer. -/
def ofInt (n : Int) : R := nearest .double n

instance (priority := low) instOfNat (n : Nat) : OfNat R n := ⟨ofInt n⟩

instance (priority := low) instOfScientific : OfScientific R := ⟨decimal⟩

/-- A not-a-number is what differs from itself. -/
def isNaN (x : R) : Bool := !eq x x

/-- Whether a number is an infinity. -/
def isInfinite (x : R) : Bool := !isFinite x && !isNaN x

/-- The larger of two numbers; a not-a-number wins over any number. -/
def max (x y : R) : R :=
  if isNaN x then x else if isNaN y then y else if lt x y then y else x

/-- The smaller of two numbers; a not-a-number wins over any number. -/
def min (x y : R) : R :=
  if isNaN x then x else if isNaN y then y else if lt y x then y else x

/-- The smallest positive number of full double precision, `2 ^ -1022`. -/
def tiny : R := 1 / ofInt (Nat.pow 2 1022)

end Scalar

namespace Precision

variable {R : Type} [Scalar R]

/-- The precision two kinds of numbers meet in: the wider of two precisions, where
loose and bare numbers give way. -/
def join : Precision → Precision → Precision
  | .bare, q => q
  | p, .bare => p
  | .loose, q => q
  | p, .loose => p
  | .single, .single => .single
  | _, _ => .double

/-- The precision that a number is kept in. -/
def firm : Precision → Precision
  | .single => .single
  | _ => .double

/-- The spacing of the numbers just above `1`. -/
def eps : Precision → R
  | .single => 1 / Scalar.ofInt (Nat.pow 2 23)
  | _ => 1 / Scalar.ofInt (Nat.pow 2 52)

/-- What a precision keeps of the value of an operation. -/
def result (p : Precision) (x : R) : R := Scalar.normal p (Scalar.round p x)

/-- A number of precision `p` read in precision `q`. -/
def convert (p q : Precision) (x : R) : R :=
  if p.firm = q.firm then x else q.result (Scalar.normal p x)

/-- A number of the program read in a precision. -/
def ofNumber (p : Precision) (x : R) : R := convert .bare p x

def add (p : Precision) (x y : R) : R := p.result (Scalar.normal p x + Scalar.normal p y)
def sub (p : Precision) (x y : R) : R := p.result (Scalar.normal p x - Scalar.normal p y)
def mul (p : Precision) (x y : R) : R := p.result (Scalar.normal p x * Scalar.normal p y)
def div (p : Precision) (x y : R) : R := p.result (Scalar.normal p x / Scalar.normal p y)
def sqrt (p : Precision) (x : R) : R := p.result (Scalar.sqrt (Scalar.normal p x))
def max (p : Precision) (x y : R) : R := Scalar.max (Scalar.normal p x) (Scalar.normal p y)
def min (p : Precision) (x y : R) : R := Scalar.min (Scalar.normal p x) (Scalar.normal p y)
def eq (p : Precision) (x y : R) : Bool := Scalar.eq (Scalar.normal p x) (Scalar.normal p y)
def lt (p : Precision) (x y : R) : Bool := Scalar.lt (Scalar.normal p x) (Scalar.normal p y)
def le (p : Precision) (x y : R) : Bool := Scalar.le (Scalar.normal p x) (Scalar.normal p y)

/-- The sum from left to right, rounded after every addition. -/
def sum (p : Precision) (xs : List R) : R := xs.foldl p.add 0

theorem firm_firm (p : Precision) : p.firm.firm = p.firm := by cases p <;> rfl

/-- A number keeps its value in a precision that is kept the same way. -/
theorem convert_of_firm_eq {p q : Precision} (h : p.firm = q.firm) (x : R) :
    convert p q x = x := by simp [convert, h]

end Precision

end ForwardBackward
