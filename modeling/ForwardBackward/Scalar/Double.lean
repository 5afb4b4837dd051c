/-
# ForwardBackward.Scalar.Double -- arithmetic in binary floating point

The interpretation of `Scalar` that runs: IEEE double precision, each operation
rounded to nearest, ties to even, and single precision inside it.  Rounding a
double-precision sum, product, quotient or root of single-precision numbers to
single precision gives the correctly rounded result, so `Precision.add` and its
siblings are the operations of single precision.  An integer is rounded to
single precision directly, because rounding it to double precision first may
move it to a tie.  `narrow` and `widen` are the way there and back, on numbers that are
opened to sign, mantissa and exponent.

The smallest numbers that keep all their digits are `2 ^ -126` in single and
`2 ^ -1022` in double precision; `normal` puts a zero of the same sign in place
of anything smaller.

`decode` opens a finite number as an integer times a power of two; whole parts
and decimal text are computed from that form, in exact integer arithmetic.
-/
import ForwardBackward.Scalar

namespace ForwardBackward

set_option autoImplicit false

/-- A finite binary number, `± mantissa * 2 ^ exponent`. -/
structure Binary where
  negative : Bool
  mantissa : Nat
  exponent : Int
  deriving DecidableEq, Repr

namespace Binary

/-- The magnitude as a quotient of two whole numbers. -/
def ratio (b : Binary) : Nat × Nat :=
  if b.exponent < 0 then (b.mantissa, Nat.pow 2 b.exponent.natAbs)
  else (b.mantissa * Nat.pow 2 b.exponent.natAbs, 1)

/-- The whole part, toward zero. -/
def truncate (b : Binary) : Int :=
  let n := b.ratio.1 / b.ratio.2
  if b.negative then -(n : Int) else n

/-- Whether the second number is a whole multiple of the first. -/
def divides (a b : Binary) : Bool :=
  let low := min a.exponent b.exponent
  let step := a.mantissa * Nat.pow 2 (a.exponent - low).toNat
  step ≠ 0 ∧ b.mantissa * Nat.pow 2 (b.exponent - low).toNat % step = 0

end Binary

/-- A double as its sign, mantissa and exponent; `none` if it is not finite. -/
def decode (x : Float) : Option Binary :=
  let bits := x.toBits.toNat
  let hidden := Nat.pow 2 52
  let negative : Bool := bits / Nat.pow 2 63 = 1
  let exponent : Nat := bits / hidden % 2048
  let fraction := bits % hidden
  if exponent = 2047 then none
  else if exponent = 0 then some ⟨negative, fraction, -1074⟩
  else some ⟨negative, fraction + hidden, (exponent : Int) - 1075⟩

/-- The smallest positive number of a precision that keeps all its digits. -/
def smallestNormal : Precision → Float
  | .single => Float.ofBits 0x3810000000000000
  | .double | .loose => Float.ofBits 0x0010000000000000
  | .bare => 0

open Float.Model (UnpackedFloat)

/-- The number of single precision nearest a number, with an exponent that may be out of range. -/
def narrow : UnpackedFloat → UnpackedFloat
  | .finite s m e _ => .round .binary32 s m e
  | u => u

/-- A number of single precision as a double; it is infinite if its exponent is out of range. -/
def widen : UnpackedFloat → Float
  | .finite s m e _ => .ofModel (.pack (if 104 < e then .infinity s else .round .binary64 s m e))
  | u => .ofModel (.pack u)

instance : Scalar Float where
  nearest p n := if p = .single then widen (.ofInt .binary32 n) else Float.ofInt n
  decimal := OfScientific.ofScientific
  round p x := if p = .single then widen (narrow x.toModel.unpack) else x
  normal p x := if x.abs < smallestNormal p then x * 0 else x
  abs := Float.abs
  sqrt := Float.sqrt
  eq x y := x == y
  lt x y := x < y
  le x y := x ≤ y
  isFinite := Float.isFinite
  truncate x := ((decode x).map Binary.truncate).getD 0
  divides x y :=
    match decode x, decode y with
    | some a, some b => a.divides b
    | _, _ => false
  infinity := 1.0 / 0.0
  undefined := 0.0 / 0.0

end ForwardBackward
