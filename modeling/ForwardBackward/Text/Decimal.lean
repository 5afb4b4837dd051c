/-
# ForwardBackward.Text.Decimal -- decimal text of a double

A finite double is an integer times a power of two, so its decimal expansion is
finite and a rounding of it is a rounding of one quotient of whole numbers.
`roundDiv` rounds that quotient to nearest, a half to the even neighbour;
`digits` asks for a number of significant digits and `places` for a number of
places after the point.

`scientific` and `fixed` lay the digits out; `blankSigned` and `alignRight` add a
blank in place of a sign and a least width.
-/
import ForwardBackward.Scalar.Double

namespace ForwardBackward.Text

set_option autoImplicit false

/-- The quotient rounded to nearest, a half to the even neighbour. -/
def roundDiv (num den : Nat) : Nat :=
  let q := num / den
  let r := num % den
  if den < 2 * r ∨ (2 * r = den ∧ q % 2 = 1) then q + 1 else q

/-- How many decimal digits a number has. -/
def digitCount (n : Nat) : Nat := (Nat.toDigits 10 n).length

/-- The exponent `e` with `10 ^ e ≤ num / den < 10 ^ (e + 1)`, for a positive quotient. -/
def decimalExponent (num den : Nat) : Int :=
  if den ≤ num then (digitCount (num / den) : Int) - 1
  else
    let k := digitCount den - digitCount num
    if den ≤ num * Nat.pow 10 k then -(k : Int) else -(k : Int) - 1

/-- Significant digits as one whole number, and the exponent of the first of them. -/
structure Digits where
  significand : Nat
  exponent : Int
  deriving DecidableEq, Repr

/-- The positive quotient `num / den` rounded to `count + 1` significant digits. -/
def digits (count num den : Nat) : Digits :=
  let e := decimalExponent num den
  let shift := (count : Int) - e
  let q :=
    if shift < 0 then roundDiv num (den * Nat.pow 10 shift.natAbs)
    else roundDiv (num * Nat.pow 10 shift.natAbs) den
  if q = Nat.pow 10 (count + 1) then ⟨Nat.pow 10 count, e + 1⟩ else ⟨q, e⟩

/-- A number with zeros in front up to `width` digits. -/
def padded (width n : Nat) : String :=
  let ds := Nat.toDigits 10 n
  String.ofList (List.replicate (width - ds.length) '0' ++ ds)

/-- Blanks in front up to `width` characters. -/
def alignRight (width : Nat) (s : String) : String :=
  String.ofList (List.replicate (width - s.length) ' ') ++ s

/-- What stands for a number that is not finite. -/
def notFinite (x : Float) : String :=
  if x.isNaN then "nan" else if x < 0 then "-inf" else "inf"

/-- The sign of an exponent and its digits, two at least. -/
def exponentText (e : Int) : String :=
  (if e < 0 then "-" else "+") ++ padded 2 e.natAbs

/-- A number in scientific form with `count` digits after the point: `9.5000e-01`. -/
def scientific (count : Nat) (x : Float) : String :=
  match decode x with
  | none => notFinite x
  | some b =>
    let d : Digits := if b.mantissa = 0 then ⟨0, 0⟩ else digits count b.ratio.1 b.ratio.2
    let point := Nat.pow 10 count
    (if b.negative then "-" else "") ++ toString (d.significand / point)
      ++ (if count = 0 then "" else "." ++ padded count (d.significand % point))
      ++ "e" ++ exponentText d.exponent

/-- A number with `count` places after the point: `0.120`. -/
def fixed (count : Nat) (x : Float) : String :=
  match decode x with
  | none => notFinite x
  | some b =>
    let point := Nat.pow 10 count
    let n := roundDiv (b.ratio.1 * point) b.ratio.2
    (if b.negative then "-" else "") ++ toString (n / point)
      ++ (if count = 0 then "" else "." ++ padded count (n % point))

/-- A blank in front of what has no minus sign. -/
def blankSigned (s : String) : String :=
  if s.startsWith "-" then s else " " ++ s

end ForwardBackward.Text
