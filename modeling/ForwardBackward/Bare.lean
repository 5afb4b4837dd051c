/-
# ForwardBackward.Bare -- numbers outside arrays

A caller may put a bare number where an array is expected.  It is a truth value,
a whole number of any size or a fraction, and it stays what it is until it meets
an array.

Bare numbers are compared by their exact values: a whole number is not rounded to
meet a fraction.
-/
import ForwardBackward.Scalar

namespace ForwardBackward

set_option autoImplicit false

/-- A number outside an array. -/
inductive Bare (R : Type) where
  | flag (b : Bool)
  | whole (n : Int)
  | fraction (x : R)

namespace Bare

variable {R : Type}

def typeName : Bare R → String
  | flag _ => "bool"
  | whole _ => "int"
  | fraction _ => "float"

/-- The whole number that a number is; truth values are `0` and `1`. -/
def whole? : Bare R → Option Int
  | flag b => some (if b then 1 else 0)
  | whole n => some n
  | fraction _ => none

variable [Scalar R]

/-- Whether a whole number is at most a fraction. -/
def wholeLe (n : Int) (x : R) : Bool :=
  if Scalar.isFinite x then
    let t := Scalar.truncate x
    n < t || (n = t && Scalar.le (Scalar.ofInt t) x)
  else Scalar.lt 0 x

/-- Whether a fraction is at most a whole number. -/
def leWhole (x : R) (n : Int) : Bool :=
  if Scalar.isFinite x then
    let t := Scalar.truncate x
    t < n || (t = n && Scalar.le x (Scalar.ofInt t))
  else Scalar.lt x 0

/-- Whether a number is at most another one. -/
def le (a b : Bare R) : Bool :=
  match a, b with
  | fraction x, fraction y => Scalar.le x y
  | fraction x, b => (b.whole?.map (leWhole x)).getD false
  | a, fraction y => (a.whole?.map fun n => wholeLe n y).getD false
  | a, b => (a.whole?.getD 0) ≤ (b.whole?.getD 0)

end Bare

end ForwardBackward
