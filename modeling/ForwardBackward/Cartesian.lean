/-
# ForwardBackward.Cartesian -- complex numbers by real and imaginary part

Sums, differences and products are the textbook ones, each intermediate result
rounded to the precision in use.  The modulus divides by the larger part, so
that it overflows only if its value does; where that quotient has no value (both
parts zero, or both infinite) the sum of the parts is the modulus.

A quotient by a real number `s` is one by the complex number `s + 0 i`, so each
part of the numerator also meets a zero: an infinite part leaves the other part
without a value.  Where neither part has a value because the divisor is zero, or
because both parts are infinite, the parts are infinities instead.

`le` is the lexicographic order: the real parts decide, and the imaginary parts
where those are equal.
-/
import ForwardBackward.Scalar

namespace ForwardBackward

set_option autoImplicit false

/-- A complex number `re + im * i`. -/
structure Cartesian (R : Type) where
  re : R
  im : R
  deriving DecidableEq, Repr

namespace Cartesian

variable {R : Type} [Scalar R]

def ofReal (x : R) : Cartesian R := ⟨x, 0⟩

def zero : Cartesian R := ⟨0, 0⟩

/-- A number of precision `p` read in precision `q`. -/
def convert (p q : Precision) (z : Cartesian R) : Cartesian R :=
  ⟨Precision.convert p q z.re, Precision.convert p q z.im⟩

def conj (z : Cartesian R) : Cartesian R := ⟨z.re, -z.im⟩

def neg (z : Cartesian R) : Cartesian R := ⟨-z.re, -z.im⟩

def add (p : Precision) (z w : Cartesian R) : Cartesian R :=
  ⟨p.add z.re w.re, p.add z.im w.im⟩

def sub (p : Precision) (z w : Cartesian R) : Cartesian R :=
  ⟨p.sub z.re w.re, p.sub z.im w.im⟩

def mul (p : Precision) (z w : Cartesian R) : Cartesian R :=
  ⟨p.sub (p.mul z.re w.re) (p.mul z.im w.im), p.add (p.mul z.re w.im) (p.mul z.im w.re)⟩

/-- What an infinite numerator keeps of a part: one for an infinite part, else zero. -/
def direction (x : R) : R :=
  if Scalar.isInfinite x then (if Scalar.lt x 0 then -1 else 1) else 0

/-- The quotient by a real number. -/
def divReal (p : Precision) (z : Cartesian R) (s : R) : Cartesian R :=
  let ratio := p.div 0 s
  let re := p.div (p.add z.re (p.mul z.im ratio)) s
  let im := p.div (p.sub z.im (p.mul z.re ratio)) s
  if Scalar.isNaN re && Scalar.isNaN im then
    if p.eq s 0 && !(Scalar.isNaN z.re && Scalar.isNaN z.im) then
      ⟨p.mul Scalar.infinity z.re, p.mul Scalar.infinity z.im⟩
    else if (Scalar.isInfinite z.re || Scalar.isInfinite z.im) && Scalar.isFinite s then
      ⟨p.mul Scalar.infinity (p.mul (direction z.re) s),
        p.mul Scalar.infinity (p.mul (direction z.im) s)⟩
    else ⟨re, im⟩
  else ⟨re, im⟩

/-- The squared modulus. -/
def normSq (p : Precision) (z : Cartesian R) : R :=
  p.add (p.mul z.re z.re) (p.mul z.im z.im)

def abs (p : Precision) (z : Cartesian R) : R :=
  let a := Scalar.abs z.re
  let b := Scalar.abs z.im
  let large := p.max a b
  let small := p.min a b
  let q := p.div small large
  let r := p.mul large (p.sqrt (p.add 1 (p.mul q q)))
  if Scalar.isNaN r then p.add small large else r

def isFinite (z : Cartesian R) : Bool := Scalar.isFinite z.re && Scalar.isFinite z.im

def isZero (p : Precision) (z : Cartesian R) : Bool := p.eq z.re 0 && p.eq z.im 0

def le (p : Precision) (z w : Cartesian R) : Bool :=
  if p.eq z.re w.re then p.le z.im w.im else p.le z.re w.re

def sum (p : Precision) (zs : List (Cartesian R)) : Cartesian R := zs.foldl (add p) zero

end Cartesian

end ForwardBackward
