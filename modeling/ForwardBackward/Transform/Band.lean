/-
# ForwardBackward.Transform.Band -- tridiagonal matrices

A `Band` is the diagonal of a matrix and its neighbours below and above.  Its
product with a vector begins with the product of the diagonal, to which the
neighbours add theirs: the one above to all members but the last, the one below
to all members but the first.
-/
import ForwardBackward.Vec

namespace ForwardBackward

set_option autoImplicit false

/-- The three diagonals of a tridiagonal matrix. -/
structure Band (R : Type) [Scalar R] where
  diagonal : NDArray R
  lower : NDArray R
  upper : NDArray R

namespace Band

variable {R : Type} [Scalar R]

/-- A diagonal without neighbours. -/
def ofDiagonal (d : NDArray R) : Band R :=
  let none := NDArray.zeros ⟨[d.size - 1], .real .double⟩
  ⟨d, none, none⟩

def neg (b : Band R) : Band R := ⟨b.diagonal.neg, b.lower.neg, b.upper.neg⟩

def scale (c : R) (b : Band R) : Band R :=
  ⟨b.diagonal.scale c, b.lower.scale c, b.upper.scale c⟩

def scaleComplex (c : Cartesian R) (b : Band R) : Band R :=
  ⟨b.diagonal.scaleComplex c, b.lower.scaleComplex c, b.upper.scaleComplex c⟩

def add (a b : Band R) : Except Fault (Band R) := do
  pure ⟨← a.diagonal.add b.diagonal, ← a.lower.add b.lower, ← a.upper.add b.upper⟩

/-- The product with a vector. -/
def mul (b : Band R) (a : NDArray R) : Except Fault (NDArray R) := do
  if a.isBare then throw .partOfNumber
  match a.shape with
  | [] => throw .noAxis
  | n :: _ =>
    let above ← b.upper.mul (a.slice 1 (n - 1))
    let own ← b.diagonal.mul a
    let below ← b.lower.mul (a.slice 0 (n - 1))
    let rest := own.axes.1 - 1
    (← own.addedAt 0 rest above).addedAt 1 rest below

end Band

end ForwardBackward
