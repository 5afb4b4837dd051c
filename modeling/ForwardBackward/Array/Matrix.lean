/-
# ForwardBackward.Array.Matrix -- products of matrices

The product of two arrays pairs the rows of the first with the columns of the
second.  An array with one axis is one row on the left and one column on the
right, and that axis is missing from the product.  An array with more than two
axes is a stack of matrices along its last two; stacks broadcast against each
other.

`transposedMatmul` is the transpose of the map `x ↦ m x`: the product with the
transposed matrices, added up over the members of the stack that `x` was
repeated to.
-/
import ForwardBackward.Array.Axis

namespace ForwardBackward

set_option autoImplicit false

/-- A stack of matrices. -/
structure MatrixShape where
  stack : List Nat
  rows : Nat
  columns : Nat
  deriving DecidableEq, Repr

namespace MatrixShape

/-- The matrices of a left factor; a number has none. -/
def left? (shape : List Nat) : Option MatrixShape :=
  match shape.reverse with
  | [] => none
  | [n] => some ⟨[], 1, n⟩
  | n :: m :: stack => some ⟨stack.reverse, m, n⟩

/-- The matrices of a right factor; a number has none. -/
def right? (shape : List Nat) : Option MatrixShape :=
  match shape.reverse with
  | [] => none
  | [n] => some ⟨[], n, 1⟩
  | n :: m :: stack => some ⟨stack.reverse, m, n⟩

/-- The matrices as a shape. -/
def toShape (s : MatrixShape) : List Nat := s.stack ++ [s.rows, s.columns]

end MatrixShape

/-- A shape `[n]` for an axis that a product keeps: that of a factor with more than one. -/
def keptAxis (factor : List Nat) (n : Nat) : List Nat := if factor.length = 1 then [] else [n]

namespace Entries

variable {R : Type} [Scalar R]

/-- A stack of matrices of `m` rows and `n` columns, `count` in all, each transposed. -/
def transposed (count m n : Nat) (a : Entries R) : Entries R :=
  a.gather (count * (n * m)) fun k =>
    let block := m * n
    (k / block) * block + (k % block % m) * n + k % block / m

/-- The sums of the entries that share a position, for `n` positions. -/
def collect (n : Nat) (position : Nat → Nat) (a : Entries R) : Entries R :=
  let pick {α : Type} (sum : List α → α) (xs : List α) : List α :=
    (List.range n).map fun t => sum ((xs.zipIdx.filter fun x => position x.2 = t).map (·.1))
  match a with
  | whole w xs => whole w (pick w.sum xs)
  | real p xs => real p (pick p.sum xs)
  | complex p zs => complex p (pick (Cartesian.sum p) zs)

theorem length_collect (n : Nat) (position : Nat → Nat) (a : Entries R) :
    (collect n position a).length = n := by
  cases a <;> simp [collect, length]

end Entries

namespace NDArray

variable {R : Type} [Scalar R]

/-- The matrices of an array in their own shape. -/
def toMatrices (s : MatrixShape) (a : NDArray R) : NDArray R := a.reshape s.toShape

/-- The matrices repeated to a larger stack. -/
def repeatStack (stack : List Nat) (s : MatrixShape) (a : NDArray R) : NDArray R :=
  (a.toMatrices s).expandTo (stack ++ [s.rows, s.columns])

/-- The product of two arrays. -/
def matmul (a b : NDArray R) : Except Fault (NDArray R) := do
  let a ← a.asArray
  let b ← b.asArray
  match MatrixShape.left? a.shape, MatrixShape.right? b.shape with
  | some s, some t =>
    match broadcast s.stack t.stack with
    | none => .error .stacksClash
    | some stack =>
      if s.columns ≠ t.rows then .error .shapesClash
      else
        let count := volume stack
        let rows := (a.repeatStack stack s).entries
        let columns := (b.repeatStack stack t).entries.transposed count t.rows t.columns
        let product : NDArray R :=
          ⟨[count * (s.rows * t.columns)],
            Entries.product count s.rows s.columns t.columns rows columns, by
            simp [Entries.length_product, volume]⟩
        .ok (product.reshape (stack ++ keptAxis a.shape s.rows ++ keptAxis b.shape t.columns))
  | _, _ => .error .numberAgainstMatrix

/-- The matrices of a stack transposed, the shape being that of the stack. -/
def transposeMatrices (s : MatrixShape) (a : NDArray R) : NDArray R :=
  ⟨[volume s.stack * (s.columns * s.rows)],
    a.entries.transposed (volume s.stack) s.rows s.columns, by
    simp [Entries.transposed, Entries.length_gather, volume]⟩

/-- The transpose of a matrix; an array of another rank is left alone. -/
def transpose (a : NDArray R) : NDArray R :=
  match a.shape with
  | [m, n] => (a.transposeMatrices ⟨[], m, n⟩).reshape [n, m]
  | _ => a

/-- The entries added up to a shape that repeats to the shape of the array. -/
def sumTo (shape : List Nat) (a : NDArray R) : NDArray R :=
  if volume shape = a.size then a.reshape shape
  else ⟨shape, a.entries.collect (volume shape) (sourcePosition shape.reverse a.shape.reverse),
    Entries.length_collect _ _ _⟩

/-- The transpose of the product with `m`, for factors of a given shape. -/
def transposedMatmul (m : NDArray R) (shape : List Nat) (y : NDArray R) :
    Except Fault (NDArray R) :=
  match MatrixShape.left? m.shape, MatrixShape.right? shape with
  | some s, some t =>
    match broadcast s.stack t.stack with
    | none => .error .stacksClash
    | some stack => do
      let transposed := (m.transposeMatrices s).reshape (s.stack ++ [s.columns, s.rows])
      let product ← transposed.matmul (y.reshape (stack ++ [s.rows, t.columns]))
      pure ((product.sumTo t.toShape).reshape shape)
  | _, _ => .error .numberAgainstMatrix

theorem shape_transpose {a : NDArray R} {m n : Nat} (h : a.shape = [m, n]) :
    a.transpose.shape = [n, m] := by
  unfold transpose
  split
  · next hs =>
      rw [h] at hs
      cases hs
      rfl
  · next hs => exact absurd h (hs m n)

end NDArray

end ForwardBackward
