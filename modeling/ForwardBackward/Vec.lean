/-
# ForwardBackward.Vec -- vectors: trees of arrays

A variable, a residual and a direction are trees of arrays, bare numbers among
them.  This module is their algebra: sums and multiples leaf by leaf, and the
numbers that steer the solver (`norm`, `inner`, `size`).

Leaves are visited in leaf order.  The norm of a tree is the root of the sum
over the leaves of the sums of squared moduli; its square `sqnorm` is taken of
the rounded norm.  The inner product conjugates its first argument, and `inner`
is its real part; where the first vector has a leaf, the second may have a
sequence of arrays, which counts as one array (`toArray`).

`Structure` is what an operator says about its variable: the skeleton and, at
each leaf, shape and kind.  `checkStructure` compares skeletons first and then
shapes in leaf order; kinds are not compared.
-/
import ForwardBackward.Tree.Basic
import ForwardBackward.Array.Axis

namespace ForwardBackward

set_option autoImplicit false

/-- A tree of arrays. -/
abbrev Vec (R : Type) [Scalar R] := Tree (NDArray R)

/-- The shapes and kinds of a vector. -/
abbrev Structure := Tree Spec

/-- The root of a sum of squares. -/
def Entries.root {R : Type} [Scalar R] : Entries R → R
  | .whole _ xs => Scalar.sqrt (Scalar.ofInt (xs.headD 0))
  | .real p xs => p.sqrt (xs.headD 0)
  | .complex p zs => p.sqrt (zs.headD .zero).re

namespace Vec

variable {R : Type} [Scalar R]

/-- The vector with arrays in place of bare numbers; one that no array can hold is refused. -/
def asArrays (x : Vec R) : Except Fault (Vec R) := x.traverse NDArray.asArray

/-- The shapes and kinds of the leaves. -/
def spec (x : Vec R) : Structure := x.map NDArray.spec

/-- The shapes and kinds of the arrays that a vector stands for. -/
def toStructure (x : Vec R) : Except Fault Structure := do pure (← x.asArrays).spec

/-- The zero vector of a structure. -/
def zeros (s : Structure) : Vec R := s.map NDArray.zeros

/-- The vector as arrays with a fractional part: whole numbers become doubles. -/
def toInexact (x : Vec R) : Except Fault (Vec R) := do
  pure ((← x.asArrays).map (NDArray.toFractional .double))

def conj (x : Vec R) : Vec R := x.map NDArray.conj

def neg (x : Vec R) : Vec R := x.map NDArray.neg

/-- `c * x` -/
def scale (c : R) (x : Vec R) : Vec R := x.map (NDArray.scale c)

/-- `c * x` for a complex number `c` -/
def scaleComplex (c : Cartesian R) (x : Vec R) : Vec R := x.map (NDArray.scaleComplex c)

/-- `x` with `c` added to every entry -/
def shift (c : R) (x : Vec R) : Vec R := x.map (NDArray.shift c)

/-- `x + y` -/
def add (x y : Vec R) : Except Fault (Vec R) := Tree.combine NDArray.add x y

/-- `x - y` -/
def sub (x y : Vec R) : Except Fault (Vec R) := Tree.combine NDArray.sub x y

/-- `c * x + y` -/
def axpy (c : R) (x y : Vec R) : Except Fault (Vec R) := add (scale c x) y

/-- The Euclidean norm. -/
def norm (x : Vec R) : R :=
  (Entries.total .zero (x.leaves.map fun a => a.enter.entries.squares.sum)).root

/-- The square of the norm. -/
def sqnorm (x : Vec R) : Except Fault R := do Scalar.square (← x.asArrays).norm

/-! ## One array from several -/

mutual
/-- The array of a skeleton with its leaves in order: sequences are arrays along a new
first axis. -/
def assemble : Skeleton → List (NDArray R) → Except Fault (NDArray R)
  | .leaf, a :: _ => .ok a
  | .leaf, [] => .error .nothingInArray
  | .node label cs, xs => do
      if label.isSequence then NDArray.stack (← assembleAll cs xs)
      else throw .dictionaryAsArray

def assembleAll : List Skeleton → List (NDArray R) → Except Fault (List (NDArray R))
  | [], _ => .ok []
  | c :: cs, xs => do
      let a ← assemble c (xs.take c.leafCount)
      pure (a :: (← assembleAll cs (xs.drop c.leafCount)))
end

/-- The array that a vector stands for: its only leaf, or the members of its sequences, which
are read in one kind. -/
def toArray (x : Vec R) : Except Fault (NDArray R) := do
  if x.skeleton.hasEmpty then throw .nothingInArray
  match x.asLeaf? with
  | some a => a.asArray
  | none => assemble x.skeleton (← NDArray.unify x.leaves)

theorem toArray_leaf (a : NDArray R) : toArray (Tree.leaf a) = a.asArray := rfl

/-- The real part of the inner product. -/
def inner (x y : Vec R) : Except Fault R := do
  let sums ← Tree.combineParts (fun a u => do (← a.asArray).dot (← toArray u)) x y
  pure (Entries.total .zero sums.leaves).first

/-! ## Sizes and precision -/

/-- The number of entries of all leaves; bare numbers have none to count. -/
def size (x : Vec R) : Except Fault Nat := do
  let arrays ← x.traverse (NDArray.requireArray "size")
  pure (arrays.leaves.foldr (fun a n => a.size + n) 0)

def allFinite (x : Vec R) : Bool := x.leaves.all NDArray.allFinite

/-- Whether all entries of some leaves are finite; the first leaf that is not decides. -/
def finiteLeaves : List (NDArray R) → Except Fault Bool
  | [] => .ok true
  | a :: rest => do if (← a.asArray).allFinite then finiteLeaves rest else pure false

/-- Whether all entries are finite, for a vector whose bare numbers have to become arrays. -/
def isFinite (x : Vec R) : Except Fault Bool := finiteLeaves x.leaves

/-- The spacing of numbers near `1` in the precision of the first leaf. -/
def machineEps (x : Vec R) : Except Fault R :=
  match x.leaves with
  | [] => .error .noLeaves
  | a :: _ => do
    match (← a.requireArray "dtype").kind with
    | .whole _ => throw .noPrecision
    | .real p | .complex p => pure p.eps

def sqrtEps (x : Vec R) : Except Fault R := do
  pure (Scalar.sqrt (← machineEps x))

end Vec

/-- The first shape of a list that differs from its partner. -/
def firstShapeDifference : List Spec → List Spec → Option (List Nat × List Nat)
  | s :: ss, t :: ts =>
      if s.shape = t.shape then firstShapeDifference ss ts else some (s.shape, t.shape)
  | _, _ => none

/-- Refuses a structure whose skeleton or shapes are not the expected ones. -/
def checkStructure (name : String) (got expected : Structure) : Except Fault Unit :=
  if got.skeleton = expected.skeleton then
    match firstShapeDifference got.leaves expected.leaves with
    | none => .ok ()
    | some (s, t) => .error (.wrongShape name s t)
  else .error (.wrongStructure name got.skeleton.text expected.skeleton.text)

/-- Refuses a vector that is not of the expected structure. -/
def Vec.check {R : Type} [Scalar R] (name : String) (x : Vec R) (expected : Structure) :
    Except Fault Unit := do
  checkStructure name (← x.toStructure) expected

end ForwardBackward
