/-
# ForwardBackward.Transform.Basic -- linear transforms and their adjoints

A `Transform` is built from matrices, diagonals, tridiagonal bands, identities
and linear functions by composition, sums, negation and multiples by real and by
complex numbers.  Its plain transpose is a transform again, defined by structure
(`transpose`), and its adjoint conjugates around it: `adjoint y` is the conjugate
of the transpose applied to the conjugate of `y`.

Some transforms multiply entry by entry, and have a diagonal (`diagonal?`): a
matrix with one row and one column is one of them.  A sum or a composition of
two such transforms multiplies by the sum or the product of their diagonals, and
a sum of tridiagonal transforms by the sum of their bands (`band?`); any other
sum adds values, and any other composition applies one part after the other.
An entrywise product takes any vector whose leaves broadcast.

The structures of domain and codomain are read off the construction.  A sum or
a composition of transforms that do not fit is refused when it is built, by
`add` and `after`.
-/
import ForwardBackward.Transform.Function
import ForwardBackward.Transform.Band

namespace ForwardBackward

set_option autoImplicit false

/-- A linear transform. -/
inductive Transform (R : Type) [Scalar R] where
  /-- A matrix with its numbers of rows and columns. -/
  | matrix (rows columns : Nat) (m : NDArray R) (fits : m.shape = [rows, columns])
  | identity (s : Structure)
  | diagonal (d : NDArray R)
  /-- The diagonal of a matrix with `n + 1` rows and its neighbours below and above. -/
  | tridiagonal (n : Nat) (d lower upper : NDArray R)
      (fits : d.shape = [n + 1] ∧ lower.shape = [n] ∧ upper.shape = [n])
  | function (f : LinearFunction R)
  /-- The second transform, then the first. -/
  | compose (p q : Transform R)
  | sum (p q : Transform R)
  | negative (p : Transform R)
  | multiple (c : R) (p : Transform R)
  | complexMultiple (c : Cartesian R) (p : Transform R)

/-- The entrywise product with a vector of the same skeleton. -/
def Vec.times {R : Type} [Scalar R] (d x : Vec R) : Except Fault (Vec R) :=
  Tree.combineSame NDArray.mul d x

/-- The sum with a vector of the same skeleton. -/
def Vec.plus {R : Type} [Scalar R] (x y : Vec R) : Except Fault (Vec R) :=
  Tree.combineSame NDArray.add x y

namespace Transform

variable {R : Type} [Scalar R]

/-- The structure of the vectors a transform applies to. -/
def domain : Transform R → Structure
  | matrix _ columns m _ => .leaf ⟨[columns], m.kind⟩
  | identity s => s
  | diagonal d => .leaf d.spec
  | tridiagonal _ d _ _ _ => .leaf d.spec
  | function f => f.domain
  | compose _ q => q.domain
  | sum p _ => p.domain
  | negative p => p.domain
  | multiple _ p => p.domain
  | complexMultiple _ p => p.domain

/-- The structure of the values of a transform. -/
def codomain : Transform R → Structure
  | matrix rows _ m _ => .leaf ⟨[rows], m.kind⟩
  | identity s => s
  | diagonal d => .leaf d.spec
  | tridiagonal _ d _ _ _ => .leaf d.spec
  | function f => f.codomain
  | compose p _ => p.codomain
  | sum p _ => p.codomain
  | negative p => p.codomain
  | multiple _ p => p.codomain
  | complexMultiple _ p => p.codomain

/-! ## Entrywise and tridiagonal transforms -/

/-- What a transform multiplies by, entry by entry; nothing if it does not. -/
def diagonal? : Transform R → Option (Vec R)
  | matrix 1 1 m _ => some (.leaf m.flatten)
  | matrix _ _ _ _ => none
  | identity s => some (s.map fun p => NDArray.ones p.shape)
  | diagonal d => some (.leaf d)
  | tridiagonal 0 d _ _ _ => some (.leaf d)
  | tridiagonal _ _ _ _ _ => none
  | function _ => none
  | compose p q => do ((← p.diagonal?).times (← q.diagonal?)).toOption
  | sum p q => do ((← p.diagonal?).plus (← q.diagonal?)).toOption
  | negative p => p.diagonal?.map Vec.neg
  | multiple c p => p.diagonal?.map (Vec.scale c)
  | complexMultiple c p => p.diagonal?.map (Vec.scaleComplex c)

/-- The band of a tridiagonal transform. -/
def band? : Transform R → Option (Band R)
  | tridiagonal _ d lower upper _ => some ⟨d, lower, upper⟩
  | sum p q => do ((← p.band?).add (← q.band?)).toOption
  | negative p => p.band?.map Band.neg
  | multiple c p => p.band?.map (Band.scale c)
  | complexMultiple c p => p.band?.map (Band.scaleComplex c)
  | t => do pure (.ofDiagonal (← (← t.diagonal?).asLeaf?))

/-- The value of a transform. -/
def apply : Transform R → Vec R → Except Fault (Vec R)
  | matrix 1 1 m _, x => Vec.times (.leaf m.flatten) x
  | matrix _ _ m _, x => do pure (.leaf (← m.matmul (← x.theArray)))
  | identity s, x => if x.hasStructure s then .ok x else .error .outsideDomain
  | diagonal d, x => Vec.times (.leaf d) x
  | tridiagonal _ d lower upper _, x => do
      pure (.leaf (← Band.mul ⟨d, lower, upper⟩ (← x.theArray)))
  | function f, x => f.apply x
  | compose p q, x =>
    match (compose p q).diagonal? with
    | some d => d.times x
    | none => do p.apply (← q.apply x)
  | sum p q, x =>
    match (sum p q).diagonal?, (sum p q).band? with
    | some d, _ => d.times x
    | none, some b => do pure (.leaf (← b.mul (← x.theArray)))
    | none, none => do Vec.plus (← p.apply x) (← q.apply x)
  | negative p, x => do pure (Vec.neg (← p.apply x))
  | multiple c p, x => do pure (Vec.scale c (← (← p.apply x).asArrays))
  | complexMultiple c p, x => do pure (Vec.scaleComplex c (← (← p.apply x).asArrays))

/-- The plain transpose. -/
def transpose : Transform R → Transform R
  | matrix rows columns m fits =>
      matrix columns rows m.transpose (NDArray.shape_transpose fits)
  | identity s => identity s
  | diagonal d => diagonal d
  | tridiagonal n d lower upper fits =>
      tridiagonal n d upper lower ⟨fits.1, fits.2.2, fits.2.1⟩
  | function f => function f.transpose
  | compose p q => compose q.transpose p.transpose
  | sum p q => sum p.transpose q.transpose
  | negative p => negative p.transpose
  | multiple c p => multiple c p.transpose
  | complexMultiple c p => complexMultiple c p.transpose

/-- The value of the adjoint. -/
def adjoint (t : Transform R) (y : Vec R) : Except Fault (Vec R) := do
  pure (Vec.conj (← t.transpose.apply (Vec.conj (← y.asArrays))))

/-! ## Construction -/

/-- Whether two structures agree, kinds included. -/
def agree (s t : Structure) : Bool := s.skeleton = t.skeleton ∧ s.leaves = t.leaves

/-- The transform of an array with two axes, whose whole numbers become numbers of a
precision. -/
def matrix? (p : Precision) (m : NDArray R) : Option (Transform R) :=
  match h : m.shape with
  | [rows, columns] =>
    some (matrix rows columns (m.toFractional p) ((m.shape_toFractional p).trans h))
  | _ => none

/-- The transform of a matrix; an array of another rank is refused. -/
def ofMatrix (m : NDArray R) : Except Fault (Transform R) :=
  match matrix? .double m with
  | some t => .ok t
  | none => .error (.notAMatrix m.shape)

/-- The transform of a matrix as a part of a larger one.  In a part, the whole numbers of a
matrix become numbers of single precision. -/
def ofBlock (m : NDArray R) : Except Fault (Transform R) :=
  match matrix? .single m with
  | some t => .ok t
  | none => .error .transformsDoNotFit

def ofIdentity (s : Structure) : Transform R := identity s.toInexact

def ofDiagonal (d : NDArray R) : Transform R := diagonal (d.toFractional .double)

/-- The band of three diagonals; the outer ones are one shorter than the inner. -/
def ofBand (d lower upper : NDArray R) : Except Fault (Transform R) :=
  match hd : d.shape with
  | [n + 1] =>
    if h : lower.shape = [n] ∧ upper.shape = [n] then
      .ok (tridiagonal n (d.toFractional .double) (lower.toFractional .double)
        (upper.toFractional .double)
        ⟨(d.shape_toFractional .double).trans hd, (lower.shape_toFractional .double).trans h.1,
          (upper.shape_toFractional .double).trans h.2⟩)
    else .error .transformsDoNotFit
  | _ => .error .transformsDoNotFit

/-- `p` after `q`. -/
def after (p q : Transform R) : Except Fault (Transform R) :=
  if agree p.domain q.codomain then .ok (compose p q) else .error .transformsDoNotFit

def add (p q : Transform R) : Except Fault (Transform R) :=
  if agree p.domain q.domain ∧ agree p.codomain q.codomain then .ok (sum p q)
  else .error .transformsDoNotFit

end Transform

end ForwardBackward
