/-
# ForwardBackward.Source -- what a caller may name as the operator

A problem is given by an operator, by a transform, by an array with two axes or a
sequence of arrays that makes one, or by nested rows of numbers; `toOperator`
makes an operator of each of them, and refuses everything else.  Rows become an array if every entry is a number, rows of
one level have one length, and no number is too large.  What is wrong is found
in this order: a missing entry, an entry that is no number, rows of different
length, a number that is too large.

`withData` attaches a data term: the operator `L x - b`.  An operator that
carries an offset already takes no data term.
-/
import ForwardBackward.Call

namespace ForwardBackward

set_option autoImplicit false

/-- Nested rows of entries. -/
inductive Rows (R : Type) where
  | entry (b : Bare R)
  /-- A missing entry. -/
  | nothing
  /-- An entry that is not a number. -/
  | foreign
  | row (members : List (Rows R))

/-- What a caller may name as the operator. -/
inductive Source (σ R : Type) [Scalar R] where
  | operator (A : Operator σ R)
  | transform (t : Transform R)
  | data (x : Vec R)
  | rows (members : List (Rows R))
  | other (typeName : String)

namespace Rows

variable {R : Type} [Scalar R]

mutual
/-- Whether an entry is missing. -/
def hasNothing : Rows R → Bool
  | nothing => true
  | row ms => haveNothing ms
  | _ => false

def haveNothing : List (Rows R) → Bool
  | [] => false
  | m :: ms => hasNothing m || haveNothing ms
end

mutual
/-- The entries from left to right; refused if one is not a number. -/
def entries : Rows R → Except Fault (List (Bare R))
  | entry b => .ok [b]
  | nothing => .error .nothingInArray
  | foreign => .error .entryNotANumber
  | row ms => entriesOf ms

def entriesOf : List (Rows R) → Except Fault (List (Bare R))
  | [] => .ok []
  | m :: ms => do pure ((← entries m) ++ (← entriesOf ms))
end

mutual
/-- The shape; `none` if members of one row differ in shape. -/
def shape? : Rows R → Option (List Nat)
  | row ms =>
    match shapesOf ms with
    | none => none
    | some [] => some [0]
    | some (s :: ss) => if ss.all (· = s) then some ((ss.length + 1) :: s) else none
  | _ => some []

def shapesOf : List (Rows R) → Option (List (List Nat))
  | [] => some []
  | m :: ms =>
    match shape? m, shapesOf ms with
    | some s, some ss => some (s :: ss)
    | _, _ => none
end

/-- The array of nested rows, as fractions. -/
def toArray (r : Rows R) : Except Fault (NDArray R) := do
  if r.hasNothing then throw .nothingInArray
  let bs ← r.entries
  match r.shape? with
  | none => throw .raggedRows
  | some s =>
    let members ← NDArray.unify (bs.map NDArray.ofBare)
    pure (((NDArray.concat members).toFractional .double).reshape s)

end Rows

namespace Source

variable {σ R : Type} [Scalar R]

/-- The array of a vector that is one, or a sequence of several. -/
def arrayOf (x : Vec R) : Except Fault (NDArray R) :=
  match x.children? with
  | some (label, _) =>
    if label.isSequence then x.toArray else .error (.notAnOperator label.typeName)
  | none => do
    let a ← x.theArray
    match a.bare? with
    | some b => throw (.notAnOperator b.typeName)
    | none => pure a

/-- The operator a source stands for. -/
def toOperator : Source σ R → Except Fault (Operator σ R)
  | operator A => .ok A
  | transform t => .ok (.ofTransform t)
  | data x => do pure (.ofTransform (← Transform.ofMatrix (← arrayOf x)))
  | rows ms => do pure (.ofTransform (← Transform.ofMatrix (← (Rows.row ms).toArray)))
  | other typeName => .error (.notAnOperator typeName)

end Source

/-- The operator of the smooth term with a data term, if there is one. -/
def Operator.withData {σ R : Type} [Scalar R] (A : Operator σ R) :
    Option (Vec R) → Except Fault (Operator σ R)
  | none => .ok A
  | some b => do
      if !A.isLinear then throw .dataTermOnAffine
      A.affine (← b.toInexact)

end ForwardBackward
