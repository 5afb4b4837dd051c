/-
# ForwardBackward.Transform.Function -- linear functions with their transposes

A linear map need not be stored as a matrix: a function and its transpose do.
`LinearFunction` pairs the two with the structures they lead from and to, and
refuses a vector of another structure.

The transpose is the plain one, `Σ (f x)ₖ yₖ = Σ xₖ (fᵀ y)ₖ`, without
conjugates.  Its result is stored in the kinds of the domain, so the transpose
of a map from real to complex vectors drops imaginary parts.

The catalogue: multiples (`scale`, `weights`, `pair`), rearrangements (`flip`,
`concat`, `split`), differences and running sums (`diff`, `cumsum`), the sum of
all entries (`sum`) and the product with a matrix (`matmul`).  Functions of one
array work along its first axis; those that only rearrange it also work on the
members of a sequence.
-/
import ForwardBackward.Vec
import ForwardBackward.Array.Matrix

namespace ForwardBackward

set_option autoImplicit false

/-- A linear function between vectors of two structures, and its transpose. -/
structure LinearFunction (R : Type) [Scalar R] where
  domain : Structure
  codomain : Structure
  map : Vec R → Except Fault (Vec R)
  transposedMap : Vec R → Except Fault (Vec R)

/-- The kind with a fractional part at every leaf: single precision for whole numbers. -/
def Structure.toInexact (s : Structure) : Structure :=
  s.map fun p => ⟨p.shape, p.kind.toFractional .single⟩

namespace Vec

variable {R : Type} [Scalar R]

/-- Whether a vector has a structure, kinds included. -/
def hasStructure (s : Structure) (x : Vec R) : Bool :=
  x.skeleton = s.skeleton ∧ x.leaves.map NDArray.spec = s.leaves

/-- The leaves stored in the kinds of a structure. -/
def castTo (s : Structure) (x : Vec R) : Except Fault (Vec R) :=
  Tree.combine (fun p a => .ok (a.cast p.kind)) s x

/-- The only leaf of a vector. -/
def theArray (x : Vec R) : Except Fault (NDArray R) :=
  match x.asLeaf? with
  | some a => .ok a
  | none => .error .nodeAgainstMatrix

/-- The only leaf of a vector; a container has no such `property`. -/
def requireLeaf (property : String) (x : Vec R) : Except Fault (NDArray R) :=
  match x.children? with
  | some (label, _) => .error (.noAttribute label.typeName property)
  | none => x.theArray

end Vec

namespace LinearFunction

variable {R : Type} [Scalar R]

/-- The value, for a vector of the domain; bare numbers are outside. -/
def apply (f : LinearFunction R) (x : Vec R) : Except Fault (Vec R) :=
  if x.hasStructure f.domain && !x.leaves.any NDArray.isBare then f.map x
  else .error .outsideDomain

/-- The transpose of a linear function. -/
def transpose (f : LinearFunction R) : LinearFunction R :=
  ⟨f.codomain, f.domain, f.transposedMap, f.map⟩

/-- The function with the structure of its values read off its value at zero. -/
def ofMaps (domain : Structure) (map transposed : Vec R → Except Fault (Vec R)) :
    Except Fault (LinearFunction R) := do
  let domain := domain.toInexact
  let codomain := Vec.spec (← map (Vec.zeros domain))
  pure ⟨domain, codomain, map, fun y => do Vec.castTo domain (← transposed y)⟩

/-- A function of one array. -/
def ofArrayMaps (domain : Structure) (map transposed : NDArray R → Except Fault (NDArray R)) :
    Except Fault (LinearFunction R) :=
  ofMaps domain (fun x => do pure (.leaf (← map (← x.theArray))))
    fun y => do pure (.leaf (← transposed (← y.theArray)))

/-- The shape of a structure that is one array; that of a number for any other. -/
def shapeOf (s : Structure) : List Nat := (s.asLeaf?.map Spec.shape).getD []

/-- The length of the first axis of a structure that is one array. -/
def firstAxis (s : Structure) : Except Fault Nat :=
  match s.asLeaf? with
  | none => .error .nodeAgainstMatrix
  | some p =>
    match p.shape with
    | n :: _ => .ok n
    | [] => .error .noAxis

/-- Why a container without an order has no parts. -/
def noParts : Label → Fault
  | .dict _ => .unhashable "slice"
  | label => .notSubscriptable label.typeName

/-- Why a container has no multiple by a fraction. -/
def noMultiple (label : Label) : Fault :=
  if label.isSequence then .sequenceTimes "float"
  else .unsupportedOperands "*" "float" label.typeName

def scale (c : R) (s : Structure) : Except Fault (LinearFunction R) :=
  ofMaps s (fun x => .ok (x.scale c)) fun y => .ok (y.scale c)

/-- The differences of neighbours. -/
def diff (s : Structure) : Except Fault (LinearFunction R) :=
  match s.children? with
  | some (label, _) =>
    .error (if label.isSequence then .unsupportedOperands "-" label.typeName label.typeName
      else noParts label)
  | none => do
    let n ← firstAxis s
    ofArrayMaps s (fun a => (a.slice 1 (n - 1)).sub (a.slice 0 (n - 1)))
      fun b => (b.pad 1 n).sub (b.pad 0 n)

/-- The members of a vector in reverse order: of a sequence, or along the first axis. -/
def reversed (x : Vec R) : Vec R :=
  match x.children? with
  | some (label, members) => .node label members.reverse
  | none => x.map NDArray.reverse

def flip (s : Structure) : Except Fault (LinearFunction R) :=
  match s.children? with
  | some (label, _) =>
    if label.isSequence then ofMaps s (fun x => .ok (reversed x)) fun y => .ok (reversed y)
    else .error (noParts label)
  | none => do
    let _ ← firstAxis s
    ofMaps s (fun x => .ok (reversed x)) fun y => .ok (reversed y)

def cumsum (s : Structure) : Except Fault (LinearFunction R) :=
  ofArrayMaps s (fun a => .ok a.runningSums)
    fun b => .ok (b.reverse.runningSums.reverse.window 0 (shapeOf s))

def sum (s : Structure) : Except Fault (LinearFunction R) :=
  ofArrayMaps s (fun a => .ok a.sumAll) fun b => .ok (b.expandTo (shapeOf s))

def matmul (m : NDArray R) (s : Structure) : Except Fault (LinearFunction R) :=
  ofArrayMaps s m.matmul (m.transposedMatmul (shapeOf s))

/-- The multiples of the members of a dictionary, each by a number of its own. -/
def weighed (ws : List (String × R)) : List String → List (Vec R) → Except Fault (List (Vec R))
  | key :: keys, x :: xs =>
    match ws.lookup key, x.children? with
    | none, _ => .error (.missingKey key)
    | some _, some (label, _) => .error (noMultiple label)
    | some c, none => do pure (x.scale c :: (← weighed ws keys xs))
  | _, _ => .ok []

/-- Each member of a dictionary times a number of its own. -/
def weights (ws : List (String × R)) (s : Structure) : Except Fault (LinearFunction R) :=
  let weigh (x : Vec R) : Except Fault (Vec R) :=
    match x.children? with
    | some (.dict keys, members) => do pure (.node (.dict keys) (← weighed ws keys members))
    | some (.empty, _) => .error (.notIterable Label.empty.typeName)
    | _ => .error .nodeAgainstMatrix
  ofMaps s weigh weigh

/-- All entries in one row, in leaf order. -/
def concat (s : Structure) : Except Fault (LinearFunction R) :=
  ofMaps s (fun x => if x.leaves.isEmpty then .error .transformsDoNotFit
      else .ok (.leaf (NDArray.concat x.leaves)))
    fun y => do
      let b ← y.theArray
      pure ⟨s.skeleton, b.windows 0 s.leaves, by rw [NDArray.length_windows, s.fits]⟩

/-- The place in a row of `n` members where a cut after `k` is; a negative `k` counts from
the end. -/
def cutAt (k : Int) (n : Nat) : Nat := if k < 0 then (n + k).toNat else Nat.min k.toNat n

/-- The two parts of a vector. -/
def headAndTail (head tail : Vec R) : Vec R := .node (.dict ["head", "tail"]) [head, tail]

/-- The first `k` members and the others: of a sequence, or along the first axis. -/
def split (k : Int) (s : Structure) : Except Fault (LinearFunction R) :=
  match s.children? with
  | some (label, members) =>
    let k := cutAt k members.length
    if label.isSequence then
      ofMaps s
        (fun x =>
          let xs := (x.children?.map (·.2)).getD []
          .ok (headAndTail (.node label (xs.take k)) (.node label (xs.drop k))))
        fun y =>
          let parts := (y.children?.map (·.2)).getD []
          .ok (.node label (parts.flatMap fun part => (part.children?.map (·.2)).getD []))
    else .error (noParts label)
  | none => do
    let n ← firstAxis s
    let k := cutAt k n
    ofMaps s
      (fun x => do
        let a ← x.theArray
        pure (headAndTail (.leaf (a.slice 0 k)) (.leaf (a.slice k (n - k)))))
      fun y =>
        match y.leaves with
        | [a, b] => do pure (.leaf (← (a.pad 0 n).add (b.pad k n)))
        | _ => .error .treesDiffer

/-- An array and a multiple of it. -/
def pair (c : R) (s : Structure) : Except Fault (LinearFunction R) :=
  match s.children? with
  | some (label, _) => .error (noMultiple label)
  | none =>
    ofMaps s (fun x => .ok (.node .tuple [x, x.scale c]))
      fun y =>
        match y.leaves with
        | [a, b] => Vec.add (.leaf a) (.leaf (b.scale c))
        | _ => .error .treesDiffer

end LinearFunction

end ForwardBackward
