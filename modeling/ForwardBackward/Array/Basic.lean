/-
# ForwardBackward.Array.Basic -- arrays of any shape

An `NDArray` is a shape and as many entries, in row-major order.  Operations on
two arrays *broadcast*: shapes are compared from the last axis on, an axis of
length one is repeated, and a missing axis counts as one of length one
(`broadcast`, `expandTo`).  Arrays of equal shape are combined entry by entry
without that detour.

A bare number is an array without axes of a bare kind.  Bare numbers are
computed with among themselves; before one meets an array it becomes an array
itself (`asArray`), and a whole number that does not fit into 64 bits is refused.

A number of the program meets an array in the array's own precision (`scale`,
`shift`): it is rounded first.
-/
import ForwardBackward.Array.Entries
import ForwardBackward.Bare
import ForwardBackward.Fault

namespace ForwardBackward

set_option autoImplicit false

/-- How many entries a shape has. -/
def volume (shape : List Nat) : Nat := shape.foldr (· * ·) 1

theorem volume_append (s t : List Nat) : volume (s ++ t) = volume s * volume t := by
  induction s with
  | nil => simp [volume]
  | cons n s ih =>
    simp only [volume, List.cons_append, List.foldr_cons] at ih ⊢
    rw [ih, Nat.mul_assoc]

/-- The shape and kind of an array. -/
structure Spec where
  shape : List Nat
  kind : Kind
  deriving DecidableEq, Repr

/-- An array. -/
structure NDArray (R : Type) [Scalar R] where
  shape : List Nat
  entries : Entries R
  fits : entries.length = volume shape

/-- The common shape of two shapes, both given from the last axis on. -/
def commonShape : List Nat → List Nat → Option (List Nat)
  | [], ns => some ns
  | ms, [] => some ms
  | m :: ms, n :: ns =>
      match commonShape ms ns with
      | none => none
      | some rest =>
        if m = n then some (m :: rest)
        else if m = 1 then some (n :: rest)
        else if n = 1 then some (m :: rest)
        else none

/-- The shape two arrays are repeated to when they are combined. -/
def broadcast (s t : List Nat) : Option (List Nat) :=
  (commonShape s.reverse t.reverse).map List.reverse

/-- The position in an array of shape `source` of what stands at position `k`
after repetition to shape `target`, both shapes given from the last axis on. -/
def sourcePosition : List Nat → List Nat → Nat → Nat
  | m :: source, n :: target, k =>
      (if m = 1 then 0 else k % n) + m * sourcePosition source target (k / n)
  | _, _, _ => 0

theorem commonShape_self : ∀ s : List Nat, commonShape s s = some s
  | [] => rfl
  | n :: s => by simp [commonShape, commonShape_self s]

theorem broadcast_self (s : List Nat) : broadcast s s = some s := by
  simp [broadcast, commonShape_self]

namespace NDArray

variable {R : Type} [Scalar R]

def kind (a : NDArray R) : Kind := a.entries.kind

/-- The shape, and the kind that the entries are kept in. -/
def spec (a : NDArray R) : Spec := ⟨a.shape, a.kind.firm⟩

/-- The number of entries. -/
def size (a : NDArray R) : Nat := volume a.shape

def zeros (s : Spec) : NDArray R :=
  ⟨s.shape, Entries.zeros (volume s.shape) s.kind, Entries.length_zeros _ _⟩

/-- Entries in row-major order under a shape; zeros if they are not as many as it has. -/
def ofEntries (shape : List Nat) (e : Entries R) : NDArray R :=
  if h : e.length = volume shape then ⟨shape, e, h⟩ else zeros ⟨shape, e.kind⟩

/-- Ones of double precision. -/
def ones (shape : List Nat) : NDArray R :=
  ⟨shape, Entries.ones (volume shape) (.real .double), Entries.length_ones _ _⟩

/-- Entries gathered into a shape. -/
def gathered (shape : List Nat) (position : Nat → Nat) (a : Entries R) : NDArray R :=
  ⟨shape, a.gather (volume shape) position, Entries.length_gather _ _ _⟩

/-- The entries in one row. -/
def flatten (a : NDArray R) : NDArray R :=
  ⟨[a.size], a.entries, by simp [size, volume, a.fits]⟩

/-- The entries in a row-major array of another shape. -/
def reshape (shape : List Nat) (a : NDArray R) : NDArray R := gathered shape id a.entries

/-- The array repeated to a shape. -/
def expandTo (shape : List Nat) (a : NDArray R) : NDArray R :=
  gathered shape (sourcePosition a.shape.reverse shape.reverse) a.entries

/-- The same entries stored in another kind. -/
def cast (k : Kind) (a : NDArray R) : NDArray R :=
  ⟨a.shape, a.entries.cast k, by rw [Entries.length_cast, a.fits]⟩

/-- The array with a fractional part: whole numbers become numbers of precision `p`. -/
def toFractional (p : Precision) (a : NDArray R) : NDArray R :=
  match a.kind with
  | .whole _ => a.cast (.real p)
  | _ => a

def conj (a : NDArray R) : NDArray R :=
  ⟨a.shape, a.entries.conj, by rw [Entries.length_conj, a.fits]⟩

def neg (a : NDArray R) : NDArray R :=
  ⟨a.shape, a.entries.neg, by rw [Entries.length_neg, a.fits]⟩

/-- The moduli of the entries. -/
def magnitudes (a : NDArray R) : NDArray R :=
  ⟨a.shape, a.entries.magnitudes, by rw [Entries.length_magnitudes, a.fits]⟩

def allFinite (a : NDArray R) : Bool := a.entries.allFinite

/-! ## Bare numbers -/

/-- A fraction of the program. -/
def ofNumber (x : R) : NDArray R := ⟨[], .real .bare [x], rfl⟩

def ofBare : Bare R → NDArray R
  | .flag b => ⟨[], .whole .bareFlag [if b then 1 else 0], rfl⟩
  | .whole n => ⟨[], .whole .bare [n], rfl⟩
  | .fraction x => ofNumber x

def isBare (a : NDArray R) : Bool := a.kind.isBare

/-- The number that is no array. -/
def bare? (a : NDArray R) : Option (Bare R) :=
  match a.entries with
  | .whole .bareFlag xs => some (.flag (xs.headD 0 != 0))
  | .whole .bare xs => some (.whole (xs.headD 0))
  | .real .bare xs => some (.fraction (xs.headD 0))
  | _ => none

/-- The array that a bare number becomes; its whole numbers wrap around. -/
def enter (a : NDArray R) : NDArray R :=
  ⟨a.shape, (if a.isBare then a.entries.cast a.kind.enter else a.entries), by
    split <;> simp [Entries.length_cast, a.fits]⟩

/-- Whether entries of a kind can hold the number: a whole number has to be in the range of
whole numbers, and below the infinite fractions. -/
def fitsKind (k : Kind) (a : NDArray R) : Bool :=
  match a.entries, k with
  | .whole .bare xs, .whole w => xs.all fun n => w.wrap n = n
  | .whole .bare xs, _ => xs.all fun n => Scalar.isFinite (Scalar.ofInt n : R)
  | _, _ => true

/-- The array read in a kind; a bare number that the kind cannot hold is refused. -/
def asKind (k : Kind) (a : NDArray R) : Except Fault (NDArray R) :=
  if a.fitsKind k then .ok (a.cast k) else .error .numberTooLarge

/-- The array itself, or the one that a bare number becomes; a number that no array can
hold is refused. -/
def asArray (a : NDArray R) : Except Fault (NDArray R) :=
  if a.fitsKind a.kind.enter then .ok a.enter else .error .numberTooLarge

/-- The array if it is none of the bare numbers, which have no such `property`. -/
def requireArray (property : String) (a : NDArray R) : Except Fault (NDArray R) :=
  match a.bare? with
  | none => .ok a
  | some b => .error (.noAttribute b.typeName property)

/-! ## An array and a number -/

/-- A function on every entry; whole numbers are read as fractions. -/
def map (f : Precision → R → R) (g : Precision → Cartesian R → Cartesian R) (a : NDArray R) :
    NDArray R :=
  ⟨a.shape, a.entries.mapInexact f g, by rw [Entries.length_mapInexact, a.fits]⟩

/-- The array times a number. -/
def scale (c : R) (a : NDArray R) : NDArray R :=
  a.map (fun p x => p.mul (p.ofNumber c) x) fun p z => Cartesian.mul p (.ofReal (p.ofNumber c)) z

/-- The array times a complex number. -/
def scaleComplex (c : Cartesian R) (a : NDArray R) : NDArray R :=
  ⟨a.shape, a.entries.scaleComplex c, by rw [Entries.length_scaleComplex, a.fits]⟩

/-- The array with a number added to every entry. -/
def shift (c : R) (a : NDArray R) : NDArray R :=
  a.map (fun p x => p.add x (p.ofNumber c)) fun p z => Cartesian.add p z (.ofReal (p.ofNumber c))

/-- The array divided by a number.  A bare number has no quotient by zero. -/
def divide (a : NDArray R) (c : R) : Except Fault (NDArray R) :=
  if a.isBare && Scalar.eq c 0 then .error .divisionByZero
  else .ok (a.map (fun p x => p.div x (p.ofNumber c))
    fun p z => Cartesian.divReal p z (p.ofNumber c))

/-! ## Two arrays -/

/-- Why two shapes have no common one. -/
def clash (s t : List Nat) : Fault :=
  if s.length = t.length then .shapesClash else .ranksClash

/-- An operation entry by entry on two arrays of one shape. -/
def zipSame (f : Rule R) (a b : NDArray R) (h : a.shape = b.shape) : NDArray R :=
  ⟨a.shape, a.entries.zipWith f b.entries, by
    rw [Entries.length_zipWith, a.fits, b.fits, h, Nat.min_self]⟩

/-- An operation entry by entry on two arrays of any shapes. -/
def zipArrays (f : Rule R) (a b : NDArray R) : Except Fault (NDArray R) :=
  if h : a.shape = b.shape then .ok (zipSame f a b h)
  else
    match broadcast a.shape b.shape with
    | none => .error (clash a.shape b.shape)
    | some s => .ok (zipSame f (a.expandTo s) (b.expandTo s) rfl)

/-- Two arrays as they meet: bare numbers among themselves, or both as arrays. -/
def meet (a b : NDArray R) : Except Fault (NDArray R × NDArray R) :=
  if a.isBare && b.isBare then .ok (a, b) else do pure (← a.asArray, ← b.asArray)

/-- An operation entry by entry. -/
def zipWith (f : Rule R) (a b : NDArray R) : Except Fault (NDArray R) := do
  let (a, b) ← meet a b
  zipArrays f a b

/-- Whether each entry is at most its counterpart, as truth values. -/
def le (a b : NDArray R) : Except Fault (NDArray R) :=
  match a.bare?, b.bare? with
  | some x, some y => .ok (ofBare (.flag (x.le y)))
  | _, _ => do
    let a ← a.asArray
    let b ← b.asArray
    match broadcast a.shape b.shape with
    | none => .error (clash a.shape b.shape)
    | some s =>
      .ok ⟨s, (a.expandTo s).entries.compare .le (b.expandTo s).entries, by
        simp [Entries.length_compare, expandTo, gathered, Entries.length_gather]⟩

def add (a b : NDArray R) : Except Fault (NDArray R) := zipWith .add a b

/-- The difference; truth values have none. -/
def sub (a b : NDArray R) : Except Fault (NDArray R) :=
  if a.kind.join b.kind = .whole .flag then .error .differenceOfFlags
  else zipWith .sub a b

def mul (a b : NDArray R) : Except Fault (NDArray R) := zipWith .mul a b

/-- The inner product as a sum of one entry, the first array conjugated.  Only
the numbers of entries have to agree. -/
def dot (a b : NDArray R) : Except Fault (Entries R) := do
  let a ← a.asArray
  let b ← b.asArray
  if a.size ≠ b.size then throw .shapesClash
  if a.entries.narrows b.entries then throw .narrowedProduct
  pure (Entries.dot .conjMul a.entries b.entries)

/-- The array `a` over a part of the shape and kind of `slot`: repeated to its shape, stored
in its kind.  A part without entries stays as it is. -/
def storedIn (slot a : NDArray R) : Except Fault (NDArray R) :=
  if slot.size = 0 then .ok slot
  else if a.shape.length ≤ slot.shape.length ∧ broadcast slot.shape a.shape = some slot.shape then
    .ok ((if a.shape = slot.shape then a else a.expandTo slot.shape).cast slot.kind)
  else .error .partDoesNotFit

/-- An array that is no bare number is itself among arrays. -/
theorem asArray_of_firm {c : NDArray R} (firm : c.isBare = false) :
    c.enter = c ∧ c.asArray = .ok c := by
  have entered : c.enter = c := by
    unfold enter
    simp only [firm, Bool.false_eq_true, if_false]
  have fits : c.fitsKind c.kind.enter = true := by
    unfold fitsKind
    split
    · next same _ => simp [isBare, kind, same, Entries.kind, Kind.isBare, Width.isBare] at firm
    · next same _ => simp [isBare, kind, same, Entries.kind, Kind.isBare, Width.isBare] at firm
    · rfl
  refine ⟨entered, ?_⟩
  unfold asArray
  rw [if_pos fits, entered]

theorem shape_toFractional (p : Precision) (a : NDArray R) :
    (a.toFractional p).shape = a.shape := by
  unfold toFractional
  split <;> rfl

end NDArray

end ForwardBackward
