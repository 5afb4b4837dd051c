/-
# ForwardBackward.Array.Entries -- the entries of an array, in row-major order

`Entries` is a list of numbers of one kind.  Every operation on two lists reads
both in the join of their kinds: `wholes`, `reals` and `complexes` read a list as
numbers of a given width or precision.  `gather` picks entries by position:
broadcasting, transposition, slices and reversal are all a `gather`.

A sum is a list of one entry, so sums of different kinds combine as entries do
(`total`); `first` reads the number.

Main facts: `length_gather`, `length_zipWith`, `length_mapInexact`,
`length_product`.
-/
import ForwardBackward.Array.Kind

namespace ForwardBackward

set_option autoImplicit false

/-- Numbers of one kind. -/
inductive Entries (R : Type) where
  | whole (w : Width) (xs : List Int)
  | real (p : Precision) (xs : List R)
  | complex (p : Precision) (zs : List (Cartesian R))
  deriving DecidableEq, Repr

/-- How an operation on two numbers acts on each kind. -/
structure Rule (R : Type) where
  whole : Width → Int → Int → Int
  real : Precision → R → R → R
  complex : Precision → Cartesian R → Cartesian R → Cartesian R

/-- A test of two numbers of one kind. -/
structure Test (R : Type) where
  whole : Int → Int → Bool
  real : Precision → R → R → Bool
  complex : Precision → Cartesian R → Cartesian R → Bool

namespace Rule

variable {R : Type} [Scalar R]

def add : Rule R := ⟨fun w x y => w.wrap (x + y), Precision.add, Cartesian.add⟩
def sub : Rule R := ⟨fun w x y => w.wrap (x - y), Precision.sub, Cartesian.sub⟩
def mul : Rule R := ⟨fun w x y => w.wrap (x * y), Precision.mul, Cartesian.mul⟩

/-- The product of the conjugate of the first number with the second. -/
def conjMul : Rule R :=
  ⟨fun w x y => w.wrap (x * y), Precision.mul, fun p z w => Cartesian.mul p z.conj w⟩

/-- The larger number.  Complex numbers have none, and the first is kept. -/
def max : Rule R := ⟨fun _ x y => if x < y then y else x, Precision.max, fun _ z _ => z⟩

/-- The smaller number.  Complex numbers have none, and the first is kept. -/
def min : Rule R := ⟨fun _ x y => if y < x then y else x, Precision.min, fun _ z _ => z⟩

end Rule

namespace Test

variable {R : Type} [Scalar R]

def le : Test R := ⟨fun x y => x ≤ y, Precision.le, Cartesian.le⟩

end Test

namespace Entries

variable {R : Type} [Scalar R]

def kind : Entries R → Kind
  | whole w _ => .whole w
  | real p _ => .real p
  | complex p _ => .complex p

def length : Entries R → Nat
  | whole _ xs => xs.length
  | real _ xs => xs.length
  | complex _ zs => zs.length

/-- `n` zeros. -/
def zeros (n : Nat) : Kind → Entries R
  | .whole w => whole w (List.replicate n 0)
  | .real p => real p (List.replicate n 0)
  | .complex p => complex p (List.replicate n Cartesian.zero)

/-- `n` ones. -/
def ones (n : Nat) : Kind → Entries R
  | .whole w => whole w (List.replicate n 1)
  | .real p => real p (List.replicate n 1)
  | .complex p => complex p (List.replicate n (.ofReal 1))

/-! ## Reading entries in another kind -/

/-- The entries as whole numbers: fractions are cut off, imaginary parts dropped. -/
def wholes (w : Width) : Entries R → List Int
  | whole _ xs => xs.map w.wrap
  | real p xs => xs.map (w.ofFraction p)
  | complex p zs => zs.map fun z => w.ofFraction p z.re

/-- The entries as real numbers: imaginary parts are dropped. -/
def reals (q : Precision) : Entries R → List R
  | whole _ xs => xs.map (Scalar.nearest q)
  | real p xs => xs.map (Precision.convert p q)
  | complex p zs => zs.map fun z => Precision.convert p q z.re

/-- The entries as complex numbers. -/
def complexes (q : Precision) : Entries R → List (Cartesian R)
  | whole _ xs => xs.map fun n => .ofReal (Scalar.nearest q n)
  | real p xs => xs.map fun x => .ofReal (Precision.convert p q x)
  | complex p zs => zs.map (Cartesian.convert p q)

/-- The entries stored in another kind. -/
def cast (k : Kind) (a : Entries R) : Entries R :=
  match k with
  | .whole w => whole w (a.wholes w)
  | .real p => real p (a.reals p)
  | .complex p => complex p (a.complexes p)

/-- The entries of an array made from numbers. -/
def enter (a : Entries R) : Entries R :=
  match a with
  | whole w xs => whole w.enter xs
  | real .bare xs => real .loose xs
  | a => a

/-! ## Entry by entry -/

/-- An operation entry by entry. -/
def zipWith (f : Rule R) (a b : Entries R) : Entries R :=
  match a.kind.join b.kind with
  | .whole w => whole w (List.zipWith (f.whole w) (a.wholes w) (b.wholes w))
  | .real p => real p (List.zipWith (f.real p) (a.reals p) (b.reals p))
  | .complex p => complex p (List.zipWith (f.complex p) (a.complexes p) (b.complexes p))

/-- A test entry by entry, as truth values. -/
def compare (t : Test R) (a b : Entries R) : Entries R :=
  let flag (b : Bool) : Int := if b then 1 else 0
  match a.kind.join b.kind with
  | .whole w =>
      whole .flag (List.zipWith (fun x y => flag (t.whole x y)) (a.wholes w) (b.wholes w))
  | .real p =>
      whole .flag (List.zipWith (fun x y => flag (t.real p x y)) (a.reals p) (b.reals p))
  | .complex p =>
      whole .flag
        (List.zipWith (fun z w => flag (t.complex p z w)) (a.complexes p) (b.complexes p))

/-- A function on every entry; whole numbers are read as fractions. -/
def mapInexact (f : Precision → R → R) (g : Precision → Cartesian R → Cartesian R) :
    Entries R → Entries R
  | whole w xs => real w.inexact (xs.map fun n => f w.inexact (Scalar.ofInt n))
  | real p xs => real p (xs.map (f p))
  | complex p zs => complex p (zs.map (g p))

def neg : Entries R → Entries R
  | whole w xs =>
      let w := w.join w
      whole w (xs.map fun n => w.wrap (-n))
  | real p xs => real p (xs.map (-·))
  | complex p zs => complex p (zs.map Cartesian.neg)

def conj : Entries R → Entries R
  | complex p zs => complex p (zs.map Cartesian.conj)
  | a => a

/-- The entries times a complex number of the program; real ones become complex. -/
def scaleComplex (c : Cartesian R) (a : Entries R) : Entries R :=
  let p := match a.kind with
    | .whole w => w.inexact
    | .real p | .complex p => p
  complex p ((a.complexes p).map (Cartesian.mul p (c.convert .bare p)))

/-- The modulus of every entry. -/
def magnitudes : Entries R → Entries R
  | whole w xs => whole w (xs.map fun n => w.wrap n.natAbs)
  | real p xs => real p (xs.map Scalar.abs)
  | complex p zs => real p (zs.map (Cartesian.abs p))

/-- The squared modulus of every entry. -/
def squares : Entries R → Entries R
  | whole w xs => whole w (xs.map fun n => w.wrap (n * n))
  | real p xs => real p (xs.map fun x => p.mul x x)
  | complex p zs => real p (zs.map (Cartesian.normSq p))

/-- Whether an entry is not zero, for every entry. -/
def nonzeros : Entries R → Entries R
  | whole _ xs => whole .flag (xs.map Width.flag.wrap)
  | real p xs => whole .flag (xs.map fun x => if p.eq x 0 then 0 else 1)
  | complex p zs => whole .flag (zs.map fun z => if z.isZero p then 0 else 1)

def allFinite : Entries R → Bool
  | whole _ _ => true
  | real _ xs => xs.all Scalar.isFinite
  | complex _ zs => zs.all Cartesian.isFinite

/-- Whether no entry is zero. -/
def allTrue (a : Entries R) : Bool := (a.wholes .flag).all (· != 0)

/-! ## Rearrangement -/

/-- The entries at the given positions; a position out of range has a zero. -/
def gather (n : Nat) (position : Nat → Nat) : Entries R → Entries R
  | whole w xs =>
      let a := xs.toArray
      whole w ((List.range n).map fun k => a.getD (position k) 0)
  | real p xs =>
      let a := xs.toArray
      real p ((List.range n).map fun k => a.getD (position k) 0)
  | complex p zs =>
      let a := zs.toArray
      complex p ((List.range n).map fun k => a.getD (position k) .zero)

/-- One list after another, in the join of their kinds. -/
def append (a b : Entries R) : Entries R :=
  match a.kind.join b.kind with
  | .whole w => whole w (a.wholes w ++ b.wholes w)
  | .real p => real p (a.reals p ++ b.reals p)
  | .complex p => complex p (a.complexes p ++ b.complexes p)

/-! ## Sums -/

/-- The sum of the entries; whole numbers are summed in the wide width. -/
def sum : Entries R → Entries R
  | whole _ xs => whole .word64 [Width.word64.sum xs]
  | real p xs => real p.firm [p.sum xs]
  | complex p zs => complex p [Cartesian.sum p zs]

/-- The sum of several sums, from left to right, added to a first one. -/
def total (start : Entries R) (sums : List (Entries R)) : Entries R :=
  sums.foldl (zipWith .add) start

/-- Zero as a whole number, outside arrays. -/
def zero : Entries R := whole .bare [0]

/-- Zero as a number of an array that gives way. -/
def looseZero : Entries R := real .loose [0]

/-- The real part of the first entry. -/
def first : Entries R → R
  | whole _ xs => Scalar.ofInt (xs.headD 0)
  | real _ xs => xs.headD 0
  | complex _ zs => (zs.headD .zero).re

/-- The product of a row and a column: products in the join of the kinds, added up there. -/
def dot (f : Rule R) (a b : Entries R) : Entries R :=
  match a.kind.join b.kind with
  | .whole w => whole w [w.sum (List.zipWith (f.whole w) (a.wholes w) (b.wholes w))]
  | .real p => real p [p.sum (List.zipWith (f.real p) (a.reals p) (b.reals p))]
  | .complex p =>
      complex p [Cartesian.sum p (List.zipWith (f.complex p) (a.complexes p) (b.complexes p))]

/-- Whether the join of two kinds is narrower than a kind of them: a loose whole number that
meets a narrow one. -/
def narrows (a b : Entries R) : Bool :=
  match a.kind, b.kind with
  | .whole .word32, .whole .loose | .whole .loose, .whole .word32 => true
  | _, _ => false

/-- A list cut into `count` pieces of `n` members. -/
def pieces {α : Type} (count n : Nat) (xs : List α) : List (List α) :=
  match count with
  | 0 => []
  | count + 1 => xs.take n :: pieces count n (xs.drop n)

/-- The table of `f` over the rows of one matrix and the columns of another. -/
def table {α : Type} (f : List α → List α → α) (rows n columns : Nat) (xs ys : List α) : List α :=
  (pieces rows n xs).flatMap fun r => (pieces columns n ys).map (f r)

/-- The tables over `count` pairs of matrices, one after the other. -/
def tables {α : Type} (f : List α → List α → α) (count rows n columns : Nat) (xs ys : List α) :
    List α :=
  (List.zipWith (table f rows n columns) (pieces count (rows * n) xs)
    (pieces count (columns * n) ys)).flatten

/-- The products of `count` pairs of matrices: `rows` rows with `columns` columns of length
`n`, row by row. -/
def product (count rows n columns : Nat) (a b : Entries R) : Entries R :=
  match a.kind.join b.kind with
  | .whole w =>
      let f (r c : List Int) : Int := w.sum (List.zipWith (· * ·) r c)
      whole w (tables f count rows n columns (a.wholes w) (b.wholes w))
  | .real p =>
      let f (r c : List R) : R := p.sum (List.zipWith p.mul r c)
      real p (tables f count rows n columns (a.reals p) (b.reals p))
  | .complex p =>
      let f (r c : List (Cartesian R)) : Cartesian R :=
        Cartesian.sum p (List.zipWith (Cartesian.mul p) r c)
      complex p (tables f count rows n columns (a.complexes p) (b.complexes p))

/-! ## Kinds -/

theorem kind_cast (k : Kind) (a : Entries R) : (a.cast k).kind = k := by
  cases k <;> rfl

theorem kind_zeros (n : Nat) (k : Kind) : (zeros n k : Entries R).kind = k := by
  cases k <;> rfl

/-! ## Lengths -/

theorem length_wholes (w : Width) (a : Entries R) : (a.wholes w).length = a.length := by
  cases a <;> simp [wholes, length]

theorem length_reals (p : Precision) (a : Entries R) : (a.reals p).length = a.length := by
  cases a <;> simp [reals, length]

theorem length_complexes (p : Precision) (a : Entries R) :
    (a.complexes p).length = a.length := by
  cases a <;> simp [complexes, length]

theorem length_gather (n : Nat) (position : Nat → Nat) (a : Entries R) :
    (gather n position a).length = n := by
  cases a <;> simp [gather, length]

theorem length_zeros (n : Nat) (k : Kind) : (zeros n k : Entries R).length = n := by
  cases k <;> simp [zeros, length]

theorem length_ones (n : Nat) (k : Kind) : (ones n k : Entries R).length = n := by
  cases k <;> simp [ones, length]

theorem length_mapInexact (f : Precision → R → R) (g : Precision → Cartesian R → Cartesian R)
    (a : Entries R) : (mapInexact f g a).length = a.length := by
  cases a <;> simp [mapInexact, length]

theorem length_zipWith (f : Rule R) (a b : Entries R) :
    (zipWith f a b).length = min a.length b.length := by
  unfold zipWith
  split <;> simp [length, length_wholes, length_reals, length_complexes]

theorem length_compare (t : Test R) (a b : Entries R) :
    (compare t a b).length = min a.length b.length := by
  unfold compare
  split <;> simp [length, length_wholes, length_reals, length_complexes]

theorem length_append (a b : Entries R) : (append a b).length = a.length + b.length := by
  unfold append
  split <;> simp [length, length_wholes, length_reals, length_complexes]

theorem length_cast (k : Kind) (a : Entries R) : (cast k a).length = a.length := by
  cases k <;> simp [cast, length, length_wholes, length_reals, length_complexes]

theorem length_neg (a : Entries R) : a.neg.length = a.length := by
  cases a <;> simp [neg, length]

theorem length_conj (a : Entries R) : a.conj.length = a.length := by
  cases a <;> simp [conj, length]

theorem length_scaleComplex (c : Cartesian R) (a : Entries R) :
    (a.scaleComplex c).length = a.length := by
  simp [scaleComplex, length, length_complexes]

theorem length_magnitudes (a : Entries R) : a.magnitudes.length = a.length := by
  cases a <;> simp [magnitudes, length]

theorem length_pieces {α : Type} (count n : Nat) (xs : List α) :
    (pieces count n xs).length = count := by
  induction count generalizing xs with
  | zero => rfl
  | succ count ih => simp [pieces, ih]

theorem length_flatMap_map {α : Type} (f : List α → List α → α) (rows columns : List (List α)) :
    (rows.flatMap fun r => columns.map (f r)).length = rows.length * columns.length := by
  induction rows with
  | nil => simp
  | cons r rows ih => simp [ih, Nat.succ_mul, Nat.add_comm]

theorem length_table {α : Type} (f : List α → List α → α) (rows n columns : Nat)
    (xs ys : List α) : (table f rows n columns xs ys).length = rows * columns := by
  simp only [table, length_flatMap_map, length_pieces]

theorem length_flatten_zipWith {α β : Type} (g : β → β → List α) (m : Nat)
    (h : ∀ x y, (g x y).length = m) (xs ys : List β) :
    (List.zipWith g xs ys).flatten.length = min xs.length ys.length * m := by
  induction xs generalizing ys with
  | nil => simp
  | cons x xs ih =>
    cases ys with
    | nil => simp
    | cons y ys => simp [h, ih, Nat.succ_min_succ, Nat.succ_mul, Nat.add_comm]

theorem length_tables {α : Type} (f : List α → List α → α) (count rows n columns : Nat)
    (xs ys : List α) :
    (tables f count rows n columns xs ys).length = count * (rows * columns) := by
  rw [tables, length_flatten_zipWith _ (rows * columns) fun x y => length_table f rows n columns x y,
    length_pieces, length_pieces, Nat.min_self]

theorem length_product (count rows n columns : Nat) (a b : Entries R) :
    (product count rows n columns a b).length = count * (rows * columns) := by
  unfold product
  split <;> simp only [length, length_tables]

end Entries

end ForwardBackward
