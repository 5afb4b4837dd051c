/-
# ForwardBackward.Array.Axis -- along the first axis of an array

Parts, padding and reversal move members along the first axis and leave every
entry as it is.  `addedAt` adds an array to a part of another one, which keeps
its shape and kind.

`concat` puts the entries of several arrays in one row and `windows` cuts a row
up again.  `stack` makes arrays of one shape the members of one array along a
new first axis; `unify` reads arrays in one kind before.
-/
import ForwardBackward.Array.Basic

namespace ForwardBackward

set_option autoImplicit false

namespace Entries

variable {R : Type} [Scalar R]

/-- The sums of the members up to each member. -/
def partialSums {α : Type} (add : α → α → α) (start : α) : List α → List α
  | [] => []
  | x :: xs => add start x :: partialSums add (add start x) xs

def runningSums : Entries R → Entries R
  | whole w xs => whole w (partialSums (fun x y => w.wrap (x + y)) 0 xs)
  | real p xs => real p (partialSums p.add 0 xs)
  | complex p zs => complex p (partialSums (Cartesian.add p) .zero zs)

theorem length_partialSums {α : Type} (add : α → α → α) (start : α) (xs : List α) :
    (partialSums add start xs).length = xs.length := by
  induction xs generalizing start with
  | nil => rfl
  | cons x xs ih => simp [partialSums, ih]

theorem length_runningSums (a : Entries R) : a.runningSums.length = a.length := by
  cases a <;> simp [runningSums, length, length_partialSums]

theorem length_sum (a : Entries R) : a.sum.length = 1 := by
  cases a <;> rfl

end Entries

namespace NDArray

variable {R : Type} [Scalar R]

/-- The length of the first axis and the volume of the others. -/
def axes (a : NDArray R) : Nat × Nat :=
  match a.shape with
  | [] => (1, 1)
  | n :: rest => (n, volume rest)

/-- The shape with another length of the first axis. -/
def shapeWith (n : Nat) (a : NDArray R) : List Nat := n :: a.shape.drop 1

/-- `count` members along the first axis, from member `start` on; a member out of
range is zero. -/
def slice (start count : Nat) (a : NDArray R) : NDArray R :=
  gathered (a.shapeWith count) (fun k => k + start * a.axes.2) a.entries

/-- The members along the first axis with `front` zero members before them and
others behind, `count` in all. -/
def pad (front count : Nat) (a : NDArray R) : NDArray R :=
  let skipped := front * a.axes.2
  gathered (a.shapeWith count)
    (fun k => if k < skipped then a.entries.length else k - skipped) a.entries

/-- The members along the first axis in reverse order. -/
def reverse (a : NDArray R) : NDArray R :=
  gathered a.shape (fun k => (a.axes.1 - 1 - k / a.axes.2) * a.axes.2 + k % a.axes.2) a.entries

/-- The array with `b` added to `count` of its members, from member `start` on; refused if
`b` does not repeat to the shape of that part. -/
def addedAt (a : NDArray R) (start count : Nat) (b : NDArray R) : Except Fault (NDArray R) := do
  let b ← storedIn ((a.slice start count).cast (a.kind.join b.kind)) b
  pure ((← a.add (b.pad start a.axes.1)).cast a.kind)

/-- The sum of all entries. -/
def sumAll (a : NDArray R) : NDArray R := ⟨[], a.entries.sum, a.entries.length_sum⟩

/-- The running sums of all entries, in one row. -/
def runningSums (a : NDArray R) : NDArray R :=
  ⟨[a.size], a.entries.runningSums, by
    simp [Entries.length_runningSums, size, volume, a.fits]⟩

/-- One row from the entries of several arrays. -/
def concat : List (NDArray R) → NDArray R
  | [] => ⟨[0], .real .double [], rfl⟩
  | [a] => a.flatten
  | a :: rest =>
    let b := concat rest
    ⟨[a.size + b.size], a.entries.append b.entries, by
      simp [Entries.length_append, a.fits, b.fits, size, volume]⟩

/-- The entries from position `start` on, in a given shape. -/
def window (start : Nat) (shape : List Nat) (a : NDArray R) : NDArray R :=
  gathered shape (fun k => k + start) a.entries

/-- Consecutive windows of given shapes. -/
def windows (a : NDArray R) : Nat → List Spec → List (NDArray R)
  | _, [] => []
  | start, s :: rest => a.window start s.shape :: windows a (start + volume s.shape) rest

theorem length_windows (a : NDArray R) (start : Nat) (ss : List Spec) :
    (a.windows start ss).length = ss.length := by
  induction ss generalizing start with
  | nil => rfl
  | cons s ss ih => simp [windows, ih]

/-- Arrays of one shape as the members of one array along a new first axis; refused if the
shapes differ. -/
def stack : List (NDArray R) → Except Fault (NDArray R)
  | [] => .ok (concat [])
  | a :: rest =>
    if rest.all (·.shape = a.shape) then
      .ok ((concat (a :: rest)).reshape ((rest.length + 1) :: a.shape))
    else .error .raggedRows

/-- The kind of an array that holds several arrays: the join of what they are as arrays. -/
def jointKind : List (NDArray R) → Kind
  | [] => .real .double
  | a :: rest => (rest.foldl (fun k b => k.join b.kind.enter) a.kind.enter).firm

/-- Arrays read in their joint kind; a bare number that it cannot hold is refused. -/
def unify (members : List (NDArray R)) : Except Fault (List (NDArray R)) :=
  members.mapM (asKind (jointKind members))

end NDArray

end ForwardBackward
