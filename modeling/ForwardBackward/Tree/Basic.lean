/-
# ForwardBackward.Tree.Basic -- trees

A `Tree` is a skeleton and as many leaves, in leaf order: depth first, the
children of a node from left to right.  Everything that is done to the leaves of
a tree is done to a list, and `fits` keeps the list as long as the skeleton
wants it.

Two trees are combined along the first one: `under` puts beside each of its
leaves what the second tree has in that place, which may be a node.  `combine`
wants a leaf there when the turn of that place comes; `combineSame` wants trees
of one skeleton from the beginning.
-/
import ForwardBackward.Tree.Skeleton
import ForwardBackward.Fault

namespace ForwardBackward

set_option autoImplicit false

/-- A tree with leaves of type `α`. -/
structure Tree (α : Type) where
  skeleton : Skeleton
  leaves : List α
  fits : leaves.length = skeleton.leafCount

/-- A function that may refuse, applied to every member of a list from left to right. -/
def traverseList {α β ε : Type} (f : α → Except ε β) :
    (xs : List α) → Except ε { ys : List β // ys.length = xs.length }
  | [] => .ok ⟨[], rfl⟩
  | x :: xs => do
      let y ← f x
      let ⟨ys, h⟩ ← traverseList f xs
      pure ⟨y :: ys, by simp [h]⟩

namespace Tree

variable {α β γ : Type}

/-- The tree without leaves. -/
def empty : Tree α := ⟨.empty, [], rfl⟩

instance : Inhabited (Tree α) := ⟨empty⟩

/-- The tree that is one leaf. -/
def leaf (a : α) : Tree α := ⟨.leaf, [a], rfl⟩

theorem length_flatMap_leaves (ts : List (Tree α)) :
    (ts.flatMap leaves).length = Skeleton.leafCounts (ts.map skeleton) := by
  induction ts with
  | nil => rfl
  | cons t ts ih => simp [Skeleton.leafCounts, t.fits, ← ih]

/-- A node over children. -/
def node (label : Label) (ts : List (Tree α)) : Tree α :=
  ⟨.node label (ts.map skeleton), ts.flatMap leaves, by
    simpa [Skeleton.leafCount] using length_flatMap_leaves ts⟩

def map (f : α → β) (t : Tree α) : Tree β :=
  ⟨t.skeleton, t.leaves.map f, by simp [t.fits]⟩

/-- A function that may refuse, applied to every leaf. -/
def traverse (f : α → Except Fault β) (t : Tree α) : Except Fault (Tree β) := do
  let ⟨ys, h⟩ ← traverseList f t.leaves
  pure ⟨t.skeleton, ys, by rw [h, t.fits]⟩

/-- Trees of the given skeletons from all their leaves in order. -/
def deal : (ss : List Skeleton) → (xs : List α) → xs.length = Skeleton.leafCounts ss →
    List (Tree α)
  | [], _, _ => []
  | s :: ss, xs, h =>
      ⟨s, xs.take s.leafCount, by simp [Skeleton.leafCounts] at h; simp; omega⟩
        :: deal ss (xs.drop s.leafCount) (by simp [Skeleton.leafCounts] at h; simp; omega)

theorem length_deal (ss : List Skeleton) (xs : List α)
    (h : xs.length = Skeleton.leafCounts ss) : (deal ss xs h).length = ss.length := by
  induction ss generalizing xs with
  | nil => rfl
  | cons s ss ih => simp [deal, ih]

/-- The label and the children of a tree that is a node. -/
def children? (t : Tree α) : Option (Label × List (Tree α)) :=
  match h : t.skeleton with
  | .leaf => none
  | .node label cs => some (label, deal cs t.leaves (by rw [t.fits, h, Skeleton.leafCount]))

/-- The leaves of a tree, each with what a second tree has in its place. -/
def under (t : Tree α) (u : Tree β) : Except Fault (Tree (α × Tree β)) :=
  match h : t.skeleton.parts u.skeleton with
  | none => .error .treesDiffer
  | some ps =>
    .ok ⟨t.skeleton,
      t.leaves.zip (deal ps u.leaves (by rw [Skeleton.leafCounts_parts _ _ h, u.fits])), by
        rw [List.length_zip, length_deal, Skeleton.length_parts _ _ h, t.fits, Nat.min_self]⟩

/-- The array of a tree that is one leaf. -/
def asLeaf? (t : Tree α) : Option α :=
  match t.skeleton, t.leaves with
  | .leaf, [a] => some a
  | _, _ => none

/-- A tree combined with what a second tree has in the places of its leaves. -/
def combineParts (f : α → Tree β → Except Fault γ) (t : Tree α) (u : Tree β) :
    Except Fault (Tree γ) := do
  (← t.under u).traverse fun p => f p.1 p.2

/-- Two trees combined leaf by leaf. -/
def combine (f : α → β → Except Fault γ) : Tree α → Tree β → Except Fault (Tree γ) :=
  combineParts fun a u =>
    match u.asLeaf? with
    | some b => f a b
    | none => .error .arrayMeetsNode

/-- Two trees of one skeleton combined leaf by leaf. -/
def combineSame (f : α → β → Except Fault γ) (t : Tree α) (u : Tree β) :
    Except Fault (Tree γ) :=
  if t.skeleton = u.skeleton then combine f t u else .error .treesDiffer

end Tree

end ForwardBackward
