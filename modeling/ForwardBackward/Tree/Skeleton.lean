/-
# ForwardBackward.Tree.Skeleton -- the nesting of a tree, without its leaves

A skeleton is a leaf, or a node with a label and children.  Labels tell apart
the empty node, lists, tuples and dictionaries; the children of a dictionary
stand in the order of their keys.

Two trees are combined along the skeleton of the first one: the second has to
have a node of the same label wherever the first has one, and what the second
has in the place of a leaf of the first is one `part` of it, a leaf or not
(`parts`).

Main facts: the parts are as many as the leaves of the first skeleton
(`length_parts`) and hold all leaves of the second (`leafCounts_parts`); a
skeleton has the parts of itself, all of them leaves (`parts_self`); `text` is
what a message shows.
-/
import ForwardBackward.Text.Quoted

namespace ForwardBackward

set_option autoImplicit false

/-- What kind of node holds the children. -/
inductive Label where
  | empty
  | list
  | tuple
  | dict (keys : List String)
  deriving DecidableEq, Repr

namespace Label

/-- The kind of container that a label stands for. -/
def typeName : Label → String
  | empty => "NoneType"
  | list => "list"
  | tuple => "tuple"
  | dict _ => "dict"

/-- Whether the children stand in a sequence of their own. -/
def isSequence : Label → Bool
  | list | tuple => true
  | _ => false

end Label

/-- The nesting of a tree. -/
inductive Skeleton where
  | leaf
  | node (label : Label) (children : List Skeleton)

namespace Skeleton

/-- The empty node, a tree without leaves. -/
def empty : Skeleton := node .empty []

mutual
/-- The number of leaves. -/
def leafCount : Skeleton → Nat
  | leaf => 1
  | node _ cs => leafCounts cs

def leafCounts : List Skeleton → Nat
  | [] => 0
  | c :: cs => leafCount c + leafCounts cs
end

mutual
/-- Whether there is an empty node anywhere. -/
def hasEmpty : Skeleton → Bool
  | leaf => false
  | node label cs => label = .empty || haveEmpty cs

def haveEmpty : List Skeleton → Bool
  | [] => false
  | c :: cs => hasEmpty c || haveEmpty cs
end

mutual
/-- What a second skeleton has in the places of the leaves of a first one; nothing if a
node of the first has no counterpart. -/
def parts : Skeleton → Skeleton → Option (List Skeleton)
  | leaf, t => some [t]
  | node _ _, leaf => none
  | node l cs, node k ds => if l = k then partsOf cs ds else none

def partsOf : List Skeleton → List Skeleton → Option (List Skeleton)
  | [], [] => some []
  | c :: cs, d :: ds =>
      match parts c d, partsOf cs ds with
      | some ps, some qs => some (ps ++ qs)
      | _, _ => none
  | _, _ => none
end

mutual
def decEq : (s t : Skeleton) → Decidable (s = t)
  | leaf, leaf => isTrue rfl
  | leaf, node _ _ => isFalse (by simp)
  | node _ _, leaf => isFalse (by simp)
  | node l cs, node k ds =>
      match (inferInstance : Decidable (l = k)), decEqs cs ds with
      | isTrue hl, isTrue hc => isTrue (by rw [hl, hc])
      | isFalse hl, _ => isFalse (by simp [hl])
      | _, isFalse hc => isFalse (by simp [hc])

def decEqs : (ss ts : List Skeleton) → Decidable (ss = ts)
  | [], [] => isTrue rfl
  | [], _ :: _ => isFalse (by simp)
  | _ :: _, [] => isFalse (by simp)
  | c :: cs, d :: ds =>
      match decEq c d, decEqs cs ds with
      | isTrue hc, isTrue hs => isTrue (by rw [hc, hs])
      | isFalse hc, _ => isFalse (by simp [hc])
      | _, isFalse hs => isFalse (by simp [hs])
end

instance : DecidableEq Skeleton := decEq

mutual
def textBody : Skeleton → String
  | leaf => "*"
  | node label cs =>
      match label with
      | .empty => "None"
      | .list => "[" ++ String.intercalate ", " (textBodies cs) ++ "]"
      | .tuple =>
          match textBodies cs with
          | [t] => "(" ++ t ++ ",)"
          | ts => "(" ++ String.intercalate ", " ts ++ ")"
      | .dict keys =>
          "\x7b" ++ String.intercalate ", "
            (List.zipWith (fun k t => Text.quoted k ++ ": " ++ t) keys (textBodies cs)) ++ "\x7d"

def textBodies : List Skeleton → List String
  | [] => []
  | c :: cs => textBody c :: textBodies cs
end

/-- A skeleton as a message shows it. -/
def text (s : Skeleton) : String := "PyTreeDef(" ++ textBody s ++ ")"

theorem leafCounts_append (ss ts : List Skeleton) :
    leafCounts (ss ++ ts) = leafCounts ss + leafCounts ts := by
  induction ss with
  | nil => simp [leafCounts]
  | cons s ss ih => simp [leafCounts, ih, Nat.add_assoc]

mutual
theorem length_parts : (s t : Skeleton) → {ps : List Skeleton} → parts s t = some ps →
    ps.length = leafCount s
  | leaf, t, ps, h => by
      simp only [parts, Option.some.injEq] at h
      subst h
      rfl
  | node _ _, leaf, ps, h => by simp [parts] at h
  | node l cs, node k ds, ps, h => by
      by_cases hl : l = k
      · simp only [parts, hl, if_true] at h
        simpa [leafCount] using length_partsOf cs ds h
      · simp [parts, hl] at h

theorem length_partsOf : (ss ts : List Skeleton) → {ps : List Skeleton} →
    partsOf ss ts = some ps → ps.length = leafCounts ss
  | [], [], ps, h => by
      simp only [partsOf, Option.some.injEq] at h
      subst h
      rfl
  | [], _ :: _, ps, h => by simp [partsOf] at h
  | _ :: _, [], ps, h => by simp [partsOf] at h
  | c :: cs, d :: ds, ps, h => by
      cases hc : parts c d with
      | none => simp [partsOf, hc] at h
      | some qs =>
        cases hs : partsOf cs ds with
        | none => simp [partsOf, hc, hs] at h
        | some rs =>
          simp only [partsOf, hc, hs, Option.some.injEq] at h
          subst h
          simp [leafCounts, length_parts c d hc, length_partsOf cs ds hs]
end

mutual
theorem leafCounts_parts : (s t : Skeleton) → {ps : List Skeleton} → parts s t = some ps →
    leafCounts ps = leafCount t
  | leaf, t, ps, h => by
      simp only [parts, Option.some.injEq] at h
      subst h
      simp [leafCounts]
  | node _ _, leaf, ps, h => by simp [parts] at h
  | node l cs, node k ds, ps, h => by
      by_cases hl : l = k
      · simp only [parts, hl, if_true] at h
        simpa [leafCount] using leafCounts_partsOf cs ds h
      · simp [parts, hl] at h

theorem leafCounts_partsOf : (ss ts : List Skeleton) → {ps : List Skeleton} →
    partsOf ss ts = some ps → leafCounts ps = leafCounts ts
  | [], [], ps, h => by
      simp only [partsOf, Option.some.injEq] at h
      subst h
      rfl
  | [], _ :: _, ps, h => by simp [partsOf] at h
  | _ :: _, [], ps, h => by simp [partsOf] at h
  | c :: cs, d :: ds, ps, h => by
      cases hc : parts c d with
      | none => simp [partsOf, hc] at h
      | some qs =>
        cases hs : partsOf cs ds with
        | none => simp [partsOf, hc, hs] at h
        | some rs =>
          simp only [partsOf, hc, hs, Option.some.injEq] at h
          subst h
          simp [leafCounts, leafCounts_append, leafCounts_parts c d hc, leafCounts_partsOf cs ds hs]
end

mutual
theorem parts_self : (s : Skeleton) → parts s s = some (List.replicate (leafCount s) leaf)
  | leaf => rfl
  | node l cs => by simpa [parts, leafCount] using partsOf_self cs

theorem partsOf_self : (ss : List Skeleton) →
    partsOf ss ss = some (List.replicate (leafCounts ss) leaf)
  | [] => rfl
  | c :: cs => by
      simp [partsOf, parts_self c, partsOf_self cs, leafCounts, List.replicate_append_replicate]
end

end Skeleton

end ForwardBackward
