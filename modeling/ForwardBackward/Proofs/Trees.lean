/-
# ForwardBackward.Proofs.Trees -- trees of one skeleton

Where two trees have one skeleton, every leaf of the first one meets a leaf of the
second one, and nothing is refused but by the function on the leaves
(`combineParts_same`, `combine_same`).

A tree is `Leafwise` in a relation to another one if it has its skeleton and every
leaf is in the relation to the leaf in its place.  What the leaves keep when they
are combined, the tree keeps (`Leafwise.combineParts`, `Leafwise.of_combineParts`,
`Leafwise.kept`).
-/
import ForwardBackward.Proofs.Computations
import ForwardBackward.Tree.Basic
import Mathlib.Data.List.Forall2

namespace ForwardBackward

set_option autoImplicit false

theorem traverseList_of_forall {α β ε : Type} {f : α → Except ε β} {xs : List α} {ys : List β}
    (each : List.Forall₂ (fun x y => f x = .ok y) xs ys) :
    ∃ h, traverseList f xs = .ok ⟨ys, h⟩ := by
  induction each with
  | nil => exact ⟨rfl, rfl⟩
  | cons head _ ih =>
      obtain ⟨h, tail⟩ := ih
      refine ⟨by simp [h], ?_⟩
      simp only [traverseList, head, tail]
      rfl

theorem forall_of_traverseList {α β ε : Type} {f : α → Except ε β} {xs : List α}
    {ys : { ys : List β // ys.length = xs.length }} (done : traverseList f xs = .ok ys) :
    List.Forall₂ (fun x y => f x = .ok y) xs ys.1 := by
  induction xs with
  | nil =>
      cases done
      exact .nil
  | cons x xs ih =>
      rw [traverseList, bind_accepts] at done
      obtain ⟨y, head, done⟩ := done
      rw [bind_accepts] at done
      obtain ⟨zs, tail, done⟩ := done
      cases done
      exact .cons head (ih tail)

/-! ## Two lists side by side -/

section Zipped

variable {α β γ δ : Type} {P : δ → α → Prop} {Q : δ → β → Prop} {S : δ → γ → Prop}
  {f : α → β → γ → Prop} {ps : List δ} {as : List α} {bs : List β} {cs : List γ}

/-- Where every two members in one place give something, the lists do. -/
theorem forall_zip (left : List.Forall₂ P ps as) (right : List.Forall₂ Q ps bs)
    (each : ∀ p ∈ ps, ∀ a b, P p a → Q p b → ∃ c, f a b c) :
    ∃ cs, List.Forall₂ (fun p c => f p.1 p.2 c) (as.zip bs) cs := by
  induction left generalizing bs with
  | nil => exact ⟨[], by simp⟩
  | @cons p a ps as head _ ih =>
      cases right with
      | @cons _ b _ bs head' right =>
          obtain ⟨c, made⟩ := each p List.mem_cons_self a b head head'
          obtain ⟨cs, rest⟩ := ih right fun p inside => each p (List.mem_cons_of_mem _ inside)
          exact ⟨c :: cs, .cons made rest⟩

theorem forall_of_zip (left : List.Forall₂ P ps as) (right : List.Forall₂ Q ps bs)
    (each : ∀ p a b c, P p a → Q p b → f a b c → S p c)
    (made : List.Forall₂ (fun p c => f p.1 p.2 c) (as.zip bs) cs) : List.Forall₂ S ps cs := by
  induction left generalizing bs cs with
  | nil =>
      rw [List.zip_nil_left] at made
      cases made
      exact .nil
  | cons head _ ih =>
      cases right with
      | cons head' right =>
          cases made with
          | cons first made => exact .cons (each _ _ _ _ head head' first) (ih right made)

/-- The members of the second list may be replaced by what gives the same. -/
theorem forall_zip_replaced {ε : Type} {g : β → ε} {h : α → ε → γ → Prop}
    (left : List.Forall₂ P ps as) (right : List.Forall₂ Q ps bs)
    (each : ∀ p a b c, P p a → Q p b → f a b c → h a (g b) c)
    (made : List.Forall₂ (fun p c => f p.1 p.2 c) (as.zip bs) cs) :
    List.Forall₂ (fun p c => h p.1 p.2 c) (as.zip (bs.map g)) cs := by
  induction left generalizing bs cs with
  | nil =>
      rw [List.zip_nil_left] at made ⊢
      cases made
      exact .nil
  | cons head _ ih =>
      cases right with
      | cons head' right =>
          cases made with
          | cons first made => exact .cons (each _ _ _ _ head head' first) (ih right made)

/-- What the members of the first list give, whatever stands beside them. -/
theorem forall_of_zip_left (left : List.Forall₂ P ps as)
    (each : ∀ p a b c, P p a → f a b c → S p c) (length : bs.length = as.length)
    (made : List.Forall₂ (fun p c => f p.1 p.2 c) (as.zip bs) cs) : List.Forall₂ S ps cs := by
  induction left generalizing bs cs with
  | nil =>
      rw [List.zip_nil_left] at made
      cases made
      exact .nil
  | cons head _ ih =>
      cases bs with
      | nil => simp at length
      | cons b bs =>
          cases made with
          | cons first made =>
              refine .cons (each _ _ _ _ head first) (ih ?_ made)
              simpa using length

theorem forall_zip_map {g : β → γ} (left : List.Forall₂ P ps as) (right : List.Forall₂ Q ps bs)
    (each : ∀ p a b, P p a → Q p b → f a b (g b)) :
    List.Forall₂ (fun p c => f p.1 p.2 c) (as.zip bs) (bs.map g) := by
  induction left generalizing bs with
  | nil =>
      cases right
      exact .nil
  | cons head _ ih =>
      cases right with
      | cons head' right => exact .cons (each _ _ _ head head') (ih right)

/-- What two lists have in common with a third one. -/
theorem forall_of_common {rel : α → β → Prop} (left : List.Forall₂ P ps as)
    (right : List.Forall₂ Q ps bs) (each : ∀ p a b, P p a → Q p b → rel a b) :
    List.Forall₂ rel as bs := by
  induction left generalizing bs with
  | nil =>
      cases right
      exact .nil
  | cons head _ ih =>
      cases right with
      | cons head' right => exact .cons (each _ _ _ head head') (ih right)

/-- Members that give the same beside anything. -/
theorem forall_zip_congr {as' : List α}
    (alike : List.Forall₂ (fun a a' => ∀ b c, f a b c → f a' b c) as as')
    (made : List.Forall₂ (fun p c => f p.1 p.2 c) (as.zip bs) cs) :
    List.Forall₂ (fun p c => f p.1 p.2 c) (as'.zip bs) cs := by
  induction alike generalizing bs cs with
  | nil => simpa using made
  | cons head _ ih =>
      cases bs with
      | nil => simpa using made
      | cons b bs =>
          cases made with
          | cons first made => exact .cons (head _ _ first) (ih made)

/-- What the members of both lists owe to what they give. -/
theorem forall_sides_of_zip {rel : α → β → Prop} {F : α → Prop} {G : β → Prop} {H : γ → Prop}
    (sides : List.Forall₂ rel as bs)
    (back : ∀ a b c, rel a b → f a b c → H c → F a ∧ G b)
    (made : List.Forall₂ (fun p c => f p.1 p.2 c) (as.zip bs) cs) (all : ∀ c ∈ cs, H c) :
    (∀ a ∈ as, F a) ∧ ∀ b ∈ bs, G b := by
  induction sides generalizing cs with
  | nil => simp
  | cons related _ ih =>
      cases made with
      | cons first made =>
          obtain ⟨here, rest⟩ := List.forall_mem_cons.mp all
          obtain ⟨left, right⟩ := back _ _ _ related first here
          obtain ⟨lefts, rights⟩ := ih made rest
          exact ⟨List.forall_mem_cons.mpr ⟨left, lefts⟩, List.forall_mem_cons.mpr ⟨right, rights⟩⟩

theorem exists_of_mem_right {rel : α → β → Prop} (each : List.Forall₂ rel as bs) {b : β}
    (inside : b ∈ bs) : ∃ a ∈ as, rel a b := by
  induction each with
  | nil => cases inside
  | cons head _ ih =>
      rcases List.mem_cons.mp inside with rfl | inside
      · exact ⟨_, List.mem_cons_self, head⟩
      · obtain ⟨a, member, related⟩ := ih inside
        exact ⟨a, List.mem_cons_of_mem _ member, related⟩

/-- What holds of the members of the second list, in terms of both. -/
theorem forall_mem_right_iff {rel G : α → β → Prop} {F : β → Prop}
    (each : List.Forall₂ rel as bs) (same : ∀ a b, rel a b → (F b ↔ G a b)) :
    (∀ b ∈ bs, F b) ↔ List.Forall₂ G as bs := by
  induction each with
  | nil => simp
  | cons head _ ih => rw [List.forall_mem_cons, List.forall₂_cons, ih, same _ _ head]

end Zipped

namespace Tree

variable {α β γ : Type}

theorem traverse_of_forall {f : α → Except Fault β} {t : Tree α} {ys : List β}
    (each : List.Forall₂ (fun x y => f x = .ok y) t.leaves ys) :
    ∃ fits, t.traverse f = .ok ⟨t.skeleton, ys, fits⟩ := by
  obtain ⟨h, traversed⟩ := traverseList_of_forall each
  refine ⟨h.trans t.fits, ?_⟩
  simp only [traverse, traversed]
  rfl

/-- A function that keeps every leaf keeps the tree. -/
theorem traverse_self {f : α → Except Fault α} {t : Tree α}
    (each : ∀ a ∈ t.leaves, f a = .ok a) : t.traverse f = .ok t := by
  obtain ⟨_, traversed⟩ := traverse_of_forall (f := f) (List.forall₂_same.mpr each)
  exact traversed

theorem forall_of_traverse {f : α → Except Fault β} {t : Tree α} {u : Tree β}
    (done : t.traverse f = .ok u) :
    u.skeleton = t.skeleton ∧ List.Forall₂ (fun x y => f x = .ok y) t.leaves u.leaves := by
  rw [traverse, bind_accepts] at done
  obtain ⟨ys, traversed, done⟩ := done
  cases done
  exact ⟨rfl, forall_of_traverseList traversed⟩

/-- Dealt to leaves alone, every member is a tree of its own. -/
theorem deal_replicate (n : Nat) (xs : List α)
    (h : xs.length = Skeleton.leafCounts (List.replicate n .leaf)) :
    deal (List.replicate n .leaf) xs h = xs.map leaf := by
  induction n generalizing xs with
  | zero =>
      obtain rfl := List.length_eq_zero_iff.mp h
      rfl
  | succ n ih =>
      cases xs with
      | nil =>
          simp only [List.replicate_succ, Skeleton.leafCounts, Skeleton.leafCount,
            List.length_nil] at h
          omega
      | cons x xs =>
          simp only [List.replicate_succ, deal, Skeleton.leafCount, List.map_cons]
          rw [ih]
          rfl

theorem under_same {t : Tree α} {u : Tree β} (same : t.skeleton = u.skeleton) :
    ∃ fits, t.under u = .ok ⟨t.skeleton, t.leaves.zip (u.leaves.map leaf), fits⟩ := by
  have parts : t.skeleton.parts u.skeleton =
      some (List.replicate t.skeleton.leafCount .leaf) := by
    rw [← same, Skeleton.parts_self]
  refine ⟨by simp [t.fits, u.fits, same], ?_⟩
  unfold under
  split
  · next none => simp [parts] at none
  · next ps found =>
      obtain rfl : List.replicate t.skeleton.leafCount .leaf = ps := by
        simpa [parts] using found
      simp only [deal_replicate]

/-- Trees of one skeleton are combined leaf by leaf. -/
theorem combineParts_same {f : α → Tree β → Except Fault γ} {t : Tree α} {u : Tree β}
    {cs : List γ} (same : t.skeleton = u.skeleton)
    (each : List.Forall₂ (fun p c => f p.1 (leaf p.2) = .ok c) (t.leaves.zip u.leaves) cs) :
    ∃ fits, combineParts f t u = .ok ⟨t.skeleton, cs, fits⟩ := by
  obtain ⟨fits, under⟩ := under_same same
  have parts : List.Forall₂ (fun p c => f p.1 p.2 = .ok c)
      (t.leaves.zip (u.leaves.map leaf)) cs := by
    rw [List.zip_map_right, List.forall₂_map_left_iff]
    exact each
  obtain ⟨traversedFits, traversed⟩ := traverse_of_forall
    (t := ⟨t.skeleton, t.leaves.zip (u.leaves.map leaf), fits⟩) parts
  refine ⟨traversedFits, ?_⟩
  simp only [combineParts, under]
  exact traversed

theorem combine_same {f : α → β → Except Fault γ} {t : Tree α} {u : Tree β} {cs : List γ}
    (same : t.skeleton = u.skeleton)
    (each : List.Forall₂ (fun p c => f p.1 p.2 = .ok c) (t.leaves.zip u.leaves) cs) :
    ∃ fits, combine f t u = .ok ⟨t.skeleton, cs, fits⟩ :=
  combineParts_same same each

attribute [ext] Tree

theorem leaf_inj {a b : α} (same : leaf a = leaf b) : a = b :=
  (List.cons.inj (congrArg leaves same)).1

/-- What stands beside the leaves of a tree depends on its skeleton alone. -/
theorem under_zip {t t' : Tree α} {u : Tree β} {beside : Tree (α × Tree β)}
    (same : t'.skeleton = t.skeleton) (found : t.under u = .ok beside) :
    beside.skeleton = t.skeleton ∧ ∃ ws, ws.length = t.leaves.length ∧
      beside.leaves = t.leaves.zip ws ∧
      ∃ fits, t'.under u = .ok ⟨t'.skeleton, t'.leaves.zip ws, fits⟩ := by
  obtain ⟨skeleton, as, fitsA⟩ := t
  obtain ⟨skeleton', bs, fitsB⟩ := t'
  obtain rfl : skeleton' = skeleton := same
  unfold under at found ⊢
  split at found
  · cases found
  · next ps parts =>
      cases found
      refine ⟨rfl, _, ?_, rfl, ?_⟩
      · simp only [length_deal, Skeleton.length_parts _ _ parts, fitsA]
      · split
        · next none => simp [none] at parts
        · next qs parts' =>
            obtain rfl : ps = qs := by simpa [parts] using parts'
            exact ⟨by simp [length_deal, Skeleton.length_parts _ _ parts, fitsB], rfl⟩

/-- What a combination returns comes of the leaves of the first tree, each with some part of
the second one. -/
theorem forall_of_combineParts {f : α → Tree β → Except Fault γ} {t : Tree α} {u : Tree β}
    {v : Tree γ} (done : combineParts f t u = .ok v) :
    v.skeleton = t.skeleton ∧ ∃ ws : List (Tree β), ws.length = t.leaves.length ∧
      List.Forall₂ (fun p c => f p.1 p.2 = .ok c) (t.leaves.zip ws) v.leaves := by
  rw [combineParts, bind_accepts] at done
  obtain ⟨beside, parts, done⟩ := done
  obtain ⟨skeleton, each⟩ := forall_of_traverse done
  obtain ⟨skeleton', ws, length, leaves, _⟩ := under_zip rfl parts
  rw [leaves] at each
  exact ⟨skeleton.trans skeleton', ws, length, each⟩

theorem forall_of_combineParts_same {f : α → Tree β → Except Fault γ} {t : Tree α} {u : Tree β}
    {v : Tree γ} (same : t.skeleton = u.skeleton) (done : combineParts f t u = .ok v) :
    v.skeleton = t.skeleton ∧
      List.Forall₂ (fun p c => f p.1 (leaf p.2) = .ok c) (t.leaves.zip u.leaves) v.leaves := by
  obtain ⟨fits, under⟩ := under_same same
  simp only [combineParts, under] at done
  obtain ⟨skeleton, each⟩ := forall_of_traverse done
  refine ⟨skeleton, ?_⟩
  simpa [List.zip_map_right, List.forall₂_map_left_iff] using each

/-- Two trees whose leaves are alike to a function give the same with a third tree. -/
theorem combineParts_congr {f : α → Tree β → Except Fault γ} {t t' : Tree α} {u : Tree β}
    {v : Tree γ} (same : t'.skeleton = t.skeleton)
    (alike : List.Forall₂ (fun a b => ∀ w, f b w = f a w) t.leaves t'.leaves)
    (done : combineParts f t u = .ok v) : combineParts f t' u = .ok v := by
  rw [combineParts, bind_accepts] at done
  obtain ⟨beside, parts, done⟩ := done
  obtain ⟨skeleton, each⟩ := forall_of_traverse done
  obtain ⟨skeleton', ws, _, leaves, fits, parts'⟩ := under_zip same parts
  rw [leaves] at each
  have onward : ∀ a b, (∀ w, f b w = f a w) → ∀ w c, f a w = .ok c → f b w = .ok c := by
    intro a b same w c made
    rw [same w, made]
  have zipped := forall_zip_congr (f := fun a w c => f a w = .ok c) (alike.imp onward) each
  obtain ⟨_, traversed⟩ := traverse_of_forall
    (t := ⟨t'.skeleton, t'.leaves.zip ws, fits⟩) zipped
  simp only [combineParts, parts']
  refine traversed.trans (congrArg Except.ok ?_)
  ext1
  · exact same.trans (skeleton.trans skeleton').symm
  · rfl

/-- A tree of the skeleton of another one, with every leaf in a relation to the leaf there. -/
structure Leafwise (rel : α → β → Prop) (s : Tree α) (t : Tree β) : Prop where
  skeleton : t.skeleton = s.skeleton
  leaves : List.Forall₂ rel s.leaves t.leaves

namespace Leafwise

variable {δ ε : Type} {P : δ → α → Prop} {Q : δ → β → Prop} {S : δ → γ → Prop} {s : Tree δ}
  {t : Tree α} {u : Tree β} {v : Tree γ}

theorem eq_leaf {p : δ} (ht : Leafwise P (leaf p) t) : ∃ a, t = leaf a ∧ P p a := by
  obtain ⟨skeleton, leaves⟩ := ht
  obtain ⟨s, as, fits⟩ := t
  obtain rfl : s = .leaf := skeleton
  cases leaves with
  | cons head rest =>
      cases rest
      exact ⟨_, rfl, head⟩

/-- Two trees of one skeleton are combined if their leaves are. -/
theorem combineParts {f : α → Tree β → Except Fault γ} (ht : Leafwise P s t)
    (hu : Leafwise Q s u)
    (each : ∀ p ∈ s.leaves, ∀ a b, P p a → Q p b → ∃ c, f a (leaf b) = .ok c) :
    ∃ v, Tree.combineParts f t u = .ok v := by
  obtain ⟨cs, made⟩ := forall_zip ht.leaves hu.leaves each
  obtain ⟨_, done⟩ := combineParts_same (ht.skeleton.trans hu.skeleton.symm) made
  exact ⟨_, done⟩

/-- What the combined leaves are, the combined tree is. -/
theorem of_combineParts {f : α → Tree β → Except Fault γ} (ht : Leafwise P s t)
    (hu : Leafwise Q s u) (done : Tree.combineParts f t u = .ok v)
    (each : ∀ p a b c, P p a → Q p b → f a (leaf b) = .ok c → S p c) : Leafwise S s v := by
  obtain ⟨skeleton, made⟩ :=
    forall_of_combineParts_same (ht.skeleton.trans hu.skeleton.symm) done
  exact ⟨skeleton.trans ht.skeleton, forall_of_zip ht.leaves hu.leaves each made⟩

theorem combine {f : α → β → Except Fault γ} (ht : Leafwise P s t) (hu : Leafwise Q s u)
    (each : ∀ p ∈ s.leaves, ∀ a b, P p a → Q p b → ∃ c, f a b = .ok c) :
    ∃ v, Tree.combine f t u = .ok v :=
  ht.combineParts hu each

theorem of_combine {f : α → β → Except Fault γ} (ht : Leafwise P s t) (hu : Leafwise Q s u)
    (done : Tree.combine f t u = .ok v)
    (each : ∀ p a b c, P p a → Q p b → f a b = .ok c → S p c) : Leafwise S s v :=
  ht.of_combineParts hu done each

/-- The leaves of the second tree may be replaced by what gives the same. -/
theorem combine_replaced {f : α → β → Except Fault γ} {h : α → ε → Except Fault γ} {g : β → ε}
    (ht : Leafwise P s t) (hu : Leafwise Q s u)
    (each : ∀ p a b c, P p a → Q p b → f a b = .ok c → h a (g b) = .ok c)
    (done : Tree.combine f t u = .ok v) : Tree.combine h t (u.map g) = .ok v := by
  have same : t.skeleton = u.skeleton := ht.skeleton.trans hu.skeleton.symm
  obtain ⟨skeleton, made⟩ := forall_of_combineParts_same same done
  have made' := forall_zip_replaced (f := fun a b c => f a b = .ok c)
    (h := fun a b c => h a b = .ok c) ht.leaves hu.leaves each made
  obtain ⟨_, replaced⟩ := combine_same (u := u.map g) same made'
  exact replaced.trans (congrArg Except.ok (Tree.ext skeleton.symm rfl))

theorem map {f : α → β} (ht : Leafwise P s t) (each : ∀ p ∈ s.leaves, ∀ a, P p a → Q p (f a)) :
    Leafwise Q s (t.map f) := by
  refine ⟨ht.skeleton, ?_⟩
  change List.Forall₂ Q s.leaves (t.leaves.map f)
  rw [List.forall₂_map_right_iff]
  refine ((List.forall₂_and_left _ _).mpr ⟨fun _ inside => inside, ht.leaves⟩).imp ?_
  rintro p a ⟨inside, related⟩
  exact each p inside a related

/-- What the leaves of the first tree keep, whatever they meet, the tree keeps. -/
theorem kept {f : α → Tree β → Except Fault γ} (ht : Leafwise P s t)
    (done : Tree.combineParts f t u = .ok v)
    (each : ∀ p a w c, P p a → f a w = .ok c → S p c) : Leafwise S s v := by
  obtain ⟨skeleton, ws, length, made⟩ := forall_of_combineParts done
  exact ⟨skeleton.trans ht.skeleton, forall_of_zip_left ht.leaves each length made⟩

end Leafwise

end Tree

end ForwardBackward
