/-
# ForwardBackward.Proofs.Slots -- what a slot keeps of a vector

The slots of a ring are shaped after a vector: they have its skeleton and its
shapes, and the kinds that its numbers are kept in (`Vec.Keeps`).  A vector
stored over a slot takes on those kinds, and the slot goes on keeping them
(`Keeps.fill`).  What was in the slot before plays no part (`fill_eq_of_keeps`).

A vector is `Like` a structure if it has these shapes and kinds and no bare
numbers.  Nothing is lost where such a vector is stored: the slot then holds the
same numbers, no longer loose (`fill_firm`).  For whole numbers that rests on
their range, and differences are in it (`Like.of_sub`).

All of this holds for every arithmetic.
-/
import ForwardBackward.Proofs.Trees
import ForwardBackward.History

namespace ForwardBackward

set_option autoImplicit false

/-! ## Widths and kinds -/

theorem Width.wrap_wrap (w : Width) (n : Int) : w.wrap (w.wrap n) = w.wrap n := by
  cases w with
  | flag | bareFlag =>
      simp only [wrap]
      split <;> simp
  | word32 | word64 | loose => simp [wrap, Int.bmod_bmod]
  | bare => rfl

/-- A width is wrapped to as it is kept, but for the numbers that have no bound. -/
theorem Width.wrap_firm {w : Width} (firm : w.isBare = false) (n : Int) :
    w.firm.wrap n = w.wrap n := by
  cases w with
  | bareFlag | bare => cases firm
  | _ => rfl

/-- Kinds that are kept alike meet in one that is kept alike. -/
theorem Kind.join_of_firm {k l : Kind} (same : k.firm = l.firm) (hk : k.isBare = false)
    (hl : l.isBare = false) :
    (k.join l).firm = k.firm ∧ (k.join l).isBare = false := by
  cases k with
  | whole v =>
      cases l with
      | whole w =>
          cases v <;> cases w <;>
            simp_all [Kind.join, Kind.firm, Kind.isBare, Width.join, Width.firm, Width.isBare]
      | _ => cases same
  | real p =>
      cases l with
      | real q =>
          cases p <;> cases q <;>
            simp_all [Kind.join, Kind.firm, Kind.isBare, Precision.join, Precision.firm]
      | _ => cases same
  | complex p =>
      cases l with
      | complex q =>
          cases p <;> cases q <;>
            simp_all [Kind.join, Kind.firm, Kind.isBare, Precision.join, Precision.firm]
      | _ => cases same

variable {R : Type} [Scalar R]

/-! ## Entries -/

namespace Entries

/-- The same numbers, kept in the kind they have in a slot. -/
def firm : Entries R → Entries R
  | whole w xs => whole w.firm xs
  | real p xs => real p.firm xs
  | complex p zs => complex p.firm zs

/-- Whole numbers in the range of their width. -/
def Wrapped : Entries R → Prop
  | whole w xs => ∀ n ∈ xs, w.wrap n = n
  | _ => True

theorem kind_firm {S : Type} (a : Entries S) : a.firm.kind = a.kind.firm := by
  cases a <;> rfl

theorem length_firm {S : Type} (a : Entries S) : a.firm.length = a.length := by
  cases a <;> rfl

/-- Stored in the kind they are kept in, numbers in range stay what they are. -/
theorem cast_firm {a : Entries R} (wrapped : a.Wrapped) (notBare : a.kind.isBare = false) :
    a.cast a.kind.firm = a.firm := by
  cases a with
  | whole w xs =>
      have kept : ∀ n ∈ xs, w.firm.wrap n = n := by
        intro n inside
        rw [Width.wrap_firm notBare, wrapped n inside]
      simp only [kind, Kind.firm, cast, wholes, firm]
      rw [List.map_congr_left kept, List.map_id']
  | real p xs =>
      have kept : ∀ x : R, Precision.convert p p.firm x = x :=
        Precision.convert_of_firm_eq p.firm_firm.symm
      simp only [kind, Kind.firm, cast, reals, firm, funext kept, List.map_id']
  | complex p zs =>
      have kept : ∀ z : Cartesian R, Cartesian.convert p p.firm z = z := by
        intro z
        simp only [Cartesian.convert, Precision.convert_of_firm_eq p.firm_firm.symm]
      simp only [kind, Kind.firm, cast, complexes, firm, funext kept, List.map_id']

/-- Differences are in range, whatever they are differences of. -/
theorem wrapped_sub (a b : Entries R) : (zipWith .sub a b).Wrapped := by
  unfold zipWith
  split
  · next w _ =>
      intro n inside
      rw [← List.map_uncurry_zip_eq_zipWith] at inside
      obtain ⟨⟨x, y⟩, _, rfl⟩ := List.mem_map.mp inside
      exact w.wrap_wrap (x - y)
  · trivial
  · trivial

theorem kind_zipWith (f : Rule R) (a b : Entries R) :
    (zipWith f a b).kind = a.kind.join b.kind := by
  unfold zipWith
  split <;> simp_all [kind]

end Entries

/-! ## Arrays -/

namespace NDArray

variable {p : Spec} {a b c slot : NDArray R}

/-- The same numbers, kept in the kind they have in a slot. -/
def firm (a : NDArray R) : NDArray R :=
  ⟨a.shape, a.entries.firm, by rw [Entries.length_firm, a.fits]⟩

/-- An array of this shape, in this kind and no other. -/
structure Keeps (p : Spec) (a : NDArray R) : Prop where
  shape : a.shape = p.shape
  kind : a.kind = p.kind

/-- An array, no bare number, that has this shape and is kept in this kind. -/
structure Like (p : Spec) (a : NDArray R) : Prop where
  spec : a.spec = p
  notBare : a.isBare = false

/-- An array that a slot can hold without loss. -/
structure Storable (p : Spec) (a : NDArray R) : Prop extends Like p a where
  wrapped : a.entries.Wrapped

theorem eq_of_entries (shape : a.shape = b.shape) (entries : a.entries = b.entries) : a = b := by
  cases a
  cases b
  cases shape
  cases entries
  rfl

theorem zeros_keeps (p : Spec) : (zeros p : NDArray R).Keeps p :=
  ⟨rfl, Entries.kind_zeros _ _⟩

/-- Without entries, a shape and a kind are all there is to an array. -/
theorem Keeps.eq_of_empty (ha : a.Keeps p) (hb : b.Keeps p) (empty : volume p.shape = 0) :
    a = b := by
  have none : ∀ {e : Entries R} {k : Kind}, e.kind = k → e.length = 0 → e = Entries.zeros 0 k := by
    intro e k kind length
    cases e <;> cases kind <;>
      simp_all [Entries.length, Entries.zeros, List.length_eq_zero_iff, Entries.kind]
  have zeros : ∀ {c : NDArray R}, c.Keeps p → c.entries = Entries.zeros 0 p.kind := by
    intro c hc
    refine none hc.kind ?_
    rw [c.fits, hc.shape, empty]
  exact eq_of_entries (ha.shape.trans hb.shape.symm) ((zeros ha).trans (zeros hb).symm)

theorem Keeps.storedIn (hs : slot.Keeps p) (stored : slot.storedIn a = .ok c) : c.Keeps p := by
  unfold NDArray.storedIn at stored
  split at stored
  · cases stored
    exact hs
  · split at stored
    · cases stored
      refine ⟨?_, (Entries.kind_cast _ _).trans hs.kind⟩
      rw [← hs.shape]
      change NDArray.shape (if a.shape = slot.shape then a else a.expandTo slot.shape) = _
      split
      · next same => exact same
      · rfl
    · cases stored

/-- What is stored over a slot does not depend on what the slot held. -/
theorem storedIn_congr {slot' : NDArray R} (hs : slot.Keeps p) (hs' : slot'.Keeps p) :
    slot'.storedIn a = slot.storedIn a := by
  have shape : slot'.shape = slot.shape := hs'.shape.trans hs.shape.symm
  have kind : slot'.kind = slot.kind := hs'.kind.trans hs.kind.symm
  by_cases empty : volume p.shape = 0
  · rw [hs'.eq_of_empty hs empty]
  · have size : slot.size ≠ 0 := by rwa [size, hs.shape]
    have size' : slot'.size ≠ 0 := by rwa [NDArray.size, hs'.shape]
    simp only [NDArray.storedIn, if_neg size, if_neg size', shape, kind]

theorem Like.shape_eq (ha : a.Like p) : a.shape = p.shape := congrArg Spec.shape ha.spec

theorem Like.kind_eq (ha : a.Like p) : a.kind.firm = p.kind := congrArg Spec.kind ha.spec

theorem Like.firm_keeps (ha : a.Like p) : a.firm.Keeps p :=
  ⟨ha.shape_eq, (Entries.kind_firm _).trans ha.kind_eq⟩

/-- An array fits into a slot of its shape. -/
theorem fits_of_shape (same : a.shape = slot.shape) : a.shape.length ≤ slot.shape.length ∧
    broadcast slot.shape a.shape = some slot.shape := by
  rw [same]
  exact ⟨Nat.le_refl _, broadcast_self _⟩

theorem Storable.storedIn (hs : slot.Keeps p) (ha : a.Storable p) :
    slot.storedIn a = .ok a.firm := by
  have same : a.shape = slot.shape := ha.shape_eq.trans hs.shape.symm
  have kind : slot.kind = a.kind.firm := hs.kind.trans ha.kind_eq.symm
  unfold NDArray.storedIn
  split
  · next empty =>
      have none : volume p.shape = 0 := by rw [← hs.shape]; exact empty
      rw [hs.eq_of_empty ha.firm_keeps none]
  · simp only [if_pos (fits_of_shape same), kind]
    exact congrArg Except.ok (eq_of_entries rfl (Entries.cast_firm ha.wrapped ha.notBare))

theorem Like.join (ha : a.Like p) (hb : b.Like p) :
    (a.kind.join b.kind).firm = p.kind ∧ (a.kind.join b.kind).isBare = false := by
  have same : a.kind.firm = b.kind.firm := ha.kind_eq.trans hb.kind_eq.symm
  rw [← ha.kind_eq]
  exact Kind.join_of_firm same ha.notBare hb.notBare

/-- Arrays of one shape that are no bare numbers meet entry by entry. -/
theorem zipWith_solid (f : Rule R) (ha : a.isBare = false) (hb : b.isBare = false)
    (same : a.shape = b.shape) : zipWith f a b = .ok (zipSame f a b same) := by
  unfold zipWith meet
  simp only [ha, Bool.false_and, Bool.false_eq_true, if_false, (asArray_of_firm ha).2,
    (asArray_of_firm hb).2]
  exact dif_pos same

theorem kind_zipSame (f : Rule R) (same : a.shape = b.shape) :
    (zipSame f a b same).kind = a.kind.join b.kind := Entries.kind_zipWith _ _ _

/-- Arrays with as many entries that are no bare numbers have an inner product, but for whole
numbers of different width. -/
theorem dot_solid (ha : a.isBare = false) (hb : b.isBare = false) (sizes : a.size = b.size)
    (wide : a.entries.narrows b.entries = false) :
    a.dot b = .ok (Entries.dot .conjMul a.entries b.entries) := by
  unfold dot
  simp only [(asArray_of_firm ha).2, (asArray_of_firm hb).2, bind, Except.bind,
    if_neg (not_not_intro sizes), wide]
  rfl

/-- An array of the shape of a slot can be stored there. -/
theorem storedIn_answers (same : a.shape = slot.shape) : ∃ c, slot.storedIn a = .ok c := by
  unfold storedIn
  by_cases empty : slot.size = 0
  · exact ⟨slot, if_pos empty⟩
  · rw [if_neg empty, if_pos (fits_of_shape same)]
    exact ⟨_, rfl⟩

/-- Arrays of one shape and no bare numbers are combined entry by entry. -/
theorem Like.zipWith (f : Rule R) (ha : a.Like p) (hb : b.Like p) :
    ∃ same, NDArray.zipWith f a b = .ok (zipSame f a b same) :=
  ⟨ha.shape_eq.trans hb.shape_eq.symm, zipWith_solid f ha.notBare hb.notBare _⟩

theorem Like.sub (ha : a.Like p) (hb : b.Like p) (numbers : p.kind ≠ .whole .flag) :
    ∃ c, a.sub b = .ok c := by
  have some : a.kind.join b.kind ≠ .whole .flag := by
    intro flags
    have kind := (ha.join hb).1
    rw [flags] at kind
    exact numbers kind.symm
  obtain ⟨same, difference⟩ := ha.zipWith .sub hb
  unfold NDArray.sub
  rw [if_neg some]
  exact ⟨_, difference⟩

theorem Like.of_sub (ha : a.Like p) (hb : b.Like p) (difference : a.sub b = .ok c) :
    c.Storable p := by
  obtain ⟨same, zipped⟩ := ha.zipWith .sub hb
  unfold NDArray.sub at difference
  split at difference
  · cases difference
  · cases difference.symm.trans zipped
    obtain ⟨firm, notBare⟩ := ha.join hb
    have kind : (zipSame .sub a b same).kind = a.kind.join b.kind := Entries.kind_zipWith _ _ _
    refine ⟨⟨?_, ?_⟩, Entries.wrapped_sub _ _⟩
    · change Spec.mk a.shape (zipSame .sub a b same).kind.firm = p
      rw [kind, firm, ha.shape_eq]
    · rw [isBare, kind, notBare]

theorem Like.dot (ha : a.Like p) (hb : b.Like p) : ∃ e, a.dot b = .ok e := by
  have same : a.kind.firm = b.kind.firm := ha.kind_eq.trans hb.kind_eq.symm
  have sizes : a.size = b.size := by
    simp [size, ha.shape_eq, hb.shape_eq]
  have wide : a.entries.narrows b.entries = false := by
    unfold Entries.narrows
    split
    · next left right => simp [kind, left, right, Kind.firm, Width.firm] at same
    · next left right => simp [kind, left, right, Kind.firm, Width.firm] at same
    · rfl
  exact ⟨_, dot_solid ha.notBare hb.notBare sizes wide⟩

end NDArray

/-! ## Vectors -/

namespace Vec

variable {s : Structure} {x y z slot slot' : Vec R}

/-- The same numbers, kept in the kinds they have in a slot. -/
def firm (x : Vec R) : Vec R := x.map NDArray.firm

/-- A vector of these shapes, in these kinds and no others. -/
def Keeps (s : Structure) (x : Vec R) : Prop := Tree.Leafwise NDArray.Keeps s x

/-- A vector of arrays that have these shapes and are kept in these kinds. -/
def Like (s : Structure) (x : Vec R) : Prop := Tree.Leafwise NDArray.Like s x

/-- A vector that a slot can hold without loss. -/
def Storable (s : Structure) (x : Vec R) : Prop := Tree.Leafwise NDArray.Storable s x

/-- Arrays are arrays already. -/
theorem asArrays_of_solid (solid : ∀ a ∈ x.leaves, a.isBare = false) : x.asArrays = .ok x :=
  Tree.traverse_self fun a inside => (NDArray.asArray_of_firm (solid a inside)).2

theorem zeros_keeps (s : Structure) : (zeros s : Vec R).Keeps s := by
  refine ⟨rfl, ?_⟩
  simp only [zeros, Tree.map, List.forall₂_map_right_iff, List.forall₂_same]
  intro p _
  exact NDArray.zeros_keeps p

/-- A slot stays shaped as it is, whatever is stored over it. -/
theorem Keeps.fill (hs : slot.Keeps s) (stored : History.fill slot x = .ok z) : z.Keeps s := by
  refine Tree.Leafwise.kept hs stored ?_
  intro p a w c keeps made
  rw [bind_accepts] at made
  obtain ⟨b, _, made⟩ := made
  exact keeps.storedIn made

theorem fill_of_keeps (hs : slot.Keeps s) (hs' : slot'.Keeps s)
    (stored : History.fill slot x = .ok z) : History.fill slot' x = .ok z := by
  have alike : List.Forall₂ (fun a b : NDArray R => ∀ w : Vec R,
      (do b.storedIn (← toArray w)) = (do a.storedIn (← toArray w))) slot.leaves slot'.leaves := by
    refine forall_of_common hs.leaves hs'.leaves ?_
    intro p a b keeps keeps' w
    cases toArray w with
    | error => rfl
    | ok c => exact NDArray.storedIn_congr keeps keeps'
  exact Tree.combineParts_congr (hs'.skeleton.trans hs.skeleton.symm) alike stored

theorem Storable.like (hx : x.Storable s) : x.Like s :=
  ⟨hx.skeleton, hx.leaves.imp fun _ _ storable => storable.toLike⟩

/-- Nothing is lost where a vector of this structure is stored. -/
theorem fill_firm (hs : slot.Keeps s) (hx : x.Storable s) :
    History.fill slot x = .ok x.firm := by
  have leafwise : ∀ (p : Spec) (a b : NDArray R), a.Keeps p → b.Storable p →
      (do a.storedIn (← toArray (.leaf b))) = Except.ok b.firm := by
    intro p a b keeps storable
    rw [toArray_leaf, (NDArray.asArray_of_firm storable.notBare).2]
    exact storable.storedIn keeps
  have each := forall_zip_map (f := fun a b c => (do a.storedIn (← toArray (.leaf b))) = .ok c)
    hs.leaves hx.leaves leafwise
  obtain ⟨fits, done⟩ := Tree.combineParts_same
    (f := fun a u => do NDArray.storedIn a (← toArray u))
    (hs.skeleton.trans hx.skeleton.symm) each
  refine done.trans (congrArg Except.ok ?_)
  ext1
  · exact hs.skeleton.trans hx.skeleton.symm
  · rfl

theorem Like.sub (hx : x.Like s) (hy : y.Like s)
    (numbers : ∀ p ∈ s.leaves, p.kind ≠ .whole .flag) : ∃ z, x.sub y = .ok z :=
  Tree.Leafwise.combine hx hy fun p inside _ _ ha hb => ha.sub hb (numbers p inside)

theorem Like.of_sub (hx : x.Like s) (hy : y.Like s) (difference : x.sub y = .ok z) :
    z.Storable s :=
  Tree.Leafwise.of_combine hx hy difference fun _ _ _ _ ha hb made => ha.of_sub hb made

theorem Like.inner (hx : x.Like s) (hy : y.Like s) : ∃ c, x.inner y = .ok c := by
  have leafwise : ∀ p ∈ s.leaves, ∀ a b : NDArray R, a.Like p → b.Like p →
      ∃ e, (do (← a.asArray).dot (← toArray (.leaf b))) = Except.ok e := by
    intro p _ a b ha hb
    rw [toArray_leaf, (NDArray.asArray_of_firm ha.notBare).2,
      (NDArray.asArray_of_firm hb.notBare).2]
    exact ha.dot hb
  obtain ⟨sums, done⟩ := Tree.Leafwise.combineParts
    (f := fun a u => do (← a.asArray).dot (← toArray u)) hx hy leafwise
  refine ⟨(Entries.total .zero sums.leaves).first, ?_⟩
  simp only [Vec.inner, done]
  rfl

end Vec

end ForwardBackward
