/-
# ForwardBackward.Proofs.Points -- vectors as points of a Euclidean space

A vector `Fits` a structure if it has its skeleton and its shapes and all its
entries are finite and have a fractional part.  In exact arithmetic such a vector
is a point of the complex coordinate space of the structure, `Vec.point`: its
entries in leaf order.  Real entries are complex numbers without an imaginary
part, and kinds and precisions do not show.

The space is taken over the real numbers, with the real part of the inner
product.  The algebra of vectors is that of the points (`Fits.add`, `Fits.sub`,
`Fits.scale`, `Fits.axpy`, `Fits.norm_eq`, `Fits.inner_eq`), and none of it is
refused.
-/
import ForwardBackward.Proofs.Numbers
import ForwardBackward.Proofs.Trees
import ForwardBackward.Vec
import Mathlib.Analysis.CStarAlgebra.Classes
import Mathlib.Analysis.InnerProductSpace.PiL2

namespace ForwardBackward

set_option autoImplicit false

open scoped ComplexConjugate InnerProductSpace

/-! ## Lists of numbers -/

/-- The point with given coordinates. -/
noncomputable def pointOf (n : Nat) (us : List ℂ) : EuclideanSpace ℂ (Fin n) :=
  WithLp.toLp _ fun i => us.getD i 0

section Coordinates

variable {n : Nat} {us vs : List ℂ}

theorem sum_coordinates {M : Type} [AddCommMonoid M] (f : ℂ → M) (hu : us.length = n) :
    ∑ i : Fin n, f (us.getD i 0) = (us.map f).sum := by
  subst hu
  rw [← Fin.sum_univ_fun_getElem us f]
  simp

theorem pointOf_zipWith (op : ℂ → ℂ → ℂ) (i : Fin n) (hu : us.length = n) (hv : vs.length = n) :
    pointOf n (List.zipWith op us vs) i = op (pointOf n us i) (pointOf n vs i) := by
  have left : (i : Nat) < us.length := by omega
  have right : (i : Nat) < vs.length := by omega
  simp [pointOf, left, right]

theorem pointOf_map (op : ℂ → ℂ) (i : Fin n) (hu : us.length = n) :
    pointOf n (us.map op) i = op (pointOf n us i) := by
  have left : (i : Nat) < us.length := by omega
  simp [pointOf, left]

theorem pointOf_add (hu : us.length = n) (hv : vs.length = n) :
    pointOf n (List.zipWith (· + ·) us vs) = pointOf n us + pointOf n vs := by
  ext i
  exact pointOf_zipWith _ i hu hv

theorem pointOf_sub (hu : us.length = n) (hv : vs.length = n) :
    pointOf n (List.zipWith (· - ·) us vs) = pointOf n us - pointOf n vs := by
  ext i
  exact pointOf_zipWith _ i hu hv

theorem pointOf_scale (c : ℝ) (hu : us.length = n) :
    pointOf n (us.map fun z => (c : ℂ) * z) = c • pointOf n us := by
  ext i
  rw [pointOf_map _ i hu]
  simp

theorem norm_pointOf (hu : us.length = n) :
    ‖pointOf n us‖ = √((us.map fun z => ‖z‖ ^ 2).sum) := by
  rw [EuclideanSpace.norm_eq, ← sum_coordinates (fun z : ℂ => ‖z‖ ^ 2) hu]
  rfl

theorem sq_norm_pointOf_sub (hu : us.length = n) (hv : vs.length = n) :
    ‖pointOf n us - pointOf n vs‖ ^ 2 = (List.zipWith (fun z w => ‖z - w‖ ^ 2) us vs).sum := by
  have zipped : (List.zipWith (· - ·) us vs).length = n := by
    simp [hu, hv]
  have nonneg : ∀ t ∈ (List.zipWith (· - ·) us vs).map (fun z => ‖z‖ ^ 2), 0 ≤ t := by
    intro t inside
    obtain ⟨z, _, rfl⟩ := List.mem_map.mp inside
    positivity
  rw [← pointOf_sub hu hv, norm_pointOf zipped, Real.sq_sqrt (List.sum_nonneg nonneg),
    List.map_zipWith]

/-- A point has one list of coordinates. -/
theorem pointOf_inj (hu : us.length = n) (hv : vs.length = n) (same : pointOf n us = pointOf n vs) :
    us = vs := by
  refine List.ext_getElem (hu.trans hv.symm) fun i left right => ?_
  have coordinate := congrFun (congrArg WithLp.ofLp same) ⟨i, by omega⟩
  simpa [pointOf, left, right] using coordinate

theorem inner_pointOf (hu : us.length = n) (hv : vs.length = n) :
    ⟪pointOf n us, pointOf n vs⟫_ℝ = (List.zipWith (fun z w => conj z * w) us vs).sum.re := by
  have zipped : (List.zipWith (fun z w => conj z * w) us vs).length = n := by
    simp [hu, hv]
  have summed := sum_coordinates (n := n) (fun z : ℂ => z) zipped
  rw [List.map_id'] at summed
  rw [PiLp.inner_apply, ← summed, Complex.re_sum]
  refine Finset.sum_congr rfl fun i _ => ?_
  have product := pointOf_zipWith (fun z w => conj z * w) i hu hv
  change _ = (pointOf n (List.zipWith (fun z w => conj z * w) us vs) i).re
  rw [product, Complex.inner, mul_comm]

end Coordinates

theorem Entries.Totals.root {e : Entries Exact} {z : ℂ} (total : e.Totals z) :
    e.root = Scalar.sqrt (.real z.re) := by
  rcases total with _ | denotes
  · simp [Entries.zero, Entries.root]
  · cases e with
    | whole w xs => cases denotes
    | real p xs =>
        obtain ⟨ys, rfl, numbers⟩ := Entries.Denotes.real_iff.mp denotes
        obtain ⟨y, rfl, rfl⟩ := List.map_eq_singleton_iff.mp numbers.symm
        rfl
    | complex p zs =>
        obtain rfl := Entries.Denotes.complex_iff.mp denotes
        rfl

/-! ## Structures -/

namespace Structure

/-- How many numbers a vector of a structure holds. -/
def dimension (s : Structure) : Nat := (s.leaves.map fun p => volume p.shape).sum

/-- The space of the points that vectors of a structure are. -/
abbrev Space (s : Structure) := EuclideanSpace ℂ (Fin s.dimension)

end Structure

/-! ## Vectors -/

/-- Arrays of the shapes of a structure, and the numbers that they hold in all. -/
inductive LeavesDenote : List (NDArray Exact) → List Spec → List ℂ → Prop where
  | nil : LeavesDenote [] [] []
  | cons {a : NDArray Exact} {p : Spec} {zs ws : List ℂ} {as : List (NDArray Exact)}
      {ps : List Spec} : a.shape = p.shape → a.entries.Denotes zs → LeavesDenote as ps ws →
      LeavesDenote (a :: as) (p :: ps) (zs ++ ws)

namespace Vec

/-- A vector of a structure with finite entries, and the numbers that it holds. -/
structure Denotes (s : Structure) (x : Vec Exact) (us : List ℂ) : Prop where
  skeleton : x.skeleton = s.skeleton
  leaves : LeavesDenote x.leaves s.leaves us

/-- A vector with the skeleton and the shapes of a structure and finite entries. -/
def Fits (s : Structure) (x : Vec Exact) : Prop := ∃ us, Denotes s x us

/-- The numbers of a vector, in leaf order. -/
def numbers (x : Vec Exact) : List ℂ := x.leaves.flatMap fun a => a.entries.numbers

/-- The point that a vector is. -/
noncomputable def point (s : Structure) (x : Vec Exact) : s.Space := pointOf s.dimension x.numbers

end Vec

namespace LeavesDenote

variable {as bs : List (NDArray Exact)} {ps : List Spec} {us vs : List ℂ}

theorem numbers_eq (h : LeavesDenote as ps us) :
    (as.flatMap fun a => a.entries.numbers) = us := by
  induction h with
  | nil => rfl
  | cons _ denotes _ ih => rw [List.flatMap_cons, denotes.numbers_eq, ih]

theorem length_eq (h : LeavesDenote as ps us) :
    us.length = (ps.map fun p => volume p.shape).sum := by
  induction h with
  | nil => rfl
  | @cons a p zs _ _ _ shape denotes _ ih =>
      have fits : zs.length = volume p.shape := by rw [denotes.length_eq, a.fits, shape]
      simp [fits, ih]

/-- Each of the arrays has one of the shapes and holds finite numbers. -/
theorem member (h : LeavesDenote as ps us) {a : NDArray Exact} (inside : a ∈ as) :
    ∃ p ∈ ps, ∃ zs, a.shape = p.shape ∧ a.entries.Denotes zs := by
  induction h with
  | nil => cases inside
  | cons shape denotes _ ih =>
      rcases List.mem_cons.mp inside with rfl | inside
      · exact ⟨_, List.mem_cons_self, _, shape, denotes⟩
      · obtain ⟨p, among, found⟩ := ih inside
        exact ⟨p, List.mem_cons_of_mem _ among, found⟩

/-- The sums of a function of the numbers, array by array. -/
theorem sums (f : NDArray Exact → Entries Exact) (op : ℂ → ℂ)
    (summed : ∀ {a : NDArray Exact} {zs : List ℂ}, a.entries.Denotes zs →
      (f a).Denotes [(zs.map op).sum])
    (h : LeavesDenote as ps us) :
    ∃ ts, List.Forall₂ (fun e t => e.Denotes [t]) (as.map f) ts ∧ ts.sum = (us.map op).sum := by
  induction h with
  | nil => exact ⟨[], .nil, rfl⟩
  | cons _ denotes _ ih =>
      obtain ⟨ts, each, total⟩ := ih
      refine ⟨_ :: ts, .cons (summed denotes) each, ?_⟩
      rw [List.sum_cons, total, List.map_append, List.sum_append]

/-- The inner products, array by array. -/
theorem dots (ha : LeavesDenote as ps us) (hb : LeavesDenote bs ps vs) :
    ∃ es ts, List.Forall₂ (fun p e =>
        (do (← p.1.asArray).dot (← Vec.toArray (Tree.leaf p.2))) = Except.ok e) (as.zip bs) es ∧
      List.Forall₂ (fun (e : Entries Exact) t => e.Denotes [t]) es ts ∧
      ts.sum = (List.zipWith (fun z w => conj z * w) us vs).sum := by
  induction ha generalizing bs vs with
  | nil =>
      cases hb
      exact ⟨[], [], .nil, .nil, rfl⟩
  | @cons a p zs _ _ _ shape denotes _ ih =>
      cases hb with
      | @cons b _ ws _ _ _ shape' denotes' rest =>
          obtain ⟨es, ts, each, denoted, total⟩ := ih rest
          obtain ⟨e, product, denotesProduct⟩ := NDArray.dot_denotes (NDArray.denotes_enter denotes)
            (NDArray.denotes_enter denotes') (shape.trans shape'.symm)
          have chunk : zs.length = ws.length := by
            rw [denotes.length_eq, denotes'.length_eq, a.fits, b.fits, shape, shape']
          refine ⟨e :: es, _ :: ts, .cons ?_ each, .cons denotesProduct denoted, ?_⟩
          · rw [Vec.toArray_leaf, NDArray.asArray_of_denotes denotes,
              NDArray.asArray_of_denotes denotes']
            exact product
          · rw [List.sum_cons, total, List.zipWith_append chunk, List.sum_append]

/-- Two lists of arrays of the same shapes, combined entry by entry. -/
theorem zip {f : NDArray Exact → NDArray Exact → Except Fault (NDArray Exact)}
    {op : ℂ → ℂ → ℂ}
    (combined : ∀ {a b : NDArray Exact} {zs ws : List ℂ}, a.entries.Denotes zs →
      b.entries.Denotes ws → a.shape = b.shape →
      ∃ c, f a b = .ok c ∧ c.shape = a.shape ∧ c.entries.Denotes (List.zipWith op zs ws))
    (ha : LeavesDenote as ps us) (hb : LeavesDenote bs ps vs) :
    ∃ cs, List.Forall₂ (fun p c => f p.1 p.2 = .ok c) (as.zip bs) cs ∧
      LeavesDenote cs ps (List.zipWith op us vs) := by
  induction ha generalizing bs vs with
  | nil =>
      cases hb
      exact ⟨[], .nil, .nil⟩
  | @cons a p zs _ _ _ shape denotes _ ih =>
      cases hb with
      | @cons b _ ws _ _ _ shape' denotes' rest =>
          obtain ⟨c, made, kept, denoted⟩ := combined denotes denotes' (shape.trans shape'.symm)
          obtain ⟨cs, each, rest⟩ := ih rest
          have chunk : zs.length = ws.length := by
            rw [denotes.length_eq, denotes'.length_eq, a.fits, b.fits, shape, shape']
          refine ⟨c :: cs, .cons made each, ?_⟩
          rw [List.zipWith_append chunk]
          exact .cons (kept.trans shape) denoted rest

/-- Every array replaced by one of its shape that holds the same numbers but for a function. -/
theorem map (f : NDArray Exact → NDArray Exact) (op : ℂ → ℂ)
    (mapped : ∀ {a : NDArray Exact} {zs : List ℂ}, a.entries.Denotes zs →
      (f a).shape = a.shape ∧ (f a).entries.Denotes (zs.map op))
    (ha : LeavesDenote as ps us) : LeavesDenote (as.map f) ps (us.map op) := by
  induction ha with
  | nil => exact .nil
  | cons shape denotes _ ih =>
      obtain ⟨kept, denoted⟩ := mapped denotes
      rw [List.map_append]
      exact .cons (kept.trans shape) denoted ih

/-- Every array replaced by what a function computes of it, a function of its numbers. -/
theorem traverse {f : NDArray Exact → Except Fault (NDArray Exact)} {op : ℂ → ℂ}
    (computed : ∀ {a : NDArray Exact} {zs : List ℂ}, a.entries.Denotes zs →
      ∃ b, f a = .ok b ∧ b.shape = a.shape ∧ b.entries.Denotes (zs.map op))
    (ha : LeavesDenote as ps us) :
    ∃ bs, List.Forall₂ (fun a b => f a = .ok b) as bs ∧ LeavesDenote bs ps (us.map op) := by
  induction ha with
  | nil => exact ⟨[], .nil, .nil⟩
  | cons shape denotes _ ih =>
      obtain ⟨b, made, kept, denoted⟩ := computed denotes
      obtain ⟨bs, each, rest⟩ := ih
      refine ⟨b :: bs, .cons made each, ?_⟩
      rw [List.map_append]
      exact .cons (kept.trans shape) denoted rest

end LeavesDenote

namespace Vec

namespace Denotes

variable {s : Structure} {x y : Vec Exact} {us vs : List ℂ}

theorem fits (hx : x.Denotes s us) : x.Fits s := ⟨us, hx⟩

theorem length_eq (hx : x.Denotes s us) : us.length = s.dimension := hx.leaves.length_eq

theorem point_eq (hx : x.Denotes s us) : x.point s = pointOf s.dimension us := by
  unfold point numbers
  rw [hx.leaves.numbers_eq]

theorem allFinite (hx : x.Denotes s us) : x.allFinite = true := by
  refine List.all_eq_true.mpr fun a inside => ?_
  obtain ⟨_, _, zs, _, denotes⟩ := hx.leaves.member inside
  exact denotes.allFinite

theorem combine {f : NDArray Exact → NDArray Exact → Except Fault (NDArray Exact)}
    {op : ℂ → ℂ → ℂ}
    (combined : ∀ {a b : NDArray Exact} {zs ws : List ℂ}, a.entries.Denotes zs →
      b.entries.Denotes ws → a.shape = b.shape →
      ∃ c, f a b = .ok c ∧ c.shape = a.shape ∧ c.entries.Denotes (List.zipWith op zs ws))
    (hx : x.Denotes s us) (hy : y.Denotes s vs) :
    ∃ z : Vec Exact, Tree.combine f x y = .ok z ∧ z.Denotes s (List.zipWith op us vs) := by
  obtain ⟨cs, each, leaves⟩ := hx.leaves.zip combined hy.leaves
  obtain ⟨fits, done⟩ := Tree.combine_same (hx.skeleton.trans hy.skeleton.symm) each
  exact ⟨_, done, hx.skeleton, leaves⟩

theorem map {f : NDArray Exact → NDArray Exact} {op : ℂ → ℂ}
    (mapped : ∀ {a : NDArray Exact} {zs : List ℂ}, a.entries.Denotes zs →
      (f a).shape = a.shape ∧ (f a).entries.Denotes (zs.map op))
    (hx : x.Denotes s us) : Denotes s (Tree.map f x) (us.map op) :=
  ⟨hx.skeleton, hx.leaves.map f op mapped⟩

theorem add (hx : x.Denotes s us) (hy : y.Denotes s vs) :
    ∃ z, x.add y = .ok z ∧ z.Denotes s (List.zipWith (· + ·) us vs) :=
  hx.combine NDArray.add_denotes hy

theorem sub (hx : x.Denotes s us) (hy : y.Denotes s vs) :
    ∃ z, x.sub y = .ok z ∧ z.Denotes s (List.zipWith (· - ·) us vs) :=
  hx.combine NDArray.sub_denotes hy

theorem scale (c : ℝ) (hx : x.Denotes s us) :
    (x.scale (.real c)).Denotes s (us.map fun z => (c : ℂ) * z) :=
  hx.map fun denotes => ⟨rfl, NDArray.scale_denotes c denotes⟩

theorem asArrays (hx : x.Denotes s us) : ∃ z, x.asArrays = .ok z ∧ z.Denotes s us := by
  have each : List.Forall₂ (fun a b => NDArray.asArray a = .ok b) x.leaves
      (x.leaves.map NDArray.enter) := by
    rw [List.forall₂_map_right_iff, List.forall₂_same]
    intro a member
    obtain ⟨_, _, zs, _, denotes⟩ := hx.leaves.member member
    exact NDArray.asArray_of_denotes denotes
  obtain ⟨fits, done⟩ := Tree.traverse_of_forall each
  have leaves := hx.leaves.map NDArray.enter id fun denotes =>
    ⟨rfl, by simpa using NDArray.denotes_enter denotes⟩
  exact ⟨_, done, hx.skeleton, by simpa using leaves⟩

theorem norm_eq (hx : x.Denotes s us) : x.norm = .real √((us.map fun z => ‖z‖ ^ 2).sum) := by
  obtain ⟨ts, each, total⟩ := hx.leaves.sums
    (fun a => a.enter.entries.squares.sum) (fun z => ((‖z‖ ^ 2 : ℝ) : ℂ))
    fun denotes => (NDArray.denotes_enter denotes).squares.sum
  have squares : ts.sum = (((us.map fun z => ‖z‖ ^ 2).sum : ℝ) : ℂ) := by
    rw [total, ← sum_map_ofReal, List.map_map]
    rfl
  unfold Vec.norm
  rw [(Entries.total_totals .none each).root, zero_add, squares, Complex.ofReal_re]
  exact Exact.sqrt_real _ (List.sum_nonneg (by simp))

theorem inner_eq (hx : x.Denotes s us) (hy : y.Denotes s vs) :
    x.inner y = .ok (.real (List.zipWith (fun z w => conj z * w) us vs).sum.re) := by
  obtain ⟨es, ts, each, denoted, total⟩ := hx.leaves.dots hy.leaves
  obtain ⟨fits, done⟩ := Tree.combineParts_same
    (f := fun a u => do (← NDArray.asArray a).dot (← toArray u))
    (hx.skeleton.trans hy.skeleton.symm) each
  unfold Vec.inner
  rw [done]
  simp only [bind, Except.bind, pure, Except.pure]
  rw [(Entries.total_totals .none denoted).first, zero_add, total]

theorem traverse {f : NDArray Exact → Except Fault (NDArray Exact)} {op : ℂ → ℂ}
    (computed : ∀ {a : NDArray Exact} {zs : List ℂ}, a.entries.Denotes zs →
      ∃ b, f a = .ok b ∧ b.shape = a.shape ∧ b.entries.Denotes (zs.map op))
    (hx : x.Denotes s us) : ∃ y, Tree.traverse f x = .ok y ∧ Denotes s y (us.map op) := by
  obtain ⟨bs, each, leaves⟩ := hx.leaves.traverse computed
  obtain ⟨fits, done⟩ := Tree.traverse_of_forall each
  exact ⟨_, done, hx.skeleton, leaves⟩

/-- The square of the distance of two vectors, entry by entry. -/
theorem sq_dist (hx : x.Denotes s us) (hy : y.Denotes s vs) :
    ‖x.point s - y.point s‖ ^ 2 = (List.zipWith (fun z w => ‖z - w‖ ^ 2) us vs).sum := by
  rw [hx.point_eq, hy.point_eq, sq_norm_pointOf_sub hx.length_eq hy.length_eq]

end Denotes

/-! ## Vectors that fit -/

/-- A vector of the right nesting and shapes fits if every array is one of finite numbers. -/
theorem fits_of_leaves {s : Structure} {x : Vec Exact} (skeleton : x.skeleton = s.skeleton)
    (shapes : x.leaves.map NDArray.shape = s.leaves.map Spec.shape)
    (finite : ∀ a ∈ x.leaves, ∃ zs, a.entries.Denotes zs) : x.Fits s := by
  have leaves : ∀ (as : List (NDArray Exact)) (ps : List Spec),
      as.map NDArray.shape = ps.map Spec.shape → (∀ a ∈ as, ∃ zs, a.entries.Denotes zs) →
      ∃ us, LeavesDenote as ps us := by
    intro as
    induction as with
    | nil =>
        intro ps shapes _
        obtain rfl := List.map_eq_nil_iff.mp shapes.symm
        exact ⟨[], .nil⟩
    | cons a as ih =>
        intro ps shapes finite
        cases ps with
        | nil => cases shapes
        | cons p ps =>
            rw [List.map_cons, List.map_cons, List.cons.injEq] at shapes
            obtain ⟨zs, denotes⟩ := finite a List.mem_cons_self
            obtain ⟨us, rest⟩ := ih ps shapes.2 fun b inside =>
              finite b (List.mem_cons_of_mem _ inside)
            exact ⟨zs ++ us, .cons shapes.1 denotes rest⟩
  obtain ⟨us, leaves⟩ := leaves x.leaves s.leaves shapes finite
  exact ⟨us, skeleton, leaves⟩

namespace Fits

variable {s : Structure} {x y : Vec Exact}

theorem add (hx : x.Fits s) (hy : y.Fits s) :
    ∃ z, x.add y = .ok z ∧ z.Fits s ∧ z.point s = x.point s + y.point s := by
  obtain ⟨us, hx⟩ := hx
  obtain ⟨vs, hy⟩ := hy
  obtain ⟨z, sum, hz⟩ := hx.add hy
  refine ⟨z, sum, hz.fits, ?_⟩
  rw [hz.point_eq, hx.point_eq, hy.point_eq, pointOf_add hx.length_eq hy.length_eq]

theorem sub (hx : x.Fits s) (hy : y.Fits s) :
    ∃ z, x.sub y = .ok z ∧ z.Fits s ∧ z.point s = x.point s - y.point s := by
  obtain ⟨us, hx⟩ := hx
  obtain ⟨vs, hy⟩ := hy
  obtain ⟨z, difference, hz⟩ := hx.sub hy
  refine ⟨z, difference, hz.fits, ?_⟩
  rw [hz.point_eq, hx.point_eq, hy.point_eq, pointOf_sub hx.length_eq hy.length_eq]

theorem scale (c : ℝ) (hx : x.Fits s) : (x.scale (.real c)).Fits s := by
  obtain ⟨us, hx⟩ := hx
  exact (hx.scale c).fits

theorem point_scale (c : ℝ) (hx : x.Fits s) : (x.scale (.real c)).point s = c • x.point s := by
  obtain ⟨us, hx⟩ := hx
  rw [(hx.scale c).point_eq, hx.point_eq, pointOf_scale c hx.length_eq]

theorem axpy (c : ℝ) (hx : x.Fits s) (hy : y.Fits s) :
    ∃ z, Vec.axpy (.real c) x y = .ok z ∧ z.Fits s ∧ z.point s = c • x.point s + y.point s := by
  obtain ⟨z, sum, hz, point⟩ := (hx.scale c).add hy
  exact ⟨z, sum, hz, by rw [point, hx.point_scale]⟩

/-- Bare numbers made arrays are the same point. -/
theorem asArrays (hx : x.Fits s) :
    ∃ z, x.asArrays = .ok z ∧ z.Fits s ∧ z.point s = x.point s := by
  obtain ⟨us, hx⟩ := hx
  obtain ⟨z, done, hz⟩ := hx.asArrays
  exact ⟨z, done, hz.fits, by rw [hz.point_eq, hx.point_eq]⟩

section Returned

variable {z : Vec Exact}

theorem of_add (hx : x.Fits s) (hy : y.Fits s) (sum : x.add y = .ok z) :
    z.Fits s ∧ z.point s = x.point s + y.point s := by
  obtain ⟨w, made, fits⟩ := hx.add hy
  cases sum.symm.trans made
  exact fits

theorem of_sub (hx : x.Fits s) (hy : y.Fits s) (difference : x.sub y = .ok z) :
    z.Fits s ∧ z.point s = x.point s - y.point s := by
  obtain ⟨w, made, fits⟩ := hx.sub hy
  cases difference.symm.trans made
  exact fits

theorem of_axpy {c : ℝ} (hx : x.Fits s) (hy : y.Fits s) (sum : Vec.axpy (.real c) x y = .ok z) :
    z.Fits s ∧ z.point s = c • x.point s + y.point s := by
  obtain ⟨w, made, fits⟩ := hx.axpy c hy
  cases sum.symm.trans made
  exact fits

end Returned

theorem norm_eq (hx : x.Fits s) : x.norm = .real ‖x.point s‖ := by
  obtain ⟨us, hx⟩ := hx
  rw [hx.norm_eq, hx.point_eq, norm_pointOf hx.length_eq]

theorem sqnorm_eq (hx : x.Fits s) : x.sqnorm = .ok (.real (‖x.point s‖ ^ 2)) := by
  obtain ⟨z, done, hz, point⟩ := hx.asArrays
  unfold sqnorm
  rw [done]
  change Scalar.square z.norm = _
  rw [hz.norm_eq, point, Exact.square_real]

theorem inner_eq (hx : x.Fits s) (hy : y.Fits s) :
    x.inner y = .ok (.real ⟪x.point s, y.point s⟫_ℝ) := by
  obtain ⟨us, hx⟩ := hx
  obtain ⟨vs, hy⟩ := hy
  rw [hx.inner_eq hy, hx.point_eq, hy.point_eq, inner_pointOf hx.length_eq hy.length_eq]

theorem allFinite (hx : x.Fits s) : x.allFinite = true := by
  obtain ⟨us, hx⟩ := hx
  exact hx.allFinite

theorem isFinite_eq (hx : x.Fits s) : x.isFinite = .ok true := by
  obtain ⟨us, hx⟩ := hx
  have each : ∀ as : List (NDArray Exact), (∀ a ∈ as, ∃ zs, a.entries.Denotes zs) →
      finiteLeaves as = .ok true := by
    intro as
    induction as with
    | nil => exact fun _ => rfl
    | cons a as ih =>
        intro finite
        obtain ⟨zs, denotes⟩ := finite a List.mem_cons_self
        have entered : a.enter.allFinite = true := (NDArray.denotes_enter denotes).allFinite
        unfold finiteLeaves
        rw [NDArray.asArray_of_denotes denotes]
        simp only [bind, Except.bind, entered, if_true]
        exact ih fun b member => finite b (List.mem_cons_of_mem _ member)
  refine each x.leaves fun a member => ?_
  obtain ⟨_, _, zs, _, denotes⟩ := hx.leaves.member member
  exact ⟨zs, denotes⟩

end Fits

end Vec

end ForwardBackward
