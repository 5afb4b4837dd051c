/-
# ForwardBackward.Proofs.Catalogue -- what the steps of the catalogue answer

Two things hold of every proximal step of the catalogue, whatever it is asked for.
It leads to a vector of the same shapes (`Regularizer.shaped`), and the value that
it reports is the value at its point (`Regularizer.value_of_prox`).

All but the box look.  The box reports zero without looking, and rightly so: what
is moved to the nearest bound lies between the bounds, unless it is not a number,
and the point is one of finite numbers.
-/
import ForwardBackward.Proofs.Comparisons
import ForwardBackward.Proofs.Proximal
import ForwardBackward.Proofs.Shapes
import ForwardBackward.Proofs.Slots

namespace ForwardBackward

set_option autoImplicit false

/-! ## Between bounds -/

/-- A number that was moved to the nearest bound lies between the bounds. -/
theorem Ordered.between {b : Exact × Exact} (ordered : Ordered b) {x : Exact} {t : ℝ}
    (clamped : Scalar.min b.2 (Scalar.max b.1 x) = .real t) : Between b t := by
  have number : Scalar.isNaN (Scalar.min b.2 (Scalar.max b.1 x)) = false := by
    rw [clamped, Exact.isNaN_real]
  have raised := (Scalar.numbers_of_min number).2
  have between := Comparing.between_clamp_iff.mpr
    ⟨ordered.le, (Scalar.numbers_of_max raised).2⟩
  rwa [clamped] at between

theorem Between.of_clamp_list {lows ups xs : List Exact} {ts : List ℝ}
    (count : lows.length = xs.length) (count' : ups.length = xs.length)
    (ordered : ∀ b ∈ lows.zip ups, Ordered b)
    (clamped : List.zipWith Scalar.min ups (List.zipWith Scalar.max lows xs) =
      ts.map Exact.real) :
    List.Forall₂ Between (lows.zip ups) (ts.map (↑)) := by
  induction xs generalizing lows ups ts with
  | nil =>
      obtain rfl := List.length_eq_zero_iff.mp count
      obtain rfl : ts = [] := by simpa using clamped.symm
      exact .nil
  | cons x xs ih =>
      obtain ⟨lower, lows, rfl⟩ := List.exists_cons_of_length_eq_add_one count
      obtain ⟨upper, ups, rfl⟩ := List.exists_cons_of_length_eq_add_one count'
      cases ts with
      | nil => cases clamped
      | cons t ts =>
          obtain ⟨here, rest⟩ := List.cons.inj clamped
          refine .cons ((ordered _ List.mem_cons_self).between here) ?_
          exact ih (Nat.succ.inj count) (Nat.succ.inj count')
            (fun b inside => ordered b (List.mem_cons_of_mem _ inside)) rest

/-! ## Arrays -/

namespace NDArray

variable {s : List Nat} {a b c d lower upper p : NDArray Exact}

/-- An array with a fractional part. -/
def Inexact {R : Type} [Scalar R] (a : NDArray R) : Prop := ∀ w, a.kind ≠ .whole w

theorem Inexact.enter {R : Type} [Scalar R] {a : NDArray R} (inexact : a.Inexact) :
    a.enter.Inexact := by
  unfold NDArray.enter
  split
  · intro w whole
    rw [kind, Entries.kind_cast] at whole
    cases kind : a.kind with
    | whole v => exact inexact v kind
    | real q =>
        rw [kind] at whole
        cases q <;> cases whole
    | complex q =>
        rw [kind] at whole
        cases whole
  · exact inexact

theorem scale_inexact {R : Type} [Scalar R] (c : R) (a : NDArray R) : (a.scale c).Inexact := by
  intro w whole
  unfold scale map kind at whole
  dsimp only at whole
  cases same : a.entries with
  | whole | real | complex =>
      rw [same] at whole
      cases whole

theorem zipWith_kept {f : Rule Exact} (bounds : b.Bounds s) (shape : c.shape = s)
    (firm : c.isBare = false) (made : zipWith f b c = .ok d) :
    d.shape = s ∧ d.isBare = false := by
  subst shape
  exact ⟨(zipWith_entries bounds.meets firm made).1, isBare_zipWith firm made⟩

theorem clip_kept (box : Box s lower upper) (shape : a.shape = s)
    (clipped : a.clip lower upper = .ok p) : p.shape = s ∧ p.isBare = false := by
  obtain ⟨c, m, array, _, raised, lowered⟩ := clip_accepts clipped
  obtain rfl := asArray_accepts array
  obtain ⟨shapeM, firm⟩ := zipWith_kept (c := a.enter) box.below shape isBare_enter raised
  exact zipWith_kept box.above shapeM firm lowered

/-- An array of finite numbers that were moved to the nearest bounds lies between the bounds. -/
theorem clip_inside (box : Box s lower upper) (inexact : a.Inexact) (shape : a.shape = s)
    (clipped : a.clip lower upper = .ok p) (finite : p.allFinite = true) :
    p.isInside lower upper = .ok true := by
  obtain ⟨c, _, array, real, _⟩ := clip_accepts clipped
  obtain rfl := asArray_accepts array
  obtain ⟨q, xs, entries⟩ : ∃ q xs, a.enter.entries = .real q xs := by
    cases same : a.enter.entries with
    | whole w ns => exact absurd (congrArg Entries.kind same) (inexact.enter w)
    | real q xs => exact ⟨q, xs, rfl⟩
    | complex q zs =>
        rw [kind, same] at real
        cases real
  obtain ⟨shapeP, firm, plain, count, r, entriesP⟩ := clip_entries box entries shape clipped
  obtain ⟨us, denotes⟩ := Entries.denotes_of_allFinite finite fun w whole => by
    rw [entriesP] at whole
    cases whole
  obtain ⟨q', ts, entries', rfl⟩ := real_of_kind denotes plain
  obtain ⟨rfl, clamped⟩ := Entries.real.inj (entriesP.symm.trans entries')
  have between := Between.of_clamp_list (length_boundsOn.trans count.symm)
    (length_boundsOn.trans count.symm) box.ordered clamped
  obtain ⟨inside, decided, _, complete⟩ := isInside_denotes box denotes shapeP firm
  rw [decided, complete plain between]

end NDArray

/-! ## Regularizers -/

/-- A vector of arrays with fractional parts. -/
def Vec.Inexact {R : Type} [Scalar R] (x : Vec R) : Prop := ∀ a ∈ x.leaves, a.Inexact

/-- What a step is asked for has the shapes of the iterate, and fractional parts. -/
theorem Vec.Shaped.axpy {R : Type} [Scalar R] {S : Structure} {x y z : Vec R} {c : R}
    (hx : x.Shaped S) (hy : y.Shaped S) (sum : Vec.axpy c x y = .ok z) :
    z.Shaped S ∧ z.Inexact := by
  have scaled : Tree.Leafwise (fun q a => NDArray.Shaped q a ∧ a.Inexact) S (x.scale c) := by
    refine ⟨hx.skeleton, ?_⟩
    change List.Forall₂ _ _ (x.leaves.map (NDArray.scale c))
    rw [List.forall₂_map_right_iff]
    exact hx.leaves.imp fun _ a shape => ⟨shape, NDArray.scale_inexact c a⟩
  have added : Tree.Leafwise (fun q a => NDArray.Shaped q a ∧ a.Inexact) S z := by
    refine scaled.of_combine hy sum fun q a b d ha hb made => ?_
    obtain ⟨shape, u, v, left, _, entries⟩ :=
      NDArray.zipWith_same (ha.1.trans hb.symm) (made : NDArray.zipWith .add a b = .ok d)
    refine ⟨shape.trans ha.1, ?_⟩
    have inexact : u.Inexact := by
      rcases left with rfl | rfl
      · exact ha.2
      · exact ha.2.enter
    unfold NDArray.Inexact NDArray.kind
    rw [entries, Entries.kind_zipWith]
    exact Kind.join_inexact inexact _
  refine ⟨⟨added.skeleton, added.leaves.imp fun _ _ known => known.1⟩, fun a inside => ?_⟩
  obtain ⟨_, _, known⟩ := exists_of_mem_right added.leaves inside
  exact known.2

namespace Regularizer

variable {σ : Type} {g : Regularizer Exact} {S : Structure} {lower upper : NDArray Exact}
  {v p : Vec Exact} {gamma G : Exact}

/-- The bounds of a box, if it is one, are in order at every entry of a structure. -/
def InOrder (S : Structure) : Regularizer Exact → Prop
  | .box lower upper => ∀ p ∈ S.leaves, NDArray.Box p.shape lower upper
  | _ => True

theorem clip_shaped (boxes : InOrder S (.box lower upper)) (hv : v.Shaped S)
    (clipped : (box lower upper).point v gamma = .ok p) : p.Shaped S := by
  obtain ⟨skeleton, each⟩ := Tree.forall_of_traverse clipped
  refine ⟨skeleton.trans hv.skeleton, ?_⟩
  have leaves : List.Forall₂ (fun q a => NDArray.Box q.shape lower upper ∧ NDArray.Shaped q a)
      S.leaves v.leaves := (List.forall₂_and_left _ _).mpr ⟨boxes, hv.leaves⟩
  exact forall_of_common leaves.flip each fun _ _ _ known made =>
    (NDArray.clip_kept known.1 known.2 made).1

/-- A step that is not one of a box leads to a vector of the same shapes. -/
theorem point_shaped_of_plain {R : Type} [Scalar R] {g : Regularizer R} {v p : Vec R} {gamma : R}
    (plain : ∀ lower upper, g ≠ .box lower upper) (hv : v.Shaped S)
    (made : g.point v gamma = .ok p) : p.Shaped S := by
  cases g with
  | zero =>
      cases made
      exact hv
  | l1 weight | l0 weight =>
      obtain ⟨x, arrays, made⟩ := bind_accepts.mp made
      cases made
      have hx : x.Shaped S := hv.traverse (fun _ _ => NDArray.asArray_shape) arrays
      exact hx.map fun _ => rfl
  | l2 weight =>
      refine hv.traverse (fun a b divided => ?_) made
      unfold NDArray.divide at divided
      split at divided
      · cases divided
      · cases divided
        rfl
  | box lower upper => exact absurd rfl (plain lower upper)

/-- A step of the catalogue leads to a vector of the same shapes. -/
theorem point_shaped (inOrder : g.InOrder S) (hv : v.Shaped S)
    (made : g.point v gamma = .ok p) : p.Shaped S := by
  cases g with
  | zero | l1 weight | l0 weight | l2 weight =>
      refine point_shaped_of_plain (fun _ _ same => ?_) hv made
      cases same
  | box lower upper => exact clip_shaped inOrder hv made

theorem shaped (inOrder : g.InOrder S) : Prox.Shaped S (.ofRegularizer g : Prox σ Exact) := by
  intro v gamma p env env' hv answered
  exact point_shaped inOrder hv (prox_accepts (lift_returns.mp answered).1).1

/-- A step of the catalogue to finite numbers reports the value at its point. -/
theorem value_of_prox (inOrder : g.InOrder S) (hv : v.Shaped S) (inexact : v.Inexact)
    (stepped : g.prox v gamma = .ok (p, G)) (finite : p.allFinite = true) :
    g.value p = .ok G := by
  obtain ⟨pointed, value⟩ := prox_accepts stepped
  cases g with
  | zero | l1 weight | l0 weight | l2 weight => exact value
  | box lower upper =>
      obtain rfl : G = 0 := value
      obtain ⟨_, each⟩ := Tree.forall_of_traverse pointed
      have leaves : List.Forall₂ (fun q a => NDArray.Box q.shape lower upper ∧ NDArray.Shaped q a)
          S.leaves v.leaves := (List.forall₂_and_left _ _).mpr ⟨inOrder, hv.leaves⟩
      have inside : ∀ c ∈ p.leaves, c.isInside lower upper = .ok true := by
        intro c among
        obtain ⟨a, member, made⟩ := exists_of_mem_right each among
        obtain ⟨q, _, box, shape⟩ := exists_of_mem_right leaves member
        exact NDArray.clip_inside box (inexact a member) shape made
          (List.all_eq_true.mp finite c among)
      rw [value_box (insideAll_iff.mpr inside)]
      rfl

end Regularizer

end ForwardBackward
