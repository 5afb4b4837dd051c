/-
# ForwardBackward.Proofs.Convexity -- regularizers as functions of points

In exact arithmetic a regularizer of the catalogue is a function of points
(`Regularizer.Models`): on a set `C` of points it is a real function `f`, elsewhere it is
infinite, and its step of size `γ` from `v` leads to a point of `C` where

    f(w) + ‖w - v‖² / (2 γ)

is least among all points `w` of `C` (`ProximalPoint`), those of complex numbers and those
that no vector of the catalogue is asked for among them.  For a sum over the entries `C` is
everything; for a box it is the points whose real parts lie between the bounds, and `f` is
zero (`Regularizer.Proper.models`).

All but the one that counts nonzero entries are convex (`Regularizer.IsConvex`), and then more is
true: every other point is worse by what it is away,

    f(p) + ‖p - v‖² / (2 γ) + ‖w - p‖² / (2 γ) ≤ f(w) + ‖w - v‖² / (2 γ)

(`ProximalPoint.least_add`).  Without convexity this fails: a count has two minimisers where
one entry is at its threshold.
-/
import ForwardBackward.Proofs.Comparisons
import ForwardBackward.Proofs.Minimizers
import Mathlib.Analysis.Convex.Function
import Mathlib.Analysis.Convex.Mul

namespace ForwardBackward

set_option autoImplicit false

open scoped InnerProductSpace

/-! ## Points of a step -/

section Points

variable {E : Type} [NormedAddCommGroup E] [InnerProductSpace ℝ E] {C : Set E} {f : E → ℝ}
  {γ : ℝ} {v p : E}

/-- The point `p` is one of `C` where `f(w) + ‖w - v‖² / (2 γ)` is least. -/
structure ProximalPoint (C : Set E) (f : E → ℝ) (γ : ℝ) (v p : E) : Prop where
  mem : p ∈ C
  least : ∀ w ∈ C, f p + ‖p - v‖ ^ 2 / (2 * γ) ≤ f w + ‖w - v‖ ^ 2 / (2 * γ)

/-- What is not negative with any small multiple of a number is not negative. -/
theorem nonneg_of_add_mul {a b : ℝ} (each : ∀ t, 0 < t → t ≤ 1 → 0 ≤ a + t * b) : 0 ≤ a := by
  have limit : Filter.Tendsto (fun t : ℝ => a + t * b) (nhdsWithin 0 (Set.Ioi 0)) (nhds a) :=
    ((by fun_prop : Continuous fun t : ℝ => a + t * b).tendsto' 0 a (by simp)).mono_left
      nhdsWithin_le_nhds
  refine ge_of_tendsto limit ?_
  filter_upwards [Ioc_mem_nhdsGT one_pos] with t inside using each t inside.1 inside.2

/-- Among convex functions the minimum is strong: any other point is worse by its distance. -/
theorem ProximalPoint.least_add (point : ProximalPoint C f γ v p) (convex : ConvexOn ℝ C f)
    (positive : 0 < γ) : ∀ w ∈ C,
    f p + ‖p - v‖ ^ 2 / (2 * γ) + ‖w - p‖ ^ 2 / (2 * γ) ≤ f w + ‖w - v‖ ^ 2 / (2 * γ) := by
  intro w inside
  have slope : 0 ≤ f w - f p + ⟪p - v, w - p⟫_ℝ / γ := by
    refine nonneg_of_add_mul (b := ‖w - p‖ ^ 2 / (2 * γ)) fun t above below => ?_
    -- the minimum is compared with a point of the segment from `p` to `w`
    have between := convex.2 point.mem inside (sub_nonneg.mpr below) above.le (sub_add_cancel 1 t)
    have least := point.least _
      (convex.1 point.mem inside (sub_nonneg.mpr below) above.le (sub_add_cancel 1 t))
    have segment : (1 - t) • p + t • w - v = (p - v) + t • (w - p) := by module
    rw [segment, norm_add_sq_real, norm_smul, real_inner_smul_right, mul_pow, Real.norm_eq_abs,
      sq_abs] at least
    rw [smul_eq_mul, smul_eq_mul] at between
    have scaled : t * (f w - f p + ⟪p - v, w - p⟫_ℝ / γ + t * (‖w - p‖ ^ 2 / (2 * γ))) =
        t * (f w - f p) + ((‖p - v‖ ^ 2 + 2 * (t * ⟪p - v, w - p⟫_ℝ) + t ^ 2 * ‖w - p‖ ^ 2) /
          (2 * γ) - ‖p - v‖ ^ 2 / (2 * γ)) := by
      field_simp
      ring
    refine nonneg_of_mul_nonneg_right ?_ above
    rw [scaled]
    linarith
  have whole : w - v = (p - v) + (w - p) := by abel
  have expanded : f w + ‖w - v‖ ^ 2 / (2 * γ) -
      (f p + ‖p - v‖ ^ 2 / (2 * γ) + ‖w - p‖ ^ 2 / (2 * γ)) =
        f w - f p + ⟪p - v, w - p⟫_ℝ / γ := by
    rw [whole, norm_add_sq_real]
    field_simp
    ring
  linarith

end Points

/-! ## Regularizers as functions -/

namespace Regularizer

/-- On the points of `C` a regularizer is the function `f`, elsewhere it is infinite; and a step
of it leads to a proximal point.  The value of a vector is known to be that of its point where the
regularizer also has steps from it. -/
structure Models (g : Regularizer Exact) (S : Structure) (C : Set S.Space) (f : S.Space → ℝ) :
    Prop where
  value : ∀ {u : Vec Exact} {U : Exact}, u.Fits S → g.Sees u → g.value u = .ok U →
    u.point S ∈ C ∧ U = .real (f (u.point S)) ∨ U = Scalar.infinity
  known : ∀ {u : Vec Exact}, u.Fits S → g.Sees u → g.Takes u → u.point S ∈ C →
    g.value u = .ok (.real (f (u.point S)))
  point : ∀ {γ : ℝ} {v p : Vec Exact} {G : Exact}, 0 < γ → v.Fits S →
    g.prox v (.real γ) = .ok (p, G) →
      G = .real (f (p.point S)) ∧ ProximalPoint C f γ (v.point S) (p.point S)

/-- The regularizers that are convex functions. -/
def IsConvex : Regularizer Exact → Prop
  | .l0 _ => False
  | _ => True

variable {g : Regularizer Exact} {S : Structure} {cost : ℂ → ℝ} {move : ℂ → ℂ} {γ : ℝ}

/-! ### Sums over the entries -/

theorem Entrywise.value_point (entrywise : g.Entrywise S γ cost move) {u : Vec Exact}
    (fits : u.Fits S) : g.value u = .ok (.real (∑ i, cost (u.point S i))) := by
  obtain ⟨us, hu⟩ := fits
  rw [entrywise.value hu, hu.point_eq, ← sum_coordinates cost hu.length_eq]
  rfl

theorem Entrywise.point_apply (entrywise : g.Entrywise S γ cost move) {v p : Vec Exact}
    (fits : v.Fits S) (found : g.point v (.real γ) = .ok p) :
    p.Fits S ∧ ∀ i, p.point S i = move (v.point S i) := by
  obtain ⟨zs, hv⟩ := fits
  obtain ⟨q, made, hp⟩ := entrywise.point hv
  cases found.symm.trans made
  refine ⟨hp.fits, fun i => ?_⟩
  rw [hp.point_eq, hv.point_eq, pointOf_map move i hv.length_eq]

theorem Entrywise.proximalPoint (entrywise : g.Entrywise S γ cost move) {v p : Vec Exact}
    (fits : v.Fits S) (found : g.point v (.real γ) = .ok p) :
    ProximalPoint Set.univ (fun w => ∑ i, cost (w i)) γ (v.point S) (p.point S) := by
  obtain ⟨_, moved⟩ := entrywise.point_apply fits found
  refine ⟨Set.mem_univ _, fun w _ => ?_⟩
  rw [EuclideanSpace.norm_sq_eq, EuclideanSpace.norm_sq_eq, Finset.sum_div, Finset.sum_div,
    ← Finset.sum_add_distrib, ← Finset.sum_add_distrib]
  refine Finset.sum_le_sum fun i _ => ?_
  rw [PiLp.sub_apply, PiLp.sub_apply, moved i]
  exact entrywise.least _ _

theorem Entrywise.models (proper : g.Proper S)
    (entrywise : ∀ γ : ℝ, 0 < γ → ∃ move, g.Entrywise S γ cost move) :
    g.Models S Set.univ fun w => ∑ i, cost (w i) where
  value fits _ valued := by
    obtain ⟨move, entrywise⟩ := entrywise 1 one_pos
    cases valued.symm.trans (entrywise.value_point fits)
    exact .inl ⟨Set.mem_univ _, rfl⟩
  known fits _ _ _ := by
    obtain ⟨move, entrywise⟩ := entrywise 1 one_pos
    exact entrywise.value_point fits
  point positive fits stepped := by
    obtain ⟨move, entrywise⟩ := entrywise _ positive
    obtain ⟨G, rfl, minimizes⟩ := prox_minimizes proper positive fits stepped
    refine ⟨?_, entrywise.proximalPoint fits (prox_accepts stepped).1⟩
    exact Except.ok.inj (minimizes.value.symm.trans (entrywise.value_point minimizes.fits))

theorem convexOn_sum (convex : ConvexOn ℝ Set.univ cost) :
    ConvexOn ℝ Set.univ fun w : S.Space => ∑ i, cost (w i) := by
  refine ⟨convex_univ, fun x _ y _ a b ha hb sum => ?_⟩
  rw [Finset.smul_sum, Finset.smul_sum, ← Finset.sum_add_distrib]
  exact Finset.sum_le_sum fun i _ =>
    convex.2 (Set.mem_univ (x i)) (Set.mem_univ (y i)) ha hb sum

/-! ### Boxes -/

section Box

variable {lower upper : NDArray Exact} {as cs : List (NDArray Exact)} {ps : List Spec}
  {zs us vs : List ℂ}

/-- The bounds at the entries of all leaves. -/
noncomputable def boundsOf (lower upper : NDArray Exact) (ps : List Spec) : List (Exact × Exact) :=
  ps.flatMap fun p => (lower.boundsOn p.shape).zip (upper.boundsOn p.shape)

/-- The points whose real parts lie between the bounds. -/
def boxed (lower upper : NDArray Exact) (S : Structure) : Set S.Space :=
  {w | ∃ us, w = pointOf S.dimension us ∧ List.Forall₂ Between (boundsOf lower upper S.leaves) us}

theorem length_boundsOf : (boundsOf lower upper ps).length =
    (ps.map fun p => volume p.shape).sum := by
  induction ps with
  | nil => rfl
  | cons p ps ih =>
      have here : ((lower.boundsOn p.shape).zip (upper.boundsOn p.shape)).length =
          volume p.shape := by
        rw [List.length_zip, NDArray.length_boundsOn, NDArray.length_boundsOn, min_self]
      have both : boundsOf lower upper (p :: ps) =
          (lower.boundsOn p.shape).zip (upper.boundsOn p.shape) ++ boundsOf lower upper ps := rfl
      rw [both, List.length_append, here, ih, List.map_cons, List.sum_cons]

/-- What lies between bounds, lies there leaf by leaf. -/
theorem forall_append {α β : Type} {P : α → β → Prop} {as bs : List α} {us : List β}
    (each : List.Forall₂ P (as ++ bs) us) :
    ∃ vs ws, us = vs ++ ws ∧ List.Forall₂ P as vs ∧ List.Forall₂ P bs ws := by
  refine ⟨us.take as.length, us.drop as.length, (List.take_append_drop _ _).symm, ?_, ?_⟩
  · have first := List.forall₂_take as.length each
    rwa [List.take_left] at first
  · have rest := List.forall₂_drop as.length each
    rwa [List.drop_left] at rest

/-- Arrays moved between their bounds are the nearest numbers that lie there. -/
theorem clipAll_nearest (boxes : ∀ p ∈ ps, NDArray.Box p.shape lower upper)
    (leaves : LeavesDenote as ps zs)
    (clipped : List.Forall₂ (fun a c => a.clip lower upper = .ok c) as cs) :
    ∃ ts, LeavesDenote cs ps ts ∧ List.Forall₂ Between (boundsOf lower upper ps) ts ∧
      ∀ us, List.Forall₂ Between (boundsOf lower upper ps) us →
        (List.zipWith (fun z w : ℂ => ‖z - w‖ ^ 2) ts zs).sum ≤
          (List.zipWith (fun z w : ℂ => ‖z - w‖ ^ 2) us zs).sum := by
  induction leaves generalizing cs with
  | nil =>
      cases clipped
      exact ⟨[], .nil, .nil, fun _ _ => by simp⟩
  | @cons a p zs ws _ _ shape denotes _ ih =>
      cases clipped with
      | @cons _ c _ cs first others =>
          have box := boxes p List.mem_cons_self
          obtain ⟨ts, shapeC, _, _, denotesC, within, nearest⟩ :=
            NDArray.clip_denotes box denotes shape first
          obtain ⟨rs, rest, remaining, least⟩ :=
            ih (fun p inside => boxes p (List.mem_cons_of_mem _ inside)) others
          refine ⟨ts.map ((↑) : ℝ → ℂ) ++ rs, .cons shapeC denotesC rest,
            List.rel_append within remaining, fun us inside => ?_⟩
          obtain ⟨ys, vs, rfl, here, there⟩ := forall_append inside
          have count : zs.length = volume p.shape := by
            rw [denotes.length_eq, a.fits, shape]
          have countC : (ts.map ((↑) : ℝ → ℂ)).length = zs.length := by
            rw [denotesC.length_eq, c.fits, shapeC, count]
          have countY : ys.length = zs.length := by
            rw [← countC, ← here.length_eq, ← within.length_eq]
          rw [List.zipWith_append countC, List.zipWith_append countY, List.sum_append,
            List.sum_append]
          exact add_le_add (nearest ys here) (least vs there)

/-- Arrays that are found inside hold numbers between the bounds, and arrays of real numbers that do
are found inside. -/
theorem insideAll_denotes (boxes : ∀ p ∈ ps, NDArray.Box p.shape lower upper)
    (leaves : LeavesDenote as ps us) (arrays : ∀ a ∈ as, a.isBare = false) :
    ((∀ a ∈ as, a.isInside lower upper = .ok true) →
      List.Forall₂ Between (boundsOf lower upper ps) us) ∧
    ((∀ a ∈ as, a.kind.isComplex = false) →
      List.Forall₂ Between (boundsOf lower upper ps) us →
        ∀ a ∈ as, a.isInside lower upper = .ok true) := by
  induction leaves with
  | nil => exact ⟨fun _ => .nil, fun _ _ => nofun⟩
  | @cons a p zs ws as ps shape denotes _ ih =>
      obtain ⟨firm, others⟩ := List.forall_mem_cons.mp arrays
      obtain ⟨inside, decided, sound, complete⟩ :=
        NDArray.isInside_denotes (boxes p List.mem_cons_self) denotes shape firm
      obtain ⟨soundAll, completeAll⟩ :=
        ih (fun p inside => boxes p (List.mem_cons_of_mem _ inside)) others
      constructor
      · intro found
        obtain ⟨here, there⟩ := List.forall_mem_cons.mp found
        cases here.symm.trans decided
        exact List.rel_append (sound rfl) (soundAll there)
      · intro real between
        obtain ⟨realA, realRest⟩ := List.forall_mem_cons.mp real
        obtain ⟨ys, vs, split, here, there⟩ := forall_append between
        have count : zs.length = ys.length := by
          rw [denotes.length_eq, a.fits, shape, ← here.length_eq, List.length_zip,
            NDArray.length_boundsOn, NDArray.length_boundsOn, min_self]
        obtain ⟨rfl, rfl⟩ := List.append_inj split count
        rw [complete realA here] at decided
        exact List.forall_mem_cons.mpr ⟨decided, completeAll realRest there⟩

/-- The numbers between two bounds are a strip. -/
theorem convex_between (b : Exact × Exact) : Convex ℝ {z : ℂ | Between b z} := by
  have reals : Set.OrdConnected
      {t : ℝ | Scalar.le b.1 (.real t) = true ∧ Scalar.le (.real t) b.2 = true} := by
    refine ⟨fun s above t below r inside => ⟨?_, ?_⟩⟩
    · exact Comparing.trans above.1 ((Exact.le_real s r).mpr inside.1)
    · exact Comparing.trans ((Exact.le_real r t).mpr inside.2) below.2
  exact reals.convex.linear_preimage Complex.reLm

theorem between_combine {bs : List (Exact × Exact)} {a b : ℝ} (ha : 0 ≤ a) (hb : 0 ≤ b)
    (sum : a + b = 1) (hu : List.Forall₂ Between bs us) (hv : List.Forall₂ Between bs vs) :
    List.Forall₂ Between bs (List.zipWith (fun z w : ℂ => a • z + b • w) us vs) := by
  induction hu generalizing vs with
  | nil =>
      cases hv
      exact .nil
  | cons here _ ih =>
      cases hv with
      | cons there others => exact .cons (convex_between _ here there ha hb sum) (ih others)

theorem convex_boxed : Convex ℝ (boxed lower upper S) := by
  rintro _ ⟨us, rfl, hu⟩ _ ⟨vs, rfl, hv⟩ a b ha hb sum
  have countU : us.length = S.dimension := hu.length_eq.symm.trans length_boundsOf
  have countV : vs.length = S.dimension := hv.length_eq.symm.trans length_boundsOf
  refine ⟨List.zipWith (fun z w => a • z + b • w) us vs, ?_, ?_⟩
  · ext i
    rw [pointOf_zipWith _ i countU countV]
    rfl
  · exact between_combine ha hb sum hu hv

theorem box_models (proper : (box lower upper).Proper S) :
    (box lower upper).Models S (boxed lower upper S) fun _ => 0 where
  value := by
    rintro u U ⟨us, hu⟩ arrays valued
    obtain ⟨inside, decided⟩ := insideAll_answers (isInside_total proper hu.leaves arrays)
    cases valued.symm.trans (value_box decided)
    cases inside with
    | false => exact .inr rfl
    | true =>
        refine .inl ⟨⟨us, hu.point_eq, ?_⟩, Exact.zero_eq⟩
        exact (insideAll_denotes proper hu.leaves arrays).1 (insideAll_iff.mp decided)
  known := by
    rintro u ⟨us, hu⟩ arrays real ⟨vs, same, between⟩
    have count : vs.length = S.dimension := between.length_eq.symm.trans length_boundsOf
    obtain rfl : us = vs := pointOf_inj hu.length_eq count (hu.point_eq.symm.trans same)
    have inside := (insideAll_denotes proper hu.leaves arrays).2 real between
    rw [value_box (insideAll_iff.mpr inside)]
    exact congrArg Except.ok Exact.zero_eq
  point := by
    intro γ v p G positive fits stepped
    obtain ⟨zs, hv⟩ := fits
    obtain ⟨found, value⟩ := prox_accepts stepped
    obtain ⟨skeleton, clipped⟩ := Tree.forall_of_traverse found
    obtain ⟨ts, leaves, within, least⟩ := clipAll_nearest proper hv.leaves clipped
    have hp : p.Denotes S ts := ⟨skeleton.trans hv.skeleton, leaves⟩
    refine ⟨(value : G = 0).trans Exact.zero_eq, ⟨ts, hp.point_eq, within⟩, ?_⟩
    rintro w ⟨us, rfl, inside⟩
    have count : us.length = S.dimension := inside.length_eq.symm.trans length_boundsOf
    rw [hp.sq_dist hv, hv.point_eq, sq_norm_pointOf_sub count hv.length_eq]
    gcongr
    exact least us inside

end Box

/-- Every regularizer of the catalogue is a function of points, and all but the count of nonzero
entries are convex. -/
theorem Proper.models (proper : g.Proper S) :
    ∃ C f, g.Models S C f ∧ (g.IsConvex → ConvexOn ℝ C f) := by
  cases g with
  | zero =>
      exact ⟨_, _, Entrywise.models proper fun γ positive => ⟨_, entrywise_zero positive⟩,
        fun _ => convexOn_sum (convexOn_const 0 convex_univ)⟩
  | l1 weight =>
      obtain ⟨l, nonneg, rfl⟩ := id proper
      exact ⟨_, _, Entrywise.models proper fun γ positive => ⟨_, entrywise_l1 positive nonneg⟩,
        fun _ => convexOn_sum (convexOn_univ_norm.smul nonneg)⟩
  | l0 weight =>
      obtain ⟨⟨l, nonneg, rfl⟩, few⟩ := id proper
      exact ⟨_, _, Entrywise.models proper fun γ positive => ⟨_, entrywise_l0 positive nonneg few⟩,
        fun convex => convex.elim⟩
  | l2 weight =>
      obtain ⟨l, nonneg, rfl⟩ := id proper
      have squares : ConvexOn ℝ Set.univ fun z : ℂ => 1 / 2 * l * ‖z‖ ^ 2 :=
        (convexOn_univ_norm.pow (fun _ _ => norm_nonneg _) 2).smul (by positivity)
      exact ⟨_, _, Entrywise.models proper fun γ positive => ⟨_, entrywise_l2 positive nonneg⟩,
        fun _ => convexOn_sum squares⟩
  | box lower upper =>
      exact ⟨_, _, box_models proper, fun _ => convexOn_const 0 convex_boxed⟩

end Regularizer

end ForwardBackward
