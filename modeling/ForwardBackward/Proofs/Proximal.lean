/-
# ForwardBackward.Proofs.Proximal -- every step of the catalogue is a global minimiser

The step of a regularizer `g` from `v` of size `γ` answers a point `p` and the value
`g(p)`, and `p` minimises `g(u) + ‖u - v‖² / (2 γ)` over all vectors `u` of the
structure (`Regularizer.prox_minimizes`).  For `zero`, `l1`, `l0` and `l2` this is
the sum of what holds for every entry (`Entrywise.minimizes`).  The value of a box is
zero or infinite, so there it is a matter of distances (`box_minimizes`).

`Regularizer.Proper` asks of the regularizer what makes it a function on the vectors
of the structure: a weight that is a number and not negative, and bounds that are in
order at every entry.
-/
import ForwardBackward.Proofs.Boxes
import ForwardBackward.Proofs.Shrinkage

namespace ForwardBackward

set_option autoImplicit false

/-- A vector none of whose leaves is a bare number. -/
def Vec.OfArrays (x : Vec Exact) : Prop := ∀ a ∈ x.leaves, a.isBare = false

namespace Regularizer

/-- The weight of a regularizer is a number that is not negative, and bounds are in order.  What
counts the nonzero entries of an array cannot count more than an array can have. -/
def Proper (S : Structure) : Regularizer Exact → Prop
  | .zero => True
  | .l1 weight | .l2 weight => ∃ l, 0 ≤ l ∧ weight = .real l
  | .l0 weight => (∃ l, 0 ≤ l ∧ weight = .real l) ∧ ∀ p ∈ S.leaves, volume p.shape < 2 ^ 63
  | .box lower upper => ∀ p ∈ S.leaves, NDArray.Box p.shape lower upper

/-- The point `p` with the value `G` minimises `g(u) + ‖u - v‖² / (2 γ)` over the vectors of a
structure. -/
structure Minimizes (g : Regularizer Exact) (S : Structure) (γ : ℝ) (v p : Vec Exact)
    (G : ℝ) : Prop where
  fits : p.Fits S
  value : g.value p = .ok (.real G)
  least : ∀ {u : Vec Exact} {U : Exact}, u.Fits S → u.OfArrays → g.value u = .ok U →
    Scalar.le (.real (G + ‖p.point S - v.point S‖ ^ 2 / (2 * γ)))
      (U + .real (‖u.point S - v.point S‖ ^ 2 / (2 * γ))) = true

variable {g : Regularizer Exact} {S : Structure} {γ : ℝ} {v p u : Vec Exact} {G U : Exact}

/-- The point of a step of a sum over the entries is a minimiser, bare numbers or not. -/
theorem Entrywise.le {cost : ℂ → ℝ} {move : ℂ → ℂ} (entrywise : g.Entrywise S γ cost move)
    (hv : v.Fits S) (stepped : g.point v (.real γ) = .ok p) (valued : g.value p = .ok G)
    (hu : u.Fits S) (there : g.value u = .ok U) :
    ∃ G', G = .real G' ∧ Scalar.le (.real (G' + ‖p.point S - v.point S‖ ^ 2 / (2 * γ)))
      (U + .real (‖u.point S - v.point S‖ ^ 2 / (2 * γ))) = true := by
  obtain ⟨zs, hv⟩ := hv
  obtain ⟨us, hu⟩ := hu
  obtain ⟨q, made, hp⟩ := entrywise.point hv
  cases stepped.symm.trans made
  cases valued.symm.trans (entrywise.value hp)
  cases there.symm.trans (entrywise.value hu)
  refine ⟨_, rfl, ?_⟩
  rw [hp.sq_dist hv, hu.sq_dist hv, Exact.real_add, Exact.le_real]
  exact entrywise.least_sum (hu.length_eq.trans hv.length_eq.symm)

theorem Entrywise.minimizes {cost : ℂ → ℝ} {move : ℂ → ℂ} (entrywise : g.Entrywise S γ cost move)
    (hv : v.Fits S) (stepped : g.point v (.real γ) = .ok p) (valued : g.value p = .ok G) :
    ∃ G', G = .real G' ∧ g.Minimizes S γ v p G' := by
  have fits := hv
  obtain ⟨zs, hv⟩ := hv
  obtain ⟨q, made, hp⟩ := entrywise.point hv
  cases stepped.symm.trans made
  cases valued.symm.trans (entrywise.value hp)
  refine ⟨_, rfl, hp.fits, valued, fun hu _ there => ?_⟩
  obtain ⟨_, same, least⟩ := entrywise.le fits stepped valued hu there
  cases same
  exact least

/-! ## Boxes -/

section Inside

variable {R : Type} [Scalar R] {lower upper : NDArray R} {as : List (NDArray R)} {x : Vec R}
  {inside : Bool}

theorem insideAll_iff :
    insideAll lower upper as = .ok true ↔ ∀ a ∈ as, a.isInside lower upper = .ok true := by
  induction as with
  | nil => exact ⟨fun _ => nofun, fun _ => rfl⟩
  | cons a as ih =>
      unfold insideAll
      rw [List.forall_mem_cons, ← ih]
      cases a.isInside lower upper with
      | error => exact ⟨nofun, fun both => nomatch both.1⟩
      | ok here =>
          cases here with
          | true => exact ⟨fun rest => ⟨rfl, rest⟩, And.right⟩
          | false => exact ⟨nofun, fun both => nomatch both.1⟩

/-- Where every array answers, it is found out whether all lie between the bounds. -/
theorem insideAll_answers (each : ∀ a ∈ as, ∃ inside, a.isInside lower upper = .ok inside) :
    ∃ inside, insideAll lower upper as = .ok inside := by
  induction as with
  | nil => exact ⟨true, rfl⟩
  | cons a as ih =>
      obtain ⟨⟨here, answered⟩, others⟩ := List.forall_mem_cons.mp each
      unfold insideAll
      rw [answered]
      cases here with
      | true => exact ih others
      | false => exact ⟨false, rfl⟩

theorem value_box (decided : insideAll lower upper x.leaves = .ok inside) :
    value (.box lower upper) x = .ok (if inside then 0 else Scalar.infinity) := by
  change (do pure (if ← insideAll lower upper x.leaves then (0 : R) else Scalar.infinity)) = _
  rw [decided]
  rfl

end Inside

section Box

variable {lower upper : NDArray Exact} {as bs cs : List (NDArray Exact)} {ps : List Spec}
  {zs us : List ℂ}

/-- Whether arrays lie between bounds is found out without a fault. -/
theorem isInside_total (boxes : ∀ p ∈ ps, NDArray.Box p.shape lower upper)
    (leaves : LeavesDenote as ps us) (arrays : ∀ a ∈ as, a.isBare = false) :
    ∀ a ∈ as, ∃ inside, a.isInside lower upper = .ok inside := by
  intro a member
  obtain ⟨p, among, zs, shape, denotes⟩ := leaves.member member
  obtain ⟨inside, decided, _⟩ := NDArray.isInside_denotes (boxes p among) denotes shape
    (arrays a member)
  exact ⟨inside, decided⟩

/-- Arrays moved between their bounds lie there, and no others that do are nearer. -/
theorem clip_nearest (boxes : ∀ p ∈ ps, NDArray.Box p.shape lower upper)
    (leaves : LeavesDenote as ps zs)
    (clipped : List.Forall₂ (fun a c => a.clip lower upper = .ok c) as cs) :
    ∃ ts, LeavesDenote cs ps ts ∧ (∀ c ∈ cs, c.isInside lower upper = .ok true) ∧
      ∀ {bs us}, LeavesDenote bs ps us → (∀ b ∈ bs, b.isBare = false) →
        (∀ b ∈ bs, b.isInside lower upper = .ok true) →
        (List.zipWith (fun z w : ℂ => ‖z - w‖ ^ 2) ts zs).sum ≤
          (List.zipWith (fun z w : ℂ => ‖z - w‖ ^ 2) us zs).sum := by
  induction leaves generalizing cs with
  | nil =>
      cases clipped
      exact ⟨[], .nil, nofun, fun _ _ _ => by simp⟩
  | @cons a p zs ws _ _ shape denotes _ ih =>
      cases clipped with
      | @cons _ c _ cs first others =>
          have box := boxes p List.mem_cons_self
          obtain ⟨ts, shapeC, firm, real, denotesC, within, nearest⟩ :=
            NDArray.clip_denotes box denotes shape first
          obtain ⟨rs, rest, remaining, least⟩ :=
            ih (fun p inside => boxes p (List.mem_cons_of_mem _ inside)) others
          obtain ⟨inside, decided, _, complete⟩ :=
            NDArray.isInside_denotes box denotesC shapeC firm
          refine ⟨ts.map (↑) ++ rs, .cons shapeC denotesC rest, ?_, ?_⟩
          · rw [complete real within] at decided
            exact List.forall_mem_cons.mpr ⟨decided, remaining⟩
          · intro bs us leavesB arrays insideB
            cases leavesB with
            | @cons b _ ys vs _ _ shapeB denotesB restB =>
                obtain ⟨here, there⟩ := List.forall_mem_cons.mp insideB
                obtain ⟨_, decidedB, sound, _⟩ := NDArray.isInside_denotes box denotesB shapeB
                  (arrays b List.mem_cons_self)
                cases here.symm.trans decidedB
                have tail := least restB
                  (fun b inside => arrays b (List.mem_cons_of_mem _ inside)) there
                have count : zs.length = volume p.shape := by
                  rw [denotes.length_eq, a.fits, shape]
                have countC : (ts.map ((↑) : ℝ → ℂ)).length = zs.length := by
                  rw [denotesC.length_eq, c.fits, shapeC, count]
                have countB : ys.length = zs.length := by
                  rw [denotesB.length_eq, b.fits, shapeB, count]
                rw [List.zipWith_append countC, List.zipWith_append countB, List.sum_append,
                  List.sum_append]
                exact add_le_add (nearest ys (sound rfl)) tail

theorem box_minimizes (boxes : (box lower upper).Proper S) (hv : v.Fits S)
    (stepped : (box lower upper).point v (.real γ) = .ok p) (positive : 0 < γ) :
    (box lower upper).Minimizes S γ v p 0 := by
  obtain ⟨zs, hv⟩ := hv
  obtain ⟨skeleton, clipped⟩ := Tree.forall_of_traverse stepped
  obtain ⟨ts, leaves, inside, least⟩ := clip_nearest boxes hv.leaves clipped
  have hp : p.Denotes S ts := ⟨skeleton.trans hv.skeleton, leaves⟩
  refine ⟨hp.fits, ?_, ?_⟩
  · rw [value_box (insideAll_iff.mpr inside)]
    exact congrArg Except.ok Exact.zero_eq
  · rintro u U ⟨us, hu⟩ arrays valued
    obtain ⟨insideU, decided⟩ := insideAll_answers (isInside_total boxes hu.leaves arrays)
    cases valued.symm.trans (value_box decided)
    rw [hp.sq_dist hv, hu.sq_dist hv, zero_add]
    cases insideU with
    | false => exact Exact.le_top _
    | true =>
        rw [if_pos rfl, Exact.zero_eq, Exact.real_add, zero_add, Exact.le_real]
        gcongr
        exact least hu.leaves arrays (insideAll_iff.mp decided)

end Box

/-- A step answers its point with the value there; that of a box answers zero without looking. -/
theorem prox_accepts {R : Type} [Scalar R] {g : Regularizer R} {v p : Vec R} {gamma G : R}
    (stepped : g.prox v gamma = .ok (p, G)) :
    g.point v gamma = .ok p ∧
      match g with
      | .box _ _ => G = 0
      | g => g.value p = .ok G := by
  unfold prox at stepped
  obtain ⟨q, pointed, stepped⟩ := bind_accepts.mp stepped
  cases g with
  | zero | l1 weight | l0 weight | l2 weight =>
      obtain ⟨_, value, done⟩ := bind_accepts.mp stepped
      cases done
      exact ⟨pointed, value⟩
  | box lower upper =>
      cases stepped
      exact ⟨pointed, rfl⟩

/-- Every step of the catalogue answers a global minimiser and the value there. -/
theorem prox_minimizes (proper : g.Proper S) (positive : 0 < γ) (hv : v.Fits S)
    (stepped : g.prox v (.real γ) = .ok (p, G)) : ∃ G', G = .real G' ∧ g.Minimizes S γ v p G' := by
  obtain ⟨pointed, value⟩ := prox_accepts stepped
  cases g with
  | zero => exact (entrywise_zero positive).minimizes hv pointed value
  | l1 weight =>
      obtain ⟨l, nonneg, rfl⟩ := proper
      exact (entrywise_l1 positive nonneg).minimizes hv pointed value
  | l0 weight =>
      obtain ⟨⟨l, nonneg, rfl⟩, few⟩ := proper
      exact (entrywise_l0 positive nonneg few).minimizes hv pointed value
  | l2 weight =>
      obtain ⟨l, nonneg, rfl⟩ := proper
      exact (entrywise_l2 positive nonneg).minimizes hv pointed value
  | box lower upper =>
      obtain rfl : G = 0 := value
      exact ⟨0, Exact.zero_eq, box_minimizes proper hv pointed positive⟩

/-- The value of a vector of arrays is known. -/
theorem value_total (proper : g.Proper S) (hu : u.Fits S) (arrays : u.OfArrays) :
    ∃ U, g.value u = .ok U := by
  obtain ⟨us, hu⟩ := hu
  cases g with
  | zero => exact ⟨_, rfl⟩
  | l1 weight =>
      obtain ⟨l, _, rfl⟩ := proper
      exact ⟨_, value_l1 l hu⟩
  | l0 weight =>
      obtain ⟨⟨l, _, rfl⟩, few⟩ := proper
      exact ⟨_, value_l0 l few hu⟩
  | l2 weight =>
      obtain ⟨l, _, rfl⟩ := proper
      exact ⟨_, value_l2 l hu⟩
  | box lower upper =>
      obtain ⟨inside, decided⟩ := insideAll_answers (isInside_total proper hu.leaves arrays)
      exact ⟨_, value_box decided⟩

end Regularizer

end ForwardBackward
