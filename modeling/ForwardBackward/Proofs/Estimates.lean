/-
# ForwardBackward.Proofs.Estimates -- an estimate sees the linear part alone

An estimate of the Lipschitz constant adds one number `δ` to every entry of the iterate
and divides the change of the gradient by the norm of the move.  In exact arithmetic
the gradient is affine: with the vector `e` of ones the change is `δ LᴴL e`, the norm of
the move is `δ √n`, and the quotient is the *curvature* `‖LᴴL e‖ / √n`
(`Operator.Meaning.curvature`).  The iterate, the data term and `δ` are gone.

So the first step size is what is left of `1`, divided by the curvature where that is
above the machine epsilon (`stepSizeFor`), and it depends on the linear part and that
epsilon (`Operator.Carries.firstStepSize`).  The epsilon is the one of the first array
of the starting point.  Two runs with one linear part whose starting points differ in
precision may begin with two step sizes (`Faint.precisions_tell`).
-/
import ForwardBackward.Proofs.Broadcasts
import ForwardBackward.Proofs.DataTerms
import ForwardBackward.Proofs.Multiples
import ForwardBackward.Proofs.Probes
import ForwardBackward.Source

namespace ForwardBackward

set_option autoImplicit false

variable {σ : Type}

/-! ## A number added to every entry -/

namespace Structure

/-- The point whose coordinates are ones. -/
noncomputable def ones (S : Structure) : S.Space := WithLp.toLp _ fun _ => 1

theorem norm_ones (S : Structure) : ‖S.ones‖ = √S.dimension := by
  rw [EuclideanSpace.norm_eq]
  simp [ones]

theorem leaves_of_dimension {S : Structure} (entries : S.dimension ≠ 0) : S.leaves ≠ [] := by
  intro none
  exact entries (by rw [dimension, none]; rfl)

end Structure

section Vectors

variable {S : Structure} {x : Vec Exact} {a : NDArray Exact} {us : List ℂ}

theorem NDArray.shift_denotes (c : ℝ) (ha : a.entries.Denotes us) :
    (a.shift (.real c)).entries.Denotes (us.map fun z => z + c) := by
  change (Entries.mapInexact (fun p x => p.add x (p.ofNumber (.real c)))
    (fun p z => Cartesian.add p z (.ofReal (p.ofNumber (.real c)))) a.entries).Denotes _
  exact ha.mapInexact (fun p x => ⟨x + c, by simp, by simp⟩) fun p z => by simp

theorem pointOf_shift {n : ℕ} (c : ℝ) (hu : us.length = n) :
    pointOf n (us.map fun z => z + c) = pointOf n us + c • WithLp.toLp _ fun _ => 1 := by
  ext i
  rw [pointOf_map _ i hu]
  simp

namespace Vec.Fits

theorem shift (c : ℝ) (hx : x.Fits S) : (x.shift (.real c)).Fits S ∧
    (x.shift (.real c)).point S = x.point S + c • S.ones := by
  obtain ⟨us, hx⟩ := hx
  have moved : (x.shift (.real c)).Denotes S (us.map fun z => z + c) :=
    hx.map fun denotes => ⟨rfl, NDArray.shift_denotes c denotes⟩
  refine ⟨moved.fits, ?_⟩
  rw [moved.point_eq, hx.point_eq, pointOf_shift c hx.length_eq, Structure.ones]

/-- A vector without bare numbers is one of arrays of fractions. -/
theorem fractional (hx : x.Fits S) (solid : ∀ a ∈ x.leaves, a.isBare = false) :
    x.Fractional S := by
  obtain ⟨us, skeleton, leaves⟩ := hx
  refine ⟨skeleton, ?_⟩
  generalize S.leaves = ps at leaves ⊢
  generalize x.leaves = as at leaves solid
  induction leaves with
  | nil => exact .nil
  | @cons a p zs ws as ps shape denotes _ ih =>
      exact .cons ⟨⟨shape, solid a List.mem_cons_self⟩, denotes.kind_ne_whole⟩
        (ih fun b inside => solid b (List.mem_cons_of_mem _ inside))

end Vec.Fits

/-- A starting point that is accepted has no bare numbers. -/
theorem startingPoint_solid {A : Operator σ Exact} {x0 : Option (Vec Exact)}
    (accepted : Solver.startingPoint A x0 = .ok x) : ∀ a ∈ x.leaves, a.isBare = false := by
  simp only [Solver.startingPoint, Vec.toInexact, bind_accepts, pure_accepts] at accepted
  obtain ⟨_, ⟨y, arrays, rfl⟩, _, _, rfl⟩ := accepted
  intro a inside
  obtain ⟨b, among, rfl⟩ := List.mem_map.mp inside
  rw [(Vec.asArrays_accepts arrays).2] at among
  obtain ⟨c, _, rfl⟩ := List.mem_map.mp among
  exact NDArray.toFractional_firm (by decide) NDArray.isBare_enter

end Vectors

/-! ## The curvature -/

/-- A vector and the gradient there: what the adjoint answers for what the operator answers. -/
def Operator.Graded {R : Type} [Scalar R] (A : Operator σ R) (x grad : Vec R) : Prop :=
  ∃ ax e₁ e₂ e₃ e₄, A.apply x e₁ = .ok ax e₂ ∧ A.applyAdjoint ax e₃ = .ok grad e₄

namespace Operator.Meaning

variable {A : Operator σ Exact} (M : A.Meaning)

/-- How much the gradient changes in the direction of ones, for its length. -/
noncomputable def curvature : ℝ := ‖M.adjoint (M.linear A.domain.ones)‖ / √A.domain.dimension

theorem gradient_add (x h : A.domain.Space) :
    M.gradient (x + h) = M.gradient x + M.adjoint (M.linear h) := by
  unfold gradient
  rw [M.map_add, LinearMap.map_add]

/-- A vector and the point that is the gradient there. -/
structure Slope (x grad : Vec Exact) : Prop where
  x_fits : x.Fits A.domain
  grad_fits : grad.Fits A.domain
  gradient : grad.point A.domain = M.gradient (x.point A.domain)

theorem slope_of_graded {x grad : Vec Exact} (hx : x.Fits A.domain) (graded : A.Graded x grad) :
    M.Slope x grad := by
  obtain ⟨ax, e₁, e₂, e₃, e₄, applied, back⟩ := graded
  obtain ⟨fits, image⟩ := M.apply hx applied
  obtain ⟨fitsG, gradient⟩ := M.applyAdjoint fits back
  exact ⟨hx, fitsG, by rw [gradient, image, Meaning.gradient]⟩

end Operator.Meaning

theorem Evaluated.slope {A : Operator σ Exact} {M : A.Meaning} {x ax grad : Vec Exact} {fx : Exact}
    (evaluated : Evaluated M x ax fx grad) : M.Slope x grad :=
  ⟨evaluated.x_fits, evaluated.grad_fits, by
    rw [evaluated.gradient, evaluated.image, Operator.Meaning.gradient]⟩

/-! ## What an estimate computes -/

/-- The step size for a machine epsilon and a curvature. -/
noncomputable def stepSizeFor (ε ℓ : ℝ) : ℝ := if ε < ℓ then (1 - 0.05) / ℓ else 1 - 0.05

theorem stepSizeFor_eq (ε ℓ : ℝ) :
    stepSizeFor ε ℓ = if ε < ℓ then (1 - 1 / 20) / ℓ else 1 - 1 / 20 := by
  unfold stepSizeFor
  norm_num only

theorem stepSizeFor_positive {ε : ℝ} (positive : 0 < ε) (ℓ : ℝ) : 0 < stepSizeFor ε ℓ := by
  rw [stepSizeFor_eq]
  split
  · next above =>
      have nonzero : 0 < ℓ := positive.trans above
      positivity
  · norm_num

theorem State.usableGamma_real {ε : ℝ} (positive : 0 < ε) (ℓ : ℝ) :
    (usableGamma (.real ε) (.real ℓ) : Exact) = .real (stepSizeFor ε ℓ) := by
  have gammaFor_real : ∀ l : ℝ, 0 < l →
      (gammaFor (.real l) : Exact) = .real ((1 - 1 / 20) / l) := by
    intro l above
    unfold gammaFor
    rw [safety_eq, Exact.one_eq, Exact.real_sub, Exact.real_div _ _ above.ne']
  rw [stepSizeFor_eq]
  unfold usableGamma
  by_cases above : ε < ℓ
  · have usable : (Scalar.isFinite (Exact.real ℓ) &&
        !Scalar.le (Exact.real ℓ) (Exact.real ε)) = true := by
      rw [Bool.and_eq_true, Bool.not_eq_true', Bool.eq_false_iff, ne_eq, Exact.le_real]
      exact ⟨rfl, above.not_ge⟩
    rw [if_pos usable, if_pos above, gammaFor_real ℓ (positive.trans above)]
  · have useless : ¬ (Scalar.isFinite (Exact.real ℓ) &&
        !Scalar.le (Exact.real ℓ) (Exact.real ε)) = true := by
      rw [Bool.and_eq_true, Bool.not_eq_true', Bool.eq_false_iff, ne_eq, Exact.le_real]
      exact fun usable => usable.2 (not_lt.mp above)
    rw [if_neg useless, if_neg above, Exact.one_eq, gammaFor_real 1 one_pos, div_one]

namespace State

variable {A : Operator σ Exact} {M : A.Meaning} {s : State Exact}

/-- The change of the gradient for a move by `δ` in every entry, and its quotient by the norm of
the move: the curvature, whatever `δ` is. -/
theorem changes_of_slope (total : A.Total) (slope : M.Slope s.x s.grad)
    (entries : A.domain.dimension ≠ 0) {δ : ℝ} (positive : 0 < δ) (env : σ) :
    ∃ change env', s.Changes A (.real δ) env change env' ∧
      lipschitzOf (.real δ) change A.domain.dimension = .ok (.real M.curvature) := by
  obtain ⟨fits, moved⟩ := slope.x_fits.shift δ
  obtain ⟨ax, env₁, applied⟩ := total.apply env fits
  obtain ⟨grad, env', back⟩ := total.applyAdjoint env₁ (M.apply fits applied).1
  have there := M.slope_of_graded fits ⟨ax, _, _, _, _, applied, back⟩
  obtain ⟨r, difference, fitsR, pointR⟩ := slope.grad_fits.sub there.grad_fits
  obtain ⟨change, arrays, fitsC, pointC⟩ := fitsR.asArrays
  refine ⟨change, env', ⟨ax, env₁, grad, r, applied, back, difference, arrays⟩, ?_⟩
  have norm : change.norm = .real (δ * ‖M.adjoint (M.linear A.domain.ones)‖) := by
    rw [fitsC.norm_eq, pointC, pointR, slope.gradient, there.gradient, moved, M.gradient_add,
      sub_add_cancel_left, norm_neg, map_smul, map_smul, norm_smul,
      Real.norm_of_nonneg positive.le]
  have root : 0 < √(A.domain.dimension : ℝ) := by
    rw [Real.sqrt_pos, Nat.cast_pos]
    exact Nat.pos_of_ne_zero entries
  -- `δ` is a factor of the change and of the norm of the move, and the quotient is without it.
  unfold lipschitzOf
  rw [norm, Exact.ofInt_eq, Int.cast_natCast, Exact.sqrt_real _ (Nat.cast_nonneg _),
    Exact.real_mul, Exact.quotient_real]
  refine ⟨(mul_pos positive root).ne', congrArg Exact.real ?_⟩
  rw [Operator.Meaning.curvature, mul_div_mul_left _ _ positive.ne']

/-- What an estimate meets at a vector of arrays, and what it estimates. -/
theorem probes_of_slope (total : A.Total) (slope : M.Slope s.x s.grad)
    (solid : ∀ a ∈ s.x.leaves, a.isBare = false) (entries : A.domain.dimension ≠ 0) :
    ∃ ε, 0 < ε ∧ s.x.machineEps = .ok (.real ε) ∧ ∀ env, ∃ change env',
      s.Probes A env (.real ε) change A.domain.dimension env' ∧
      lipschitzOf (Scalar.sqrt (.real ε)) change A.domain.dimension =
        .ok (.real M.curvature) := by
  have fractional := slope.x_fits.fractional solid
  obtain ⟨p, spacing⟩ := fractional.machineEps (Structure.leaves_of_dimension entries)
  obtain ⟨ε, positive, eps⟩ := p.eps_positive
  rw [eps] at spacing
  refine ⟨ε, positive, spacing, fun env => ?_⟩
  rw [Exact.sqrt_real _ positive.le]
  obtain ⟨change, env', changes, estimate⟩ :=
    changes_of_slope total slope entries (Real.sqrt_pos.mpr positive) env
  rw [← Exact.sqrt_real _ positive.le] at changes
  exact ⟨change, env', ⟨spacing, changes, fractional.ofShape.size⟩, estimate⟩

/-- The estimate is the curvature, and the step size is the one for it. -/
theorem estimates_of_slope (total : A.Total) (slope : M.Slope s.x s.grad)
    (solid : ∀ a ∈ s.x.leaves, a.isBare = false) (entries : A.domain.dimension ≠ 0) :
    ∃ ε, 0 < ε ∧ s.x.machineEps = .ok (.real ε) ∧ ∀ env, ∃ env',
      s.estimateLipschitz A env = .ok (.real M.curvature, s.probed) env' ∧
      ∀ verbosity notes, ∃ notes', s.estimateGamma A verbosity ⟨env, notes⟩ =
        .ok (.real (stepSizeFor ε M.curvature), s.probed) ⟨env', notes'⟩ := by
  obtain ⟨ε, positive, spacing, meets⟩ := probes_of_slope total slope solid entries
  refine ⟨ε, positive, spacing, fun env => ?_⟩
  obtain ⟨change, env', probes, estimate⟩ := meets env
  refine ⟨env', ?_, fun verbosity notes => ?_⟩
  · rw [probes.estimateLipschitz_eq, estimate]
    rfl
  · rw [← usableGamma_real positive]
    exact probes.estimateGamma_answers estimate verbosity notes

end State

namespace Solver

variable {A : Operator σ Exact} {g : Prox σ Exact} {c : Config σ Exact} {n : ℕ}
  {x0 : Option (Vec Exact)}

/-- A run that estimates its first step size takes its first step. -/
theorem launch_estimates (M : A.Meaning) (served : Served A g c n) (chosen : c.stepSize = none)
    (entries : A.domain.dimension ≠ 0) {memory : ℕ} (slots : c.memory.slots = .ok memory)
    (finite : ∀ v, x0 = some v → v.allFinite = true) {x : Vec Exact}
    (started : startingPoint A x0 = .ok x) (w : World σ Exact) :
    ∃ s w', launch A g x0 c w = .ok s w' := by
  refine launch_of_begins slots started (begin_of_firstGamma M served
    (startingPoint_fits finite started) fun s₁ w₁ evaluated same => ?_) w
  have solid : ∀ a ∈ s₁.x.leaves, a.isBare = false := by
    rw [same]
    exact startingPoint_solid started
  obtain ⟨ε, positive, _, estimates⟩ :=
    State.estimates_of_slope served.total evaluated.slope solid entries
  obtain ⟨env', _, answers⟩ := estimates w₁.env
  obtain ⟨notes', answered⟩ := answers c.verbosity w₁.notes
  refine ⟨_, s₁.probed, ⟨env', notes'⟩, stepSizeFor_positive positive M.curvature, ?_⟩
  unfold firstGamma
  rw [chosen]
  exact answered

/-- The step size of a run that estimates it. -/
theorem launch_stepSize (M : A.Meaning) (total : A.Total) (entries : A.domain.dimension ≠ 0)
    (chosen : c.stepSize = none) (finite : ∀ v, x0 = some v → v.allFinite = true)
    {s : State Exact} {w w' : World σ Exact} (launched : launch A g x0 c w = .ok s w') :
    ∃ ε, s.x.machineEps = .ok (.real ε) ∧ s.gamma = .real (stepSizeFor ε M.curvature) := by
  obtain ⟨x, memory, s₁, w₁, gamma, s₂, w₂, s₃, s₄, started, _, evaluates, sizes, set, steps, _,
    rfl⟩ := launch_returns launched
  have fits := startingPoint_fits finite started
  obtain ⟨ax, fx, grad, evaluated, rfl⟩ := State.evaluate_evaluated (M := M) evaluates fits
  obtain ⟨ε, _, spacing, estimates⟩ := State.estimates_of_slope total
    (s := State.markValid { State.start x memory with ax, fx, grad, operatorCalls := _ })
    evaluated.slope (startingPoint_solid started) entries
  obtain ⟨env', _, answers⟩ := estimates w₁.env
  obtain ⟨notes', answered⟩ := answers c.verbosity w₁.notes
  unfold firstGamma at sizes
  rw [chosen] at sizes
  cases sizes.symm.trans answered
  obtain ⟨sigma, _, rfl⟩ := State.setGamma_accepts.mp set
  obtain ⟨_, _, _, _, _, _, rfl⟩ := State.step_frame steps
  exact ⟨ε, spacing, rfl⟩

end Solver

/-! ## Operators with one linear part -/

namespace Operator

variable {L : Operator σ Exact}

/-- The operator is a linear one, or the one with a data term. -/
inductive Carries (L : Operator σ Exact) : Operator σ Exact → Prop where
  | nothing : L.isLinear = true → Carries L L
  | data {b : Vec Exact} {A : Operator σ Exact} : b.Datum → L.affine b = .ok A → Carries L A

/-- With a data term or without, the curvature is that of the linear part. -/
theorem Carries.curvature {A : Operator σ Exact} (carries : L.Carries A) (M : L.Meaning)
    (total : L.Total) : A.domain = L.domain ∧ A.Total ∧
      ∃ M' : A.Meaning, M'.curvature = M.curvature := by
  cases carries with
  | nothing => exact ⟨rfl, total, M, rfl⟩
  | data datum made =>
      obtain ⟨linear, checked, rfl⟩ := affine_accepts made
      exact ⟨rfl, total.less M datum checked, M.less linear datum checked, rfl⟩

/-- Finite data that a linear operator is given make an operator that carries them. -/
theorem Carries.of_withData {A : Operator σ Exact} (linear : L.isLinear = true)
    {b : Option (Vec Exact)} (finite : ∀ v, b = some v → v.allFinite = true)
    (made : L.withData b = .ok A) : L.Carries A := by
  cases b with
  | none =>
      cases made
      exact .nothing linear
  | some b =>
      unfold withData at made
      rw [linear] at made
      obtain ⟨c, inexact, made⟩ := bind_accepts.mp made
      simp only [Vec.toInexact, bind_accepts, pure_accepts] at inexact
      obtain ⟨y, arrays, rfl⟩ := inexact
      refine .data (fun a inside => ?_) made
      obtain ⟨e, among, rfl⟩ := List.mem_map.mp inside
      rw [(Vec.asArrays_accepts arrays).2] at among
      obtain ⟨d, given, rfl⟩ := List.mem_map.mp among
      have entered := NDArray.enter_allFinite (List.all_eq_true.mp (finite b rfl) d given)
      obtain ⟨us, denotes⟩ := NDArray.toFractional_denotes entered .double
      have firm : (d.enter.toFractional .double).isBare = false :=
        NDArray.toFractional_firm (by decide) NDArray.isBare_enter
      exact ⟨denotes.allFinite, fun bare => absurd (firm.symm.trans bare) Bool.false_ne_true⟩

/-- **The first step size depends on the linear part.**  `L` is a linear operator on a variable with
an entry, `A` is `L` or carries a data term, and the gradient is the one that `A` answers.

* Moved by any `δ` in every entry, and at every vector of arrays, the quotient is the curvature of
  `L`; so is the estimate, and the step size is the one for it and for the machine epsilon there.
* A run on `A` that estimates its step size begins with that one.
* Two such runs begin with one step size if the machine epsilons of their starting points agree,
  whatever these, the data terms and all the rest are. -/
theorem Meaning.firstStepSize (M : L.Meaning) (total : L.Total) (entries : L.domain.dimension ≠ 0) :
    (∀ {A : Operator σ Exact} {s : State Exact}, L.Carries A → s.x.Fits L.domain →
      (∀ a ∈ s.x.leaves, a.isBare = false) → A.Graded s.x s.grad →
      (∀ δ : ℝ, 0 < δ → ∀ env, ∃ change env', s.Changes A (.real δ) env change env' ∧
        State.lipschitzOf (.real δ) change L.domain.dimension = .ok (.real M.curvature)) ∧
      ∃ ε, 0 < ε ∧ s.x.machineEps = .ok (.real ε) ∧ ∀ env, ∃ env',
        s.estimateLipschitz A env = .ok (.real M.curvature, s.probed) env' ∧
        ∀ verbosity notes, ∃ notes', s.estimateGamma A verbosity ⟨env, notes⟩ =
          .ok (.real (stepSizeFor ε M.curvature), s.probed) ⟨env', notes'⟩) ∧
    (∀ {A : Operator σ Exact} {g : Prox σ Exact} {c : Config σ Exact} {x0 : Option (Vec Exact)}
      {s : State Exact} {w w' : World σ Exact}, L.Carries A → c.stepSize = none →
      (∀ v, x0 = some v → v.allFinite = true) → Solver.launch A g x0 c w = .ok s w' →
      ∃ ε, s.x.machineEps = .ok (.real ε) ∧ s.gamma = .real (stepSizeFor ε M.curvature)) ∧
    (∀ {A A' : Operator σ Exact} {g g' : Prox σ Exact} {c c' : Config σ Exact}
      {x0 x0' : Option (Vec Exact)} {s s' : State Exact} {w w' v v' : World σ Exact},
      L.Carries A → L.Carries A' → c.stepSize = none → c'.stepSize = none →
      (∀ v, x0 = some v → v.allFinite = true) → (∀ v, x0' = some v → v.allFinite = true) →
      Solver.launch A g x0 c w = .ok s w' → Solver.launch A' g' x0' c' v = .ok s' v' →
      s.x.machineEps = s'.x.machineEps → s.gamma = s'.gamma) := by
  have begins : ∀ {A : Operator σ Exact} {g : Prox σ Exact} {c : Config σ Exact}
      {x0 : Option (Vec Exact)} {s : State Exact} {w w' : World σ Exact}, L.Carries A →
      c.stepSize = none → (∀ v, x0 = some v → v.allFinite = true) →
      Solver.launch A g x0 c w = .ok s w' →
      ∃ ε, s.x.machineEps = .ok (.real ε) ∧ s.gamma = .real (stepSizeFor ε M.curvature) := by
    intro A g c x0 s w w' carries chosen finite launched
    obtain ⟨domain, totalA, M', curvature⟩ := carries.curvature M total
    rw [← domain] at entries
    rw [← curvature]
    exact Solver.launch_stepSize M' totalA entries chosen finite launched
  refine ⟨?estimates, begins, ?agree⟩
  case estimates =>
    intro A s carries fits solid graded
    obtain ⟨domain, totalA, M', curvature⟩ := carries.curvature M total
    rw [← domain] at entries fits ⊢
    rw [← curvature]
    have slope := M'.slope_of_graded fits graded
    exact ⟨fun δ positive env => State.changes_of_slope totalA slope entries positive env,
      State.estimates_of_slope totalA slope solid entries⟩
  case agree =>
    intro A A' g g' c c' x0 x0' s s' w w' v v' carries carries' chosen chosen' finite finite'
      launched launched' same
    obtain ⟨ε, spacing, gamma⟩ := begins carries chosen finite launched
    obtain ⟨ε', spacing', gamma'⟩ := begins carries' chosen' finite' launched'
    rw [spacing, spacing'] at same
    cases same
    exact gamma.trans gamma'.symm

end Operator

/-! ## Runs with a faint operator -/

theorem Operator.multiple_curvature (S : Structure) (a : ℝ) (entries : S.dimension ≠ 0) :
    (multipleMeaning S a).curvature = a ^ 2 := by
  have root : √(S.dimension : ℝ) ≠ 0 := by
    rw [Real.sqrt_ne_zero (Nat.cast_nonneg _), Nat.cast_ne_zero]
    exact entries
  change ‖a • a • S.ones‖ / √S.dimension = a ^ 2
  rw [smul_smul, norm_smul, S.norm_ones, mul_div_cancel_right₀ _ root, Real.norm_of_nonneg
    (mul_self_nonneg a), sq]

theorem Precision.eps_eq (p : Precision) :
    (p.eps : Exact) = .real (1 / 2 ^ if p = .single then 23 else 52) := by
  have inverse : ∀ n : ℕ, (1 / Scalar.ofInt (Nat.pow 2 n : ℕ) : Exact) = .real (1 / 2 ^ n) := by
    intro n
    have cast : (((Nat.pow 2 n : ℕ) : ℤ) : ℝ) = 2 ^ n := by
      rw [Int.cast_natCast]
      exact Nat.cast_pow 2 n
    rw [Exact.one_eq, Exact.ofInt_eq, cast, Exact.real_div _ _ (by positivity)]
  cases p <;> exact inverse _

namespace Faint

open Plain (pair prox world)

/-- A number twice, in a precision. -/
def start (p : Precision) (x : ℝ) : Vec Exact := .leaf ⟨[2], .real p [.real x, .real x], rfl⟩

/-- Options that give no step size, and may want a search for one. -/
noncomputable def config (search : Bool) : Config Unit Exact :=
  { Plain.config 1 with stepSize := none, searchesGamma := search }

theorem config_checked (search : Bool) : (config search).Checked := by
  refine ⟨{ Settings.standard with
    tolerance := .fraction (.real 1), maxIterations := .whole 2, memory := .whole 0
    searchesGamma := .flag search }, some (.always (.decided false)), ?_⟩
  unfold Config.ofSettings
  rw [Setting.tolerance_of_positive one_pos]
  rfl

theorem start_finite (p : Precision) (x : ℝ) :
    ∀ v, some (start p x) = some v → v.allFinite = true := by
  rintro v ⟨⟩
  rfl

theorem served {A : Operator Unit Exact} (total : A.Total) (search : Bool) :
    Solver.Served A prox (config search) 32 where
  total := total
  answers := Prox.zero_total
  stays := Prox.zero_staysIn
  decides := fun _ _ env => ⟨false, env, rfl⟩
  budget := rfl

theorem pair_entries : pair.dimension ≠ 0 := by decide

/-- Every multiple of two numbers begins, with a data term or without. -/
theorem launches {A : Operator Unit Exact} {a : ℝ} (carries : (Operator.multiple pair a).Carries A)
    {p : Precision} (firm : p = .single ∨ p = .double) (x : ℝ) (search : Bool) :
    ∃ s w', Solver.launch A prox (some (start p x)) (config search) world = .ok s w' ∧
      s.x = start p x := by
  obtain ⟨domain, total, M, _⟩ :=
    carries.curvature (Operator.multipleMeaning pair a) (Operator.multiple_total pair a)
  have started : Solver.startingPoint A (some (start p x)) = .ok (start p x) := by
    unfold Solver.startingPoint
    rw [domain]
    rcases firm with rfl | rfl <;> rfl
  have entries : A.domain.dimension ≠ 0 := by
    rw [domain]
    exact pair_entries
  obtain ⟨s, w', launched⟩ := Solver.launch_estimates M (served total search) rfl entries rfl
    (start_finite p x) started world
  refine ⟨s, w', launched, ?_⟩
  exact Except.ok.inj ((Solver.launch_starts launched).2.2.2.symm.trans started)

/-- Two runs with one linear part, the second one from another point and with a data term. -/
theorem begin_alike : ∃ A s s' w w',
    (Operator.multiple pair 1).withData (some (start .double 3)) = .ok A ∧
    Solver.launch (.multiple pair 1) prox (some (start .double 3)) (config true) world = .ok s w ∧
    Solver.launch A prox (some (start .double 4)) (config true) world = .ok s' w' ∧
    s.gamma = s'.gamma := by
  obtain ⟨A, made⟩ : ∃ A, (Operator.multiple pair 1).withData (some (start .double 3)) = .ok A :=
    ⟨_, rfl⟩
  have plain : (Operator.multiple pair 1).Carries (.multiple pair 1) := .nothing rfl
  have carries : (Operator.multiple pair 1).Carries A :=
    .of_withData rfl (start_finite .double 3) made
  obtain ⟨s, w, launched, x⟩ := launches plain (.inr rfl) 3 true
  obtain ⟨s', w', launched', x'⟩ := launches carries (.inr rfl) 4 true
  have spacings : s.x.machineEps = s'.x.machineEps := by
    rw [x, x']
    rfl
  refine ⟨A, s, s', w, w', made, launched, launched', ?_⟩
  exact (Operator.Meaning.firstStepSize (Operator.multipleMeaning pair 1)
    (Operator.multiple_total pair 1) pair_entries).2.2 plain carries rfl rfl
    (start_finite .double 3) (start_finite .double 4) launched launched' spacings

/-- A multiple with a curvature between the two machine epsilons. -/
noncomputable abbrev operator : Operator Unit Exact := .multiple pair (1 / 2 ^ 13)

/-- Two runs with it from one point, in double precision and in single precision. -/
theorem precisions_tell : ∃ s s' w w',
    operator.Carries operator ∧
    Solver.launch operator prox (some (start .double 1)) (config true) world = .ok s w ∧
    Solver.launch operator prox (some (start .single 1)) (config true) world = .ok s' w' ∧
    s.gamma ≠ s'.gamma := by
  have total := Operator.multiple_total pair (1 / 2 ^ 13)
  have carries : operator.Carries operator := .nothing rfl
  have curvature := Operator.multiple_curvature pair (1 / 2 ^ 13) pair_entries
  have begins : ∀ {p : Precision}, p = .single ∨ p = .double → ∃ s w',
      Solver.launch operator prox (some (start p 1)) (config true) world = .ok s w' ∧
      s.gamma =
        .real (stepSizeFor (1 / 2 ^ if p = .single then 23 else 52) ((1 / 2 ^ 13) ^ 2)) := by
    intro p firm
    obtain ⟨s, w, launched, x⟩ := launches carries firm 1 true
    obtain ⟨ε, spacing, gamma⟩ := Solver.launch_stepSize (Operator.multipleMeaning pair _)
      total pair_entries rfl (start_finite p 1) launched
    have read : (start p 1).machineEps = .ok p.eps := by
      rcases firm with rfl | rfl <;> rfl
    rw [x, read, Precision.eps_eq] at spacing
    cases spacing
    exact ⟨s, w, launched, by rw [gamma, curvature]⟩
  obtain ⟨s, w, launched, double⟩ := begins (.inr rfl)
  obtain ⟨s', w', launched', single⟩ := begins (.inl rfl)
  refine ⟨s, s', w, w', carries, launched, launched', ?_⟩
  rw [double, single]
  intro same
  have same := Exact.real.inj same
  rw [stepSizeFor_eq, stepSizeFor_eq, if_neg (by decide : Precision.double ≠ .single),
    if_pos (rfl : Precision.single = .single)] at same
  norm_num at same

end Faint

end ForwardBackward
