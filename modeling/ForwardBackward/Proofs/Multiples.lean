/-
# ForwardBackward.Proofs.Multiples -- the operator that multiplies by a number

The operator that multiplies every vector of a structure by a number `a` is one that
the theorems about runs speak of (`Operator.multipleMeaning`), and `a ^ 2` bounds the
square of its norm (`Operator.multiple_smooth`).

`Plain` is the smallest problem with it: the smooth term `½ ‖x‖²` of two numbers, no
regularizer, no memory, and a given step size.  All that the theorems ask for holds
of it, so none of them is about nothing.
-/
import ForwardBackward.Proofs.GradientDescent

namespace ForwardBackward

set_option autoImplicit false

open scoped InnerProductSpace

namespace Operator

variable (S : Structure) (a : ℝ)

/-- Multiplication of the vectors of a structure by a number. -/
noncomputable def multiple : Operator Unit Exact where
  isLinear := true
  domain := S
  codomain := S
  apply x := pure (x.scale (.real a))
  applyLinear x := pure (x.scale (.real a))
  applyAdjoint y := pure (y.scale (.real a))

/-- What the operator answers, it answers by multiplication. -/
theorem multiple_answers {x y : Vec Exact} {env env' : Unit} (fits : x.Fits S)
    (answered : (pure (x.scale (.real a)) : Call Unit (Vec Exact)) env = .ok y env') :
    y.Fits S ∧ y.point S = (a • LinearMap.id : S.Space →ₗ[ℝ] S.Space) (x.point S) := by
  obtain ⟨rfl, _⟩ := pure_returns.mp answered
  exact ⟨fits.scale a, fits.point_scale a⟩

noncomputable def multipleMeaning : (multiple S a).Meaning where
  map x := a • x
  linear := (a • LinearMap.id : S.Space →ₗ[ℝ] S.Space)
  adjoint := (a • LinearMap.id : S.Space →ₗ[ℝ] S.Space)
  affine x h := by
    change a • (x + h) - a • x = a • h
    rw [smul_add, add_sub_cancel_left]
  apply := multiple_answers S a
  applyLinear := multiple_answers S a
  applyAdjoint := multiple_answers S a

theorem multiple_smooth : (multipleMeaning S a).Smooth (a ^ 2) := by
  refine ⟨fun v y => ?_, fun v => ?_⟩
  · exact (real_inner_smul_left (F := S.Space) v y a).trans (real_inner_smul_right v y a).symm
  · change ‖a • v‖ ^ 2 ≤ a ^ 2 * ‖v‖ ^ 2
    rw [norm_smul, mul_pow, Real.norm_eq_abs, sq_abs]

theorem multiple_total : (multiple S a).Total :=
  ⟨fun env _ => ⟨_, env, rfl⟩, fun env _ => ⟨_, env, rfl⟩, fun env _ => ⟨_, env, rfl⟩⟩

end Operator

/-! ## A plain problem -/

namespace Plain

/-- Two numbers. -/
def pair : Structure := .leaf ⟨[2], .real .double⟩

def start : Vec Exact := .leaf ⟨[2], .real .double [.real 3, .real (4 : ℕ)], rfl⟩

theorem pair_denotes (a b : ℝ) :
    Vec.Denotes pair (.leaf ⟨[2], .real .double [.real a, .real b], rfl⟩) [(a : ℂ), (b : ℂ)] :=
  ⟨rfl, LeavesDenote.cons (a := ⟨[2], .real .double [.real a, .real b], rfl⟩)
    (p := ⟨[2], .real .double⟩) rfl (.real .double [a, b]) .nil⟩

noncomputable abbrev operator : Operator Unit Exact := .multiple pair 1

noncomputable abbrev meaning : operator.Meaning := Operator.multipleMeaning pair 1

noncomputable abbrev prox : Prox Unit Exact := .ofRegularizer .zero

/-- Two iterations without memory. -/
noncomputable def config (γ : ℝ) : Config Unit Exact where
  tolerance := .real 1
  maxIterations := .whole 2
  memory := .whole 0
  verbosity := .periodic
  reportPeriod := .whole 100
  halt := some (.always (.decided false))
  stepSize := some (.real γ)
  searchesGamma := true
  searchBudget := .whole 32

def world : World Unit Exact := ⟨(), #[]⟩

/-- The options are the standard ones but for five of them. -/
theorem config_checked {γ : ℝ} (positive : 0 < γ) : (config γ).Checked := by
  refine ⟨{ Settings.standard with
    tolerance := .fraction (.real 1), maxIterations := .whole 2, memory := .whole 0
    stepSize := .fraction (.real γ) }, some (.always (.decided false)), ?_⟩
  unfold Config.ofSettings
  rw [Setting.tolerance_of_positive one_pos, Setting.stepSize_of_positive positive]
  rfl

theorem served (γ : ℝ) : Solver.Served operator prox (config γ) 32 where
  total := Operator.multiple_total pair 1
  answers := Prox.zero_total
  stays := Prox.zero_staysIn
  decides := fun _ _ env => ⟨false, env, rfl⟩
  budget := rfl

theorem start_finite : ∀ v, some start = some v → v.allFinite = true := by
  rintro v ⟨⟩
  rfl

theorem start_accepted : Solver.startingPoint operator (some start) = .ok start := rfl

theorem start_fits : start.Fits pair :=
  startingPoint_fits (A := operator) start_finite start_accepted

/-- Two zeros: where the smooth term is least, and a slope of zero. -/
noncomputable abbrev zeros : Vec Exact := start.scale (.real 0)

theorem zeros_fits : zeros.Fits pair := start_fits.scale 0

theorem zeros_point : zeros.point pair = 0 := (start_fits.point_scale 0).trans (zero_smul ℝ _)

theorem smooth : meaning.Smooth 1 := by
  simpa using Operator.multiple_smooth pair 1

theorem returns {γ : ℝ} (positive : 0 < γ) :
    ∃ r w', Solver.solve operator prox (some start) (config γ) world = .ok r w' :=
  Solver.returns meaning (served γ) (config_checked positive) rfl rfl rfl start_finite
    start_accepted world

/-- The run with the step size `1 / 2`. -/
abbrev Passes (vs : List (Snapshot Unit Exact)) (b : Snapshot Unit Exact) : Prop :=
  Solver.Passes operator prox (some start) (config (1 / ((2 : ℕ) : ℝ))) world vs b

variable {vs : List (Snapshot Unit Exact)} {b : Snapshot Unit Exact}

theorem glides (passes : Passes vs b) : b.Glides meaning (1 / 2) :=
  passes.glides smooth (by norm_num) (config_checked one_half_pos) rfl rfl start_finite

theorem glides_visited (passes : Passes vs b) {us : List (Snapshot Unit Exact)}
    {d : Snapshot Unit Exact} (course : Course (config (1 / 2)) operator prox b us d) :
    ∀ v ∈ us, v.Glides meaning (1 / 2) :=
  course.invariant_visited
    (fun _ _ glides step =>
      step.glides smooth (by norm_num) (config_checked one_half_pos) glides)
    (glides passes)

/-- A record is ahead. -/
theorem reaches_record (passes : Passes vs b) (due : b.place.pending = 1 ∨ 0 < b.left) :
    ∃ us d, Course (config (1 / 2)) operator prox b us d ∧ d.isRecorded = true ∧
      us.countP Snapshot.isRecorded = 0 := by
  have goes : ∀ (s : State Exact) (env : Unit), ∃ env',
      (config (1 / 2)).predicate.judge (config (1 / 2)).tolerance s env = (.decided false, env') :=
    fun _ env => ⟨env, rfl⟩
  obtain ⟨us, d, course, recorded, others⟩ :=
    (glides passes).kept.records (served _) goes (glides passes).memoryless due
  exact ⟨us, d, course, recorded,
    List.countP_eq_zero.mpr fun v inside => Bool.eq_false_iff.mp (others v inside)⟩

/-- A direction is chosen where the envelope is recorded. -/
theorem reaches_direction (passes : Passes vs b) (recorded : b.isRecorded = true) :
    ∃ d, Move (config (1 / 2)) operator prox b d ∧ d.place = .aimed ∧
      d.state.iteration = b.state.iteration ∧ d.left = b.left := by
  obtain ⟨found, here⟩ := Snapshot.isRecorded_iff.mp recorded
  rcases (glides passes).kept.moves (served _) (glides passes).memoryless with
    ⟨d, step⟩ | ⟨resting, _⟩
  · refine ⟨d, step, ?_⟩
    cases step.turn with
    | aim => exact ⟨rfl, rfl, rfl⟩
    | _ => cases here
  · cases here.symm.trans resting

/-- The run records a first and a second envelope. -/
theorem records : ∃ us a vs b, Passes us a ∧ Course (config (1 / 2)) operator prox a vs b ∧
    a.isRecorded = true ∧ b.isRecorded = true ∧
    a.state.iteration = 1 ∧ b.state.iteration = 2 := by
  obtain ⟨s, w, launched⟩ := Solver.launch_answers meaning (served (1 / 2))
    (config_checked one_half_pos) rfl rfl start_finite start_accepted world
  have passes : Passes [] (.first 2 s w) := ⟨s, w, 2, launched, rfl, .stay⟩
  obtain ⟨us, a, before, first, none⟩ := reaches_record passes (.inr (Nat.succ_pos 1))
  have zero : s.iteration = 0 := (Solver.launch_starts launched).1
  have begun : a.state.iteration = 1 := by
    obtain ⟨found, here⟩ := Snapshot.isRecorded_iff.mp first
    have counts := before.iteration_eq
    rw [here, none] at counts
    change s.iteration + 0 + 1 = a.state.iteration + 0 at counts
    omega
  have left : a.state.iteration + a.left = s.iteration + 2 := before.left_eq
  have passes' := passes.trans before
  obtain ⟨d, step, _, iteration, same⟩ := reaches_direction passes' first
  obtain ⟨vs, b, after, last, none'⟩ :=
    reaches_record (passes'.trans (.single step)) (.inr (by omega))
  have course := (Course.single step).trans after
  refine ⟨_, a, _, b, passes', course, first, last, begun, ?_⟩
  obtain ⟨found, here⟩ := Snapshot.isRecorded_iff.mp first
  obtain ⟨found', there⟩ := Snapshot.isRecorded_iff.mp last
  have counts := course.iteration_eq
  rw [here, there, List.countP_append, List.countP_singleton, if_pos first, none', begun] at counts
  exact (Nat.add_right_cancel counts).symm

end Plain

end ForwardBackward
