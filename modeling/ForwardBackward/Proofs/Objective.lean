/-
# ForwardBackward.Proofs.Objective -- the objective decreases over a whole run

The objective is `f + g`, with `f` the smooth term and `g` a regularizer of the
catalogue.  At a step size `γ` that is at most `1 / Λ` the envelope lies between two
values of it:

    f(xbar) + g(xbar) ≤ envelope at x ≤ f(x) + g(x),

the first because the quadratic model is above `f` (`Stepped.smooth_le`), the second
because the step is a global minimiser (`Stepped.value_le`).  In between the recorded
envelopes telescope (`Course.lowers`): nothing is ever halved at such a step size
(`Course.unhalved`), and a run that counts no failure has had none
(`Course.met`).  The last point is not tested by a search; its envelope was, and that is
above its objective.

Main fact: `Solver.objective_decreases`.
-/
import ForwardBackward.Proofs.Backtracking
import ForwardBackward.Proofs.Consistency
import ForwardBackward.Proofs.Descent
import ForwardBackward.Proofs.Minimizers

namespace ForwardBackward

set_option autoImplicit false

open scoped InnerProductSpace
open Snapshot (halvings)

variable {σ : Type}

/-! ## Extended numbers -/

/-- A number is moved from one side of a test to the other. -/
theorem Exact.le_add_real (a b : ℝ) (U : Exact) :
    Scalar.le (real a) (U + real b) = Scalar.le (real (a - b)) U := by
  cases U with
  | real u =>
      rw [real_add, Bool.eq_iff_iff, le_real, le_real]
      exact sub_le_iff_le_add.symm
  | infinite negative => cases negative <;> rfl
  | undefined => rfl

theorem Exact.le_trans_left {a b : ℝ} {U : Exact} (below : a ≤ b)
    (le : Scalar.le (real b) U = true) : Scalar.le (real a) U = true := by
  rcases le_real_right le with rfl | ⟨u, rfl, under⟩
  · exact le_top a
  · exact (le_real a u).mpr (below.trans under)

/-! ## The regularizer of a run -/

namespace Regularizer

variable {g : Regularizer Exact} {S : Structure} {γ : ℝ}

theorem prox_of_returns {v : Vec Exact} {gamma : Exact} {p : Vec Exact × Exact} {env env' : σ}
    (returned : (Prox.ofRegularizer g).prox v gamma env = .ok p env') :
    g.prox v gamma = .ok p :=
  (lift_returns.mp returned).1

/-- Proximal steps of the catalogue lead to vectors of the structure. -/
theorem Proper.staysIn (proper : g.Proper S) :
    (Prox.ofRegularizer g : Prox σ Exact).StaysIn S := by
  intro v γ p env env' fits positive returned
  obtain ⟨_, _, minimizes⟩ := prox_minimizes proper positive fits (prox_of_returns returned)
  exact minimizes.fits

end Regularizer

section Step

variable {g : Regularizer Exact} {S : Structure} {γ f : ℝ} {x grad xbar r : Vec Exact}
  {gxbar residual bound U : Exact}

/-- The regularizer at the step is a number, and the value there. -/
theorem Stepped.value_eq (proper : g.Proper S) (positive : 0 < γ) (hx : x.Fits S)
    (hg : grad.Fits S)
    (stepped : Stepped (Prox.ofRegularizer g : Prox σ Exact) S γ x (.real f) grad xbar gxbar r
      residual bound) :
    ∃ G, gxbar = .real G ∧ g.value xbar = .ok (.real G) := by
  obtain ⟨v, _, _, moved, _, returned⟩ := stepped.step
  obtain ⟨fits, _⟩ := hg.of_axpy hx moved
  obtain ⟨G, same, minimizes⟩ :=
    Regularizer.prox_minimizes proper positive fits (Regularizer.prox_of_returns returned)
  exact ⟨G, same, minimizes.value⟩

/-- The envelope is at most the regularizer at any point plus the quadratic model there. -/
theorem Stepped.value_le_model {u : Vec Exact} (proper : g.Proper S) (positive : 0 < γ)
    (hx : x.Fits S) (hg : grad.Fits S) (hu : u.Fits S) (sees : g.Sees u)
    (valued : g.value u = .ok U)
    (stepped : Stepped (Prox.ofRegularizer g : Prox σ Exact) S γ x (.real f) grad xbar gxbar r
      residual bound) :
    ∃ E, bound + gxbar = .real E ∧ Scalar.le (.real E) (U + .real (f +
      ⟪grad.point S, u.point S - x.point S⟫_ℝ + ‖u.point S - x.point S‖ ^ 2 / (2 * γ))) = true := by
  obtain ⟨v, _, _, moved, target, returned⟩ := stepped.step
  obtain ⟨fits, _⟩ := hg.of_axpy hx moved
  have answered := Regularizer.prox_of_returns returned
  obtain ⟨G, rfl, _⟩ := Regularizer.prox_minimizes proper positive fits answered
  obtain ⟨_, value, model⟩ := stepped.model
  cases value
  have least := Regularizer.prox_le proper positive fits answered hu sees valued
  have near : xbar.point S - v.point S = γ • grad.point S - r.point S := by
    rw [target, stepped.difference]
    abel
  have far : u.point S - v.point S = γ • grad.point S + (u.point S - x.point S) := by
    rw [target]
    abel
  rw [near, far, norm_sub_sq_real, norm_add_sq_real, real_inner_smul_left,
    real_inner_smul_left] at least
  refine ⟨_, by rw [model, Exact.real_add], ?_⟩
  rw [Exact.le_add_real] at least ⊢
  refine Exact.le_trans_left (le_of_eq ?_) least
  field_simp
  ring

/-- The envelope is at most the objective. -/
theorem Stepped.value_le (proper : g.Proper S) (positive : 0 < γ) (hx : x.Fits S)
    (hg : grad.Fits S) (sees : g.Sees x) (valued : g.value x = .ok U)
    (stepped : Stepped (Prox.ofRegularizer g : Prox σ Exact) S γ x (.real f) grad xbar gxbar r
      residual bound) :
    ∃ E, bound + gxbar = .real E ∧ Scalar.le (.real E) (U + .real f) = true := by
  have below := stepped.value_le_model proper positive hx hg hx sees valued
  simpa only [sub_self, inner_zero_right, norm_zero, ne_eq, OfNat.ofNat_ne_zero, not_false_eq_true,
    zero_pow, zero_div, add_zero] using below

end Step

/-! ## Courses -/

section Courses

variable {c : Config σ Exact} {A : Operator σ Exact} {M : A.Meaning} {g : Prox σ Exact}
  {a b d : Snapshot σ Exact} {vs : List (Snapshot σ Exact)} {Λ γ : ℝ}

/-- A step size up to `1 / Λ` is never halved. -/
theorem Course.unhalved (smooth : M.Smooth Λ) (stays : g.StaysIn A.domain) (kept : a.Kept M g)
    (sized : Sized γ a.state.gamma a.state.sigma) (small : γ * Λ ≤ 1)
    (course : Course c A g a vs b) : halvings vs = 0 := by
  rcases course.halvings_few smooth stays kept sized with none | few
  · exact none
  · have one : (1 : ℝ) ≤ 2 ^ (halvings vs - 1) := one_le_pow₀ one_le_two
    exact absurd (lt_of_lt_of_le few small) (not_lt.mpr one)

/-- The failures of searches along directions are counted, and never forgotten. -/
theorem Turn.tauFailures_le (turn : Turn c b d) :
    b.state.tauFailures ≤ d.state.tauFailures ∧
      (d.place = .moved false → 0 < d.state.tauFailures) := by
  cases turn with
  | exhaust => exact ⟨Nat.le_succ _, fun _ => Nat.succ_pos _⟩
  | search | skip | bounded | halve | unbounded | settle | aim | depart | accept | reject
  | approve => exact ⟨le_rfl, nofun⟩

/-- Where no failure is counted, all searches along directions were met. -/
theorem Course.met (course : Course c A g a vs b) (resting : a.place = .resting)
    (none : b.state.tauFailures = 0) :
    (∀ v ∈ vs, v.place ≠ .moved false) ∧ b.place ≠ .moved false := by
  induction course with
  | stay => exact ⟨by simp, by rw [resting]; nofun⟩
  | @move vs b d _ step ih =>
      obtain ⟨grown, counted⟩ := step.turn.tauFailures_le
      obtain ⟨before, last⟩ := ih (by omega)
      refine ⟨fun v inside => ?_, fun failed => ?_⟩
      · rcases List.mem_append.mp inside with inside | here
        · exact before v inside
        · obtain rfl := List.mem_singleton.mp here
          exact last
      · have positive := counted failed
        omega

/-- Between two rests, if no failure is counted and the step size is not halved, the envelope is
lowered by the sufficient decreases in all. -/
theorem Course.value_le (course : Course c A g a vs b) (modelled : a.Modelled)
    (sized : Sized γ a.state.gamma a.state.sigma) (first : a.place = .resting)
    (last : b.place = .resting) (none : b.state.tauFailures = 0) (unhalved : halvings vs = 0)
    {E E' : ℝ} (envelope : a.state.value = .real E) (envelope' : b.state.value = .real E') :
    E' ≤ E - slopeOf γ * Snapshot.squares vs := by
  have start : a.place.Below (slopeOf γ) E a.state := by
    rw [first]
    intro F value
    exact (Exact.real.inj (value.symm.trans envelope)).le
  have lowered := course.lowers modelled sized.sigma (course.met first none).1 unhalved start
  rw [last] at lowered
  exact lowered E' envelope'

end Courses

/-! ## Runs -/

theorem startingPoint_ofArrays {A : Operator σ Exact} {x0 : Option (Vec Exact)} {x : Vec Exact}
    (accepted : Solver.startingPoint A x0 = .ok x) : x.OfArrays := by
  simp only [Solver.startingPoint, Vec.toInexact, bind_accepts, pure_accepts] at accepted
  obtain ⟨_, ⟨y, arrays, rfl⟩, _, _, rfl⟩ := accepted
  intro a inside
  obtain ⟨b, among, rfl⟩ := List.mem_map.mp inside
  rw [(Vec.asArrays_accepts arrays).2] at among
  obtain ⟨a, _, rfl⟩ := List.mem_map.mp among
  exact NDArray.toFractional_firm Precision.noConfusion NDArray.isBare_enter

section Runs

variable {A : Operator σ Exact} {M : A.Meaning} {g : Regularizer Exact} {Λ γ : ℝ}
  {s : State Exact}

/-- The envelope is at most the objective at an iterate that is an array. -/
theorem State.Sound.envelope_le (proper : g.Proper A.domain)
    (sound : s.Sound M (.ofRegularizer g) γ) (arrays : s.x.OfArrays) :
    ∃ E G₀, s.value = .real E ∧ g.value s.x = .ok G₀ ∧
      Scalar.le (.real E) (G₀ + .real (M.smooth (s.x.point A.domain))) = true := by
  obtain ⟨sized, evaluated, stepped, _⟩ := sound
  obtain ⟨G₀, valued⟩ := g.value_total proper evaluated.x_fits arrays
  rw [evaluated.smooth_eq] at stepped
  obtain ⟨E, envelope, under⟩ := stepped.value_le proper sized.positive evaluated.x_fits
    evaluated.grad_fits (Regularizer.sees_of_arrays arrays) valued
  exact ⟨E, G₀, envelope, valued, under⟩

/-- The objective at the step is at most the envelope if the step size is at most `1 / Λ`. -/
theorem State.Sound.objective_le (smooth : M.Smooth Λ) (proper : g.Proper A.domain)
    (sound : s.Sound M (.ofRegularizer g) γ) (small : γ * Λ ≤ 1) :
    ∃ E G, s.value = .real E ∧ g.value s.xbar = .ok (.real G) ∧
      M.smooth (s.xbar.point A.domain) + G ≤ E := by
  obtain ⟨sized, evaluated, stepped, _⟩ := sound
  obtain ⟨B, model, below⟩ := stepped.smooth_le smooth evaluated sized.positive small
  rw [evaluated.smooth_eq] at stepped
  obtain ⟨G, regular, valued⟩ :=
    stepped.value_eq proper sized.positive evaluated.x_fits evaluated.grad_fits
  refine ⟨B + G, G, ?_, valued, by linarith⟩
  rw [State.value, model, regular, Exact.real_add]

/-- Where the envelope is lowered from one iterate to another, the objective at the step from the
second is below the objective at the first. -/
theorem State.Sound.objective_le_sub {s' : State Exact} {D : ℝ} (smooth : M.Smooth Λ)
    (proper : g.Proper A.domain) (small : γ * Λ ≤ 1) (first : s.Sound M (.ofRegularizer g) γ)
    (arrays : s.x.OfArrays) (last : s'.Sound M (.ofRegularizer g) γ)
    (lowered : ∀ {E E'}, s.value = .real E → s'.value = .real E' → E' ≤ E - D) :
    ∃ G₀ G, g.value s.x = .ok G₀ ∧ g.value s'.xbar = .ok (.real G) ∧
      Scalar.le (.real (M.smooth (s'.xbar.point A.domain) + G))
        (G₀ + .real (M.smooth (s.x.point A.domain) - D)) = true := by
  obtain ⟨E, G₀, envelope, valued, above⟩ := first.envelope_le proper arrays
  obtain ⟨E', G, envelope', valued', below⟩ := last.objective_le smooth proper small
  have decrease := lowered envelope envelope'
  refine ⟨G₀, G, valued, valued', ?_⟩
  rw [Exact.le_add_real] at above ⊢
  refine Exact.le_trans_left ?_ above
  linarith

/-- The objective of a whole run, in exact arithmetic.  If the options give a step size `γ` of at
most `1 / Λ` and the run returns without having counted a failure of a search along a direction,
then the step size was never halved, and the objective at the result is at most that at the
starting point, lowered by the slope of the sufficient decrease times the squares of the residual
norms of all iterates.  At the starting point the regularizer may be infinite. -/
theorem Solver.objective_decreases (M : A.Meaning) (smooth : M.Smooth Λ) (g : Regularizer Exact)
    (proper : g.Proper A.domain)
    {c : Config σ Exact} (checked : c.Checked) (given : c.stepSize = some (.real γ))
    (small : γ * Λ ≤ 1) {x0 : Option (Vec Exact)}
    (finite : ∀ v, x0 = some v → v.allFinite = true) {w w' : World σ Exact} {r : Result Exact}
    (returned : solve A (.ofRegularizer g) x0 c w = .ok r w') (met : r.tauFailures = 0) :
    ∃ vs b status x G₀ G, Passes A (.ofRegularizer g) x0 c w vs b ∧ b.place = .resting ∧
      r = b.state.result status ∧ halvings vs = 0 ∧ r.gamma = .real γ ∧
      vs.countP Snapshot.isRecorded = r.iterations ∧
      (∀ v ∈ vs, v.isRecorded = true → v.state.Consistent M (.ofRegularizer g)) ∧
      startingPoint A x0 = .ok x ∧ g.value x = .ok G₀ ∧ g.value r.x = .ok (.real G) ∧
      Scalar.le (.real (M.smooth (r.x.point A.domain) + G))
        (G₀ + .real (M.smooth (x.point A.domain) - slopeOf γ * Snapshot.squares vs)) = true := by
  obtain ⟨vs, b, status, passes, resting, rfl⟩ := passes_of_solve returned
  have begun := passes
  obtain ⟨s₀, w₀, limit, launched, _, course⟩ := begun
  have stays : (Prox.ofRegularizer g : Prox σ Exact).StaysIn A.domain := proper.staysIn
  have kept := launch_kept M stays checked finite launched limit
  have sized := launch_given checked given launched
  have unhalved := course.unhalved smooth stays kept sized small
  have now := course.sized sized
  rw [unhalved, pow_zero, div_one] at now
  obtain ⟨iteration, _, _, started⟩ := launch_starts launched
  have lowered : ∀ {E E'}, s₀.value = .real E → b.state.value = .real E' →
      E' ≤ E - slopeOf γ * Snapshot.squares vs := fun envelope envelope' =>
    course.value_le (launch_modelled checked launched limit) sized rfl resting met unhalved
      envelope envelope'
  obtain ⟨G₀, G, valued, valued', decrease⟩ := (kept.sound sized).1.objective_le_sub smooth proper
    small (startingPoint_ofArrays started) ((course.kept stays kept).sound now).1 lowered
  refine ⟨vs, b, status, s₀.x, G₀, G, passes, resting, rfl, unhalved, now.gamma, ?_, ?_, started,
    valued, valued', decrease⟩
  · have counts := course.iteration_eq
    rw [resting] at counts
    change s₀.iteration + _ + 0 = b.state.iteration + 0 at counts
    rw [iteration, Nat.zero_add] at counts
    exact counts
  · intro v inside _
    have visited := course.invariant_visited (fun _ _ kept step => step.kept stays kept) kept
    exact (visited v inside).consistent

/-- A run of two iterations none of whose searches fails. -/
theorem Solver.plain_objective_decreases :
    ∃ r w' vs b status G₀ G,
      solve Plain.operator Plain.prox (some Plain.start) (Plain.config (1 / 2)) Plain.world =
        .ok r w' ∧ Plain.Passes vs b ∧ r = b.state.result status ∧ r.tauFailures = 0 ∧
      halvings vs = 0 ∧
      vs.countP Snapshot.isRecorded = r.iterations ∧
      Regularizer.zero.value Plain.start = .ok G₀ ∧ Regularizer.zero.value r.x = .ok (.real G) ∧
      Scalar.le (.real (Plain.meaning.smooth (r.x.point Plain.pair) + G))
        (G₀ + .real (Plain.meaning.smooth (Plain.start.point Plain.pair) -
          slopeOf (1 / 2) * Snapshot.squares vs)) = true := by
  obtain ⟨r, w', returned⟩ := Plain.returns one_half_pos
  have met : r.tauFailures = 0 := by
    obtain ⟨vs, b, status, passes, _, rfl⟩ := passes_of_solve returned
    exact (Plain.glides passes).unfailing
  obtain ⟨vs, b, status, x, G₀, G, passes, _, same, unhalved, _, count, _, started, valued, valued',
    decrease⟩ := objective_decreases Plain.meaning Plain.smooth .zero trivial
      (Plain.config_checked one_half_pos) rfl (by norm_num) Plain.start_finite returned met
  cases started.symm.trans Plain.start_accepted
  exact ⟨r, w', vs, b, status, G₀, G, returned, passes, same, met, unhalved, count, valued, valued',
    decrease⟩

end Runs

end ForwardBackward
