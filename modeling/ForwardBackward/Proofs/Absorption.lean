/-
# ForwardBackward.Proofs.Absorption -- a residual of zero is the end of a run

In exact arithmetic everything that belongs to an iterate is determined by its point and
the step size, if proximal steps are (`Prox.Deterministic`, `State.Sound.alike`).  So an
iterate from which the forward-backward step leads nowhere stays where it is:

* the step size bounds it at once (`State.Sound.bounded_of_still`), and the residual at
  `xbar` is zero as well (`State.Sound.rbar_of_still`);
* the direction is zero, in the first iteration and later
  (`Solver.Served.aims_of_still`);
* the first trial along it is the iterate itself, whose envelope is the level
  (`State.Poised.rests`), and the predicate halts the run
  (`Solver.zero_residual_absorbs`).

There is one exception, and it is not in the searches: the newest pair of the history may
have lost its change of residual as it was stored (`History.Lost`).  Then no direction is
found, not even for zero, and the run fails at its solution: `Drift.run_fails`.
-/
import ForwardBackward.Proofs.Iterations
import ForwardBackward.Proofs.Optimality

namespace ForwardBackward

set_option autoImplicit false

open scoped InnerProductSpace

open Snapshot (trials)

variable {σ : Type} {A : Operator σ Exact} {M : A.Meaning} {g : Prox σ Exact}
  {c : Config σ Exact} {γ : ℝ} {n : Nat} {s t : State Exact}

/-! ## Steps that lead nowhere -/

/-- Without a residual the step is the iterate, and the quadratic model is the smooth term. -/
theorem Stepped.still {S : Structure} {x grad xbar r : Vec Exact} {fx gxbar residual bound : Exact}
    (stepped : Stepped g S γ x fx grad xbar gxbar r residual bound) (still : residual = 0) :
    xbar.point S = x.point S ∧ bound = fx := by
  have none : r.point S = 0 := by
    have norm := stepped.norm
    rw [still, Exact.zero_eq] at norm
    exact norm_eq_zero.mp (Exact.real.inj norm).symm
  obtain ⟨f, fx, model⟩ := stepped.model
  constructor
  · exact (sub_eq_zero.mp (stepped.difference.symm.trans none)).symm
  · rw [model, fx, none, inner_zero_right, norm_zero]
    norm_num

namespace State.Sound

/-- The search for a step size ends where it begins. -/
theorem bounded_of_still (sound : s.Sound M g γ)
    (evaluated : StepEvaluated M s.xbar s.axbar s.fxbar) (still : s.residual = 0) :
    s.bounded = true := by
  obtain ⟨point, bound⟩ := sound.stepped.still still
  have same : s.fxbar = s.fx := by
    rw [evaluated.value, evaluated.image, point, sound.evaluated.value, sound.evaluated.image]
  rw [State.bounded, bound, same, sound.evaluated.value, Exact.le_real]

/-- The residual of the step from `xbar` is zero too. -/
theorem rbar_of_still {rbar gradbar : Vec Exact} (deterministic : g.Deterministic A.domain)
    (sound : s.Sound M g γ) (still : s.residual = 0)
    (anchored : Anchored M g γ s.xbar rbar s.axbar gradbar) : rbar.point A.domain = 0 := by
  obtain ⟨point, _⟩ := sound.stepped.still still
  have slope : gradbar.point A.domain = s.grad.point A.domain := by
    rw [anchored.gradient, anchored.image, point, sound.evaluated.gradient, sound.evaluated.image]
  obtain ⟨p, answers, difference⟩ := anchored.residual
  have answered := sound.stepped.step.determined deterministic sound.sized.positive
    sound.evaluated.x_fits sound.evaluated.grad_fits anchored.xbarPrev_fits anchored.gradbar_fits
    answers point slope
  rw [difference, answered.1, sub_self]

end State.Sound

/-! ## An iteration from a solution -/

/-- A direction for the residual of zero at `xbar`: it is zero, or the newest pair of the history
has lost its change of residual, and the direction is refused. -/
theorem Solver.Served.aims_of_still {x : Vec Exact} {m : Nat} {os : List (Offer Exact)}
    (served : Served A g c n) (deterministic : g.Deterministic A.domain) (sound : s.Sound M g γ)
    (evaluated : StepEvaluated M s.xbar s.axbar s.fxbar)
    (remembers : s.iteration ≠ 1 → s.Remembers A.domain) (still : s.residual = 0)
    (hx : x.Fits A.domain) (fits : ∀ o ∈ os, o.Fits A.domain)
    (offered : (History.empty x m).offerAll os = .ok s.history) (env : σ) :
    (∃ s' env', aim A g s env = .ok s' env' ∧ s'.d.point A.domain = 0) ∨
      (s.iteration ≠ 1 ∧ ∃ rbar h env', rbar.Fits A.domain ∧ rbar.point A.domain = 0 ∧
        s.history.update s.xbar s.xbarPrev rbar s.rbarPrev = .ok h ∧ h.Lost x ∧
        aim A g s env = .error .divisionByZero env') := by
  obtain ⟨s₁, env₁, residual⟩ :=
    State.evaluateResidual_answers served.total served.answers served.stays sound evaluated env
  obtain ⟨gradbar, rbar, anchored, rfl⟩ :=
    State.evaluateResidual_anchored served.stays sound evaluated residual
  have zero := sound.rbar_of_still deterministic still anchored
  have hr := anchored.rbarPrev_fits
  by_cases one : s.iteration = 1
  · refine .inl ⟨_, _, aim_of_first one residual, ?_⟩
    change (rbar.scale (-1)).point A.domain = 0
    rw [Exact.one_eq, Exact.neg_real, hr.point_scale, zero, smul_zero]
  · obtain ⟨hx', hr'⟩ := remembers one
    have hs := sound.stepped.xbar_fits
    obtain ⟨h, updated⟩ := sound.history.update_answers hs hx' hr hr'
    have all : (History.empty x m).offerAll (os ++ [⟨s.xbar, s.xbarPrev, rbar, s.rbarPrev⟩]) =
        .ok h := by
      rw [History.offerAll, List.foldlM_append]
      exact bind_accepts.mpr ⟨_, offered, bind_accepts.mpr ⟨h, updated, rfl⟩⟩
    have allFit : ∀ o ∈ os ++ [⟨s.xbar, s.xbarPrev, rbar, s.rbarPrev⟩], o.Fits x.spec := by
      intro o inside
      refine Offer.Fits.spec hx ?_
      rcases List.mem_append.mp inside with earlier | last
      · exact fits o earlier
      · obtain rfl := List.mem_singleton.mp last
        exact ⟨hs, hx', hr, hr'⟩
    obtain ⟨answers, refuses⟩ := aim_of_later one residual updated
    rcases History.direction_of_zero hx.spec_inexact allFit all (hx.spec hr)
        ((hx.spec_point_eq_zero rbar).mpr zero) with ⟨d, asked, point⟩ | ⟨lost, refused⟩
    · obtain ⟨s', aimed, rfl⟩ := answers d asked
      exact .inl ⟨s', env₁, aimed, (hx.spec_point_eq_zero _).mp point⟩
    · exact .inr ⟨one, rbar, h, env₁, hr, zero, updated, lost, refuses _ refused⟩

/-- What an iteration leaves of an iterate from which no step leads away: all of it, after one
trial along a direction. -/
structure State.Unmoved (S : Structure) (s t : State Exact) : Prop extends State.Alike S s t where
  gamma : t.gamma = s.gamma
  tau : t.tau = 1
  iteration : t.iteration = s.iteration
  gammaFailures : t.gammaFailures = s.gammaFailures
  tauFailures : t.tauFailures = s.tauFailures

/-- Without a residual the level of the search is the envelope itself. -/
theorem State.Poised.level_of_still (answers : g.Total A.domain) (poised : s.Poised M g γ)
    (still : s.residual = 0) : ∃ E, s.value = .real E ∧ s.level = .ok (.real E) := by
  obtain ⟨E, value⟩ := poised.sound.value_real answers
  have squared := Exact.square_real 0
  rw [← Exact.zero_eq, ← still] at squared
  refine ⟨E, value, level_accepts.mpr ⟨_, squared, ?_⟩⟩
  rw [poised.recorded, value, poised.sound.sized.sigma, Exact.real_mul, Exact.real_sub]
  norm_num

/-- With a direction of zero the search accepts its first trial, and the iteration ends where it
was. -/
theorem State.Poised.rests (served : Solver.Served A g c n) (checked : c.Checked)
    (deterministic : g.Deterministic A.domain) (poised : s.Poised M g γ) (still : s.residual = 0)
    (idle : s.d.point A.domain = 0) (left : Nat) (w : World σ Exact) :
    ∃ us t w', Course c A g ⟨.aimed, left, s, w⟩ us ⟨.resting, left, t, w'⟩ ∧ trials us = 1 ∧
      s.Unmoved A.domain t := by
  have alike : ∀ t, s.Arrives M g γ t → s.Alike A.domain t := by
    intro t arrives
    refine poised.sound.alike deterministic arrives.sound ?_
    rw [arrives.point, idle, add_zero, poised.anchor, (poised.sound.stepped.still still).1]
  obtain ⟨E, value, allowed⟩ := poised.level_of_still served.answers still
  have below : ∀ t, s.Arrives M g γ t → Scalar.le t.value (.real E) = true := by
    intro t arrives
    rw [(alike t arrives).value, value, Exact.le_real]
  obtain ⟨us, t, w', course, one, arrives⟩ := poised.accepts served checked allowed below left w
  exact ⟨us, t, w', course, one, alike t arrives, arrives.gamma, arrives.tau, arrives.iteration,
    arrives.gammaFailures, arrives.tauFailures⟩

/-! ## The end of the run -/

namespace Solver

variable {x0 : Option (Vec Exact)} {w : World σ Exact} {vs : List (Snapshot σ Exact)}
  {b : Snapshot σ Exact}

/-- The residual norm of the first iteration is a number that is not negative. -/
theorem Passes.firstResidual_real (M : A.Meaning) (stays : g.StaysIn A.domain)
    (checked : c.Checked) (finite : ∀ v, x0 = some v → v.allFinite = true)
    (passes : Passes A g x0 c w vs b) (begun : b.place.unsettled < b.state.iteration) :
    ∃ ρ, 0 ≤ ρ ∧ b.state.firstResidual = .real ρ := by
  obtain ⟨us, v, found, passes', _, _, same⟩ := passes.firstResidual.2 begun
  obtain ⟨γ, sound, _⟩ := passes'.kept M stays checked finite
  exact ⟨_, norm_nonneg _, same.symm.trans sound.stepped.norm⟩

/-- A residual of zero is below any multiple of the first one. -/
theorem halts_of_still (checked : c.Checked) (bounded : Scalar.isFinite c.tolerance = true)
    {ρ : ℝ} (nonneg : 0 ≤ ρ) (first : s.firstResidual = .real ρ) (still : s.residual = 0) :
    halts c s = true := by
  obtain ⟨o, halt, made⟩ := checked
  obtain ⟨tol, tolerance⟩ := (Exact.isFinite_iff _).mp bounded
  have positive := (Config.tolerance_accepts made).1
  rw [tolerance, Exact.zero_eq, Exact.lt_real] at positive
  rw [halts, State.isBelow, still, first, tolerance, Exact.zero_eq, Exact.real_mul, Exact.le_real]
  positivity

/-- A run that the standard predicate halts where it rests returns from there. -/
theorem finish_of_halts (standard : c.halt = none) (halted : halts c s = true) (left : Nat)
    (w : World σ Exact) :
    ∃ w', finish c A g left s w =
      .ok (s.result (if left = 0 then .iterationsSpent else .converged)) w' := by
  have looped : loop c A g left s w =
      .ok ((if left = 0 then .iterationsSpent else .converged), s) w := by
    cases left with
    | zero => rfl
    | succ left =>
        rw [loop, bind_of_returns (consult_standard standard s w), halted]
        rfl
  obtain ⟨w', told⟩ :=
    conclude_returns c s w (if left = 0 then .iterationsSpent else .converged)
  exact ⟨w', bind_returns.mpr ⟨_, _, looped, bind_returns.mpr ⟨(), w', told, rfl⟩⟩⟩

/-- A run that rests without a residual after an iteration returns from there. -/
theorem Passes.returns_of_still {left : Nat} {w₁ : World σ Exact} (M : A.Meaning)
    (stays : g.StaysIn A.domain) (checked : c.Checked) (standard : c.halt = none)
    (bounded : Scalar.isFinite c.tolerance = true)
    (finite : ∀ v, x0 = some v → v.allFinite = true)
    (passes : Passes A g x0 c w vs ⟨.resting, left, s, w₁⟩) (begun : s.iteration ≠ 0)
    (still : s.residual = 0) :
    ∃ w', solve A g x0 c w =
      .ok (s.result (if left = 0 then .iterationsSpent else .converged)) w' := by
  obtain ⟨ρ, nonneg, first⟩ :=
    passes.firstResidual_real M stays checked finite (Nat.pos_of_ne_zero begun)
  obtain ⟨w', returned⟩ := finish_of_halts (A := A) (g := g) standard
    (halts_of_still checked bounded nonneg first still) left w₁
  exact ⟨w', passes.solve_eq.trans returned⟩

/-- A run whose first step leads back to its starting point is behind the search for a step size
of its first iteration without a residual. -/
theorem Served.measures_of_still {s : State Exact} {w₁ : World σ Exact} {limit : Nat}
    (served : Served A g c n) (M : A.Meaning) (checked : c.Checked) (standard : c.halt = none)
    (finite : ∀ v, x0 = some v → v.allFinite = true)
    (launched : launch A g x0 c w = .ok s w₁) (budget : c.maxIterations.toNat = .ok (limit + 1))
    (still : s.residual = 0) :
    ∃ vs b found, Passes A g x0 c w vs b ∧ b.place = .measured found ∧ b.state.iteration = 1 ∧
      b.state.residual = 0 := by
  have passes : Passes A g x0 c w [] (.first (limit + 1) s w₁) :=
    ⟨s, w₁, limit + 1, launched, budget, .stay⟩
  obtain ⟨γ, sound, _⟩ := passes.kept M served.stays checked finite
  have begun : s.nextIteration.iteration = 1 := congrArg Nat.succ (launch_starts launched).1
  have goes : consult c s w₁ = .ok false w₁ := by
    rw [consult_standard standard, halts, State.isBelow, launch_firstResidual launched,
      Exact.le_mul_undefined]
  obtain ⟨axbar, fxbar, w₂, evaluated, begins, called⟩ := served.evaluates sound w₁
  cases wanted : c.searchesGamma with
  | false =>
      exact ⟨_, _, none, passes.trans (.single (.skip goes called wanted)), rfl, begun, still⟩
  | true =>
      have bounded := begins.bounded_of_still evaluated still
      exact ⟨_, _, some true, passes.trans
        ((Course.single (.search goes called wanted served.budget)).move (.bounded bounded)),
        rfl, begun, still⟩

/-- A residual of zero is absorbing, in exact arithmetic, unless the history has lost a change of
residual.  With the standard predicate, a finite tolerance and proximal steps that are
determined by their points:

* if the first step leads back to the starting point, the first iteration finds its step size
  without a residual;
* wherever an iteration has found its step size without a residual, the search along the direction
  accepts its first trial, which leaves the iterate, its step, the step size, the smooth term and
  the gradient what they are and the residual zero, and the run returns the iterate, converged if
  there are iterations left;
* or the pair of this iteration is offered to a history whose newest change of residual is then
  lost, and the run fails: no direction is found for the residual of zero. -/
theorem zero_residual_absorbs (M : A.Meaning) (served : Served A g c n)
    (deterministic : g.Deterministic A.domain) (checked : c.Checked) (standard : c.halt = none)
    (bounded : Scalar.isFinite c.tolerance = true) {limit : Nat}
    (budget : c.maxIterations.toNat = .ok limit)
    (finite : ∀ v, x0 = some v → v.allFinite = true) :
    (∀ s w₁, launch A g x0 c w = .ok s w₁ → s.residual = 0 → 0 < limit →
      ∃ vs b found, Passes A g x0 c w vs b ∧ b.place = .measured found ∧
        b.state.iteration = 1 ∧ b.state.residual = 0) ∧
    ∀ vs b found, Passes A g x0 c w vs b → b.place = .measured found → b.state.residual = 0 →
      (∃ us d r w', Course c A g b us d ∧ d.place = .resting ∧ trials us = 1 ∧
        b.state.Unmoved A.domain d.state ∧ d.state.residual = 0 ∧
        solve A g x0 c w = .ok r w' ∧ r.x.point A.domain = b.state.x.point A.domain ∧
        r.residual = 0 ∧ r.iterations = b.state.iteration ∧
        r.status = if b.state.iteration < limit then .converged else .iterationsSpent) ∨
      (1 < b.state.iteration ∧ ∃ x rbar h w', startingPoint A x0 = .ok x ∧
        rbar.Fits A.domain ∧ rbar.point A.domain = 0 ∧
        b.state.history.update b.state.xbar b.state.xbarPrev rbar b.state.rbarPrev = .ok h ∧
        h.Lost x ∧ solve A g x0 c w = .error (.fault .divisionByZero) w') := by
  refine ⟨?first, ?later⟩
  case first =>
    intro s w₁ launched still positive
    obtain ⟨k, rfl⟩ := Nat.exists_eq_succ_of_ne_zero positive.ne'
    exact served.measures_of_still M checked standard finite launched budget still
  case later =>
    rintro vs ⟨_, left, s, w₀⟩ found passes rfl still
    change s.residual = 0 at still
    have counted : s.iteration + left = limit := passes.left_eq budget
    obtain ⟨γ, sound, evaluated, begun, remembers⟩ := passes.kept M served.stays checked finite
    obtain ⟨x, m, started, _, hx, offered, fits⟩ := passes.remembers M served.stays checked finite
    obtain ⟨same, w₂, settles⟩ := served.settles sound evaluated found left w₀
    have recorded := passes.trans (.single settles)
    rcases served.aims_of_still deterministic same evaluated remembers still hx fits offered
      w₂.env with ⟨s₂, env, aimed, idle⟩ | ⟨later, rbar, h, env, hr, zero, updated, lost, refused⟩
    · left
      have aims : Move c A g ⟨.recorded found, left, s.record.markValid, w₂⟩
          ⟨.aimed, left, s₂, { w₂ with env := env }⟩ :=
        .aim (Run.call_returns.mpr ⟨env, aimed, rfl⟩)
      have reached := recorded.trans (.single aims)
      obtain ⟨γ', poised⟩ := reached.poised M served.stays checked finite rfl
      obtain ⟨_, _, _, _, _, rfl⟩ := aim_frame aimed
      obtain ⟨us, t, w', course, one, unmoved⟩ :=
        poised.rests served checked deterministic still idle left { w₂ with env := env }
      have after : t.residual = 0 := unmoved.residual.trans still
      obtain ⟨w₃, returned⟩ := (reached.trans course).returns_of_still M served.stays checked
        standard bounded finite (fun zero => begun (unmoved.iteration.symm.trans zero)) after
      refine ⟨_, _, _, w₃, ((Course.single settles).move aims).trans course, rfl, ?_, ?_, after,
        returned, ?_, after, unmoved.iteration, ?_⟩
      · rw [Snapshot.trials_append, one]
        rfl
      · exact ⟨⟨unmoved.x, unmoved.fx, unmoved.grad, unmoved.xbar, unmoved.gxbar,
          unmoved.residual, unmoved.bound⟩, unmoved.gamma, unmoved.tau, unmoved.iteration,
          unmoved.gammaFailures, unmoved.tauFailures⟩
      · exact unmoved.xbar.trans (sound.stepped.still still).1
      · change (if left = 0 then Status.iterationsSpent else .converged) =
          if s.iteration < limit then .converged else .iterationsSpent
        split <;> split <;> first | rfl | omega
    · right
      have more : 1 < s.iteration :=
        Nat.lt_of_le_of_ne (Nat.one_le_iff_ne_zero.mpr begun) (Ne.symm later)
      exact ⟨more, x, rbar, h, _, started, hr, zero, updated, lost, recorded.fails refused⟩

end Solver

/-! ## A run that begins at its solution -/

namespace Plain

theorem pulled_accepted : Solver.startingPoint pulled (some start) = .ok start := rfl

theorem pulled_served (ε : ℝ) (limit : ℕ) (v : Verbosity) :
    Solver.Served pulled (.ofRegularizer moduli) (stopping ε limit v) 32 where
  total := pulled_total
  answers := moduli_proper.total fun _ => trivial
  stays := moduli_proper.staysIn
  decides := fun _ _ env => ⟨_, env, rfl⟩
  budget := rfl

/-- No step leads away from the starting point, although the gradient does not vanish there. -/
theorem pulled_still {c : Config Unit Exact} (checked : c.Checked) {s : State Exact}
    {w : World Unit Exact}
    (launched : Solver.launch pulled (.ofRegularizer moduli) (some start) c world = .ok s w) :
    s.residual = 0 ∧ s.grad.point pair ≠ 0 := by
  obtain ⟨γ, sound, _⟩ :=
    launch_kept pulledMeaning moduli_proper.staysIn checked start_finite launched 0
  have begun : s.x = start :=
    Except.ok.inj ((Solver.launch_starts launched).2.2.2.symm.trans pulled_accepted)
  have minimizes : pulledMeaning.Minimizes moduli (fun _ => True) s.x := by
    rw [begun]
    exact start_minimizes
  refine ⟨sound.stepped.fixed_of_minimizes pulled_smooth moduli_proper trivial
    sound.sized.positive sound.evaluated trivial minimizes.among, fun zero => ?_⟩
  have gradient : s.grad.point pair = pulledMeaning.adjoint (s.ax.point pair) :=
    sound.evaluated.gradient
  have image : s.ax.point pair = pulledMeaning.map (s.x.point pair) := sound.evaluated.image
  rw [gradient, image, begun] at zero
  exact pulled_gradient_ne_zero zero

end Plain

/-- The plain problem with a target, begun at its solution: the first iteration stays there and is
the last. -/
theorem Solver.plain_zero_residual_absorbs :
    let c := Plain.stopping 1 2 .off
    let g : Prox Unit Exact := .ofRegularizer (.l1 (.real 1))
    Served Plain.pulled g c 32 ∧ g.Deterministic Plain.pair ∧ c.Checked ∧
      c.halt = none ∧ Scalar.isFinite c.tolerance = true ∧ c.maxIterations.toNat = .ok 2 ∧
      (∃ s w, launch Plain.pulled g (some Plain.start) c Plain.world = .ok s w ∧
        s.residual = 0 ∧ s.grad.point Plain.pair ≠ 0) ∧
      ∃ vs b us d r w', Passes Plain.pulled g (some Plain.start) c Plain.world vs b ∧
        b.state.iteration = 1 ∧ b.state.residual = 0 ∧
        Course c Plain.pulled g b us d ∧ d.place = .resting ∧ trials us = 1 ∧
        b.state.Unmoved Plain.pair d.state ∧
        solve Plain.pulled g (some Plain.start) c Plain.world = .ok r w' ∧
        r.iterations = 1 ∧ r.status = .converged := by
  intro c g
  have served : Served Plain.pulled g c 32 := Plain.pulled_served 1 2 .off
  have deterministic : g.Deterministic Plain.pair :=
    Plain.moduli_proper.deterministic fun _ => trivial
  have checked : c.Checked := ⟨_, none, Plain.stopping_accepted 2 .off one_pos⟩
  obtain ⟨s, w, launched⟩ := launch_answers Plain.pulledMeaning served checked rfl rfl
    Plain.start_finite Plain.pulled_accepted Plain.world
  obtain ⟨still, slope⟩ := Plain.pulled_still checked launched
  obtain ⟨first, later⟩ := zero_residual_absorbs (w := Plain.world) Plain.pulledMeaning served
    deterministic checked rfl rfl rfl Plain.start_finite
  obtain ⟨vs, b, found, passes, measured, one, gone⟩ := first s w launched still two_pos
  refine ⟨served, deterministic, checked, rfl, rfl, rfl, ⟨s, w, launched, still, slope⟩, ?_⟩
  rcases later vs b found passes measured gone with absorbed | ⟨more, _⟩
  · obtain ⟨us, d, r, w', course, resting, trial, unmoved, _, returned, _, _, iterations, status⟩ :=
      absorbed
    refine ⟨vs, b, us, d, r, w', passes, one, gone, course, resting, trial, unmoved, returned,
      iterations.trans one, ?_⟩
    rw [status, one, if_pos one_lt_two]
  · exact absurd more (by omega)

/-! ## A run that fails at its solution -/

/-!
The problem is one complex number.  The smooth term `2 (Re z)²` is flat along the imaginary
axis, and steps of the size `1/2` first go up that axis and then off it; shorter ones lead
nowhere.  So the first iteration climbs from `0` to `2i`, with a step and a change of
residual that are both `i`, and the second halves the step size because the step to the
side overshoots.  The number zero that the run begins with is real, the ring has real
slots, and the pair is stored as two zeros.
-/

namespace Drift

open History (complexSingle complexSingle_denotes complexSingle_sub single single_denotes)

/-- Arrays of one complex number. -/
abbrev one : Structure := History.oneOf (.complex .double)

/-- The point that a number is. -/
noncomputable def embed : ℂ →ₗ[ℝ] one.Space where
  toFun z := pointOf one.dimension [z]
  map_add' z w := @pointOf_add one.dimension [z] [w] rfl rfl
  map_smul' c z := by
    rw [Complex.real_smul]
    exact @pointOf_scale one.dimension [z] c rfl

noncomputable def coordinate (u : one.Space) : ℂ := u ⟨0, Nat.one_pos⟩

theorem coordinate_embed (z : ℂ) : coordinate (embed z) = z := rfl

theorem point_complexSingle (z : ℂ) : (complexSingle z).point one = embed z :=
  (complexSingle_denotes z).point_eq

theorem norm_embed (z : ℂ) : ‖embed z‖ = ‖z‖ := by
  rw [← point_complexSingle, History.norm_point_of_denotes (complexSingle_denotes z)]

/-- Twice the real part. -/
noncomputable def fold : one.Space →ₗ[ℝ] one.Space where
  toFun u := embed (2 * (coordinate u).re : ℝ)
  map_add' u v := by
    rw [← map_add, ← Complex.ofReal_add, ← mul_add]
    rfl
  map_smul' c u := by
    have scaled : (coordinate (c • u)).re = c * (coordinate u).re :=
      Complex.re_ofReal_mul c (coordinate u)
    rw [scaled, mul_left_comm, Complex.ofReal_mul, ← Complex.real_smul, map_smul]
    rfl

theorem fold_upright {z : ℂ} (upright : z.re = 0) : fold (embed z) = 0 := by
  change embed ((2 * z.re : ℝ) : ℂ) = 0
  rw [upright, mul_zero, Complex.ofReal_zero, map_zero]

noncomputable def folded (x : Vec Exact) : Call Unit (Vec Exact) :=
  pure (complexSingle (2 * (coordinate (x.point one)).re : ℝ))

noncomputable def operator : Operator Unit Exact := ⟨true, one, one, folded, folded, folded⟩

theorem folded_returns {x y : Vec Exact} {env env' : Unit} (returned : folded x env = .ok y env') :
    y.Fits one ∧ y.point one = fold (x.point one) := by
  obtain ⟨rfl, _⟩ := pure_returns.mp returned
  exact ⟨(complexSingle_denotes _).fits, point_complexSingle _⟩

noncomputable def meaning : operator.Meaning where
  map := fold
  linear := fold
  adjoint := fold
  affine x h := sub_eq_of_eq_add' (fold.map_add x h)
  apply _ returned := folded_returns returned
  applyLinear _ returned := folded_returns returned
  applyAdjoint _ returned := folded_returns returned

/-- A step upwards, and from a certain height on to the side; short steps lead nowhere. -/
noncomputable def next (gamma : Exact) (z : ℂ) : ℂ :=
  if Scalar.lt gamma (.real (1 / 2)) then z
  else if z.im < 2 then z + Complex.I
  else z + (1 / 2 : ℝ)

theorem next_first : next (.real (1 / 2)) 0 = Complex.I := by
  simp [next]

theorem next_second : next (.real (1 / 2)) Complex.I = 2 * Complex.I := by
  simp [next, two_mul]

theorem next_third : next (.real (1 / 2)) (2 * Complex.I) = 2 * Complex.I + (1 / 2 : ℝ) := by
  simp [next]

theorem next_short (z : ℂ) : next (.real (1 / 2 / 2)) z = z := by
  have small : Scalar.lt (Exact.real (1 / 2 / 2)) (.real (1 / 2)) = true := by
    rw [Exact.lt_real]
    norm_num
  rw [next, if_pos small]

noncomputable def prox : Prox Unit Exact where
  value _ := pure (.real 0)
  prox v gamma := pure (complexSingle (next gamma (coordinate (v.point one))), .real 0)

theorem prox_deterministic : prox.Deterministic one := by
  intro v v' γ p p' e₁ e₂ e₁' e₂' _ _ same _ returned returned'
  obtain ⟨rfl, _⟩ := pure_returns.mp returned
  obtain ⟨rfl, _⟩ := pure_returns.mp returned'
  rw [same]
  exact ⟨rfl, rfl⟩

/-- Three iterations with one slot. -/
noncomputable def config : Config Unit Exact :=
  { Plain.stopping (1 / 2 / 2) 3 .off with memory := .whole 1 }

theorem config_checked : config.Checked :=
  Config.Checked.withMemory ⟨_, none, Plain.stopping_accepted 3 .off (by norm_num)⟩ 1

theorem served : Solver.Served operator prox config 32 where
  total := ⟨fun env _ => ⟨_, env, rfl⟩, fun env _ => ⟨_, env, rfl⟩, fun env _ => ⟨_, env, rfl⟩⟩
  answers := fun env _ _ => ⟨_, 0, env, rfl⟩
  stays := by
    intro v γ p env env' _ _ returned
    obtain ⟨rfl, _⟩ := pure_returns.mp returned
    exact (complexSingle_denotes _).fits
  decides := fun _ _ env => ⟨_, env, rfl⟩
  budget := rfl

/-- The number zero, as a real number. -/
noncomputable def start : Vec Exact := single 0

theorem start_finite : ∀ v, some start = some v → v.allFinite = true := by
  rintro v ⟨⟩
  rfl

theorem start_accepted : Solver.startingPoint operator (some start) = .ok start := rfl

theorem start_point : start.point one = embed 0 := by
  rw [start, Exact.zero_eq]
  exact (single_denotes 0).point_eq

section States

variable {s : State Exact} {γ : ℝ} {z : ℂ}

/-- Where the real part is zero, the smooth term does not matter. -/
theorem answers_of_upright {x grad : Vec Exact} {p : Vec Exact × Exact} (upright : z.re = 0)
    (point : x.point one = embed z) (slope : grad.point one = fold (fold (x.point one)))
    (answers : prox.Answers one γ x grad p) : p = (complexSingle (next (.real γ) z), .real 0) := by
  obtain ⟨v, _, _, _, moved, returned⟩ := answers
  obtain ⟨rfl, _⟩ := pure_returns.mp returned
  rw [moved, slope, point, fold_upright upright, map_zero, smul_zero, sub_zero, coordinate_embed]

theorem step_of_upright (sound : s.Sound meaning prox γ) (upright : z.re = 0)
    (point : s.x.point one = embed z) :
    s.xbar = complexSingle (next (.real γ) z) ∧ s.gxbar = .real 0 ∧
      s.residual = .real ‖z - next (.real γ) z‖ ∧
      s.bound = .real (‖z - next (.real γ) z‖ ^ 2 / (2 * γ)) := by
  have image : s.ax.point one = 0 := by
    refine sound.evaluated.image.trans ?_
    change fold (s.x.point one) = 0
    rw [point, fold_upright upright]
  have slope : s.grad.point one = 0 := by
    refine sound.evaluated.gradient.trans ?_
    change fold (s.ax.point one) = 0
    rw [image, map_zero]
  have answered := answers_of_upright upright point
    (sound.evaluated.gradient.trans (congrArg fold sound.evaluated.image)) sound.stepped.step
  have step : s.xbar = complexSingle (next (.real γ) z) := congrArg Prod.fst answered
  have change : s.r.point one = embed (z - next (.real γ) z) := by
    rw [map_sub, ← point, ← point_complexSingle, ← step]
    exact sound.stepped.difference
  refine ⟨step, congrArg Prod.snd answered, ?_, ?_⟩
  · rw [← norm_embed, ← change]
    exact sound.stepped.norm
  · obtain ⟨f, fx, model⟩ := sound.stepped.model
    have smooth : s.fx = .real 0 := by
      rw [sound.evaluated.value]
      change Exact.real (1 / 2 * ‖s.ax.point one‖ ^ 2) = _
      rw [image]
      simp
    obtain rfl : f = 0 := Exact.real.inj (fx.symm.trans smooth)
    refine model.trans ?_
    change Exact.real (0 - ⟪s.grad.point one, s.r.point one⟫_ℝ + ‖s.r.point one‖ ^ 2 / (2 * γ)) = _
    rw [slope, change, norm_embed]
    simp

theorem smooth_of_step {axbar : Vec Exact} {fxbar : Exact}
    (evaluated : StepEvaluated meaning (complexSingle z) axbar fxbar) :
    fxbar = .real (2 * z.re ^ 2) := by
  have image : axbar.point one = embed (2 * z.re : ℝ) := by
    refine evaluated.image.trans ?_
    change fold ((complexSingle z).point one) = _
    rw [point_complexSingle]
    rfl
  refine evaluated.value.trans ?_
  change Exact.real (1 / 2 * ‖axbar.point one‖ ^ 2) = _
  rw [image, norm_embed, Complex.norm_real, Real.norm_eq_abs, sq_abs]
  ring_nf

/-- The residual at a step with a real part of zero, exactly. -/
theorem residual_of_upright (sound : s.Sound meaning prox γ)
    (evaluated : StepEvaluated meaning s.xbar s.axbar s.fxbar) (step : s.xbar = complexSingle z)
    (upright : z.re = 0) (env : Unit) :
    ∃ gradbar env', s.evaluateResidual operator prox env = .ok { s with
      gradbar := gradbar, rbar := complexSingle (z - next (.real γ) z)
      operatorCalls := s.operatorCalls + 1, proxCalls := s.proxCalls + 1 } env' := by
  obtain ⟨s', env', returned⟩ := State.evaluateResidual_answers served.total served.answers
    served.stays sound evaluated env
  obtain ⟨gradbar, v, p, rbar, _, adjoint, moved, stepped, difference, rfl⟩ :=
    State.evaluateResidual_returns returned
  obtain ⟨fits, gradient⟩ := folded_returns adjoint
  have slope : gradbar.point one = fold (fold (s.xbar.point one)) :=
    gradient.trans (congrArg fold evaluated.image)
  rw [sound.sized.gamma, Exact.neg_real] at moved
  rw [sound.sized.gamma] at stepped
  have answers := (Prox.StaysIn.answers served.stays sound.sized.positive sound.stepped.xbar_fits
    fits moved stepped).2
  have point : s.xbar.point one = embed z := by rw [step, point_complexSingle]
  obtain rfl := answers_of_upright upright point slope answers
  rw [step, complexSingle_sub] at difference
  cases difference
  exact ⟨gradbar, env', returned⟩

end States

/-- The run from there. -/
abbrev Passes (vs : List (Snapshot Unit Exact)) (b : Snapshot Unit Exact) : Prop :=
  Solver.Passes operator prox (some start) config Plain.world vs b

theorem goes {s : State Exact}
    (far : Scalar.le s.residual (.real (1 / 2 / 2) * s.firstResidual) = false)
    (w : World Unit Exact) : Solver.consult config s w = .ok false w := by
  rw [Solver.consult_standard rfl, ← far]
  rfl

/-- At the start the step leads upwards. -/
theorem launches : ∃ s w, Passes [] ⟨.resting, 3, s, w⟩ ∧ s.Sound meaning prox (1 / 2) ∧
    s.xbar = complexSingle Complex.I ∧ s.gxbar = .real 0 ∧ s.residual = .real 1 ∧
    s.bound = .real 1 ∧ s.iteration = 0 ∧ s.firstResidual = Scalar.undefined ∧
    s.history = History.empty start 1 := by
  obtain ⟨s, w, launched⟩ := Solver.launch_answers meaning served config_checked rfl rfl
    start_finite start_accepted Plain.world
  have passes : Passes [] ⟨.resting, 3, s, w⟩ := ⟨s, w, 3, launched, rfl, .stay⟩
  obtain ⟨sound, _⟩ := (passes.kept meaning served.stays config_checked start_finite).sound
    (launch_given config_checked rfl launched)
  have begun : s.x = start :=
    Except.ok.inj ((Solver.launch_starts launched).2.2.2.symm.trans start_accepted)
  obtain ⟨xbar, gxbar, residual, bound⟩ :=
    step_of_upright (z := 0) sound rfl (by rw [begun, start_point])
  rw [next_first] at xbar residual bound
  obtain ⟨x, m, started, slots, _, offered, _⟩ :=
    passes.remembers meaning served.stays config_checked start_finite
  cases started.symm.trans start_accepted
  cases slots
  refine ⟨s, w, passes, sound, xbar, gxbar, residual.trans ?_, bound.trans ?_,
    (Solver.launch_starts launched).1, Solver.launch_firstResidual launched, ?_⟩
  · simp
  · simp
  · exact (Except.ok.inj offered).symm

/-- What an iteration after the first one finds of it: the pair of vectors, and an empty ring of
real numbers. -/
structure Carries (s : State Exact) : Prop where
  xbarPrev : s.xbarPrev = complexSingle Complex.I
  rbarPrev : s.rbarPrev = complexSingle (-Complex.I)
  history : s.history = History.empty start 1

/-- In the first iteration the step size stays, and the direction leads upwards once more. -/
theorem aims : ∃ vs s w, Passes vs ⟨.aimed, 2, s, w⟩ ∧ s.gamma = .real (1 / 2) ∧
    s.d.point one = embed Complex.I ∧ s.recorded = .real 1 ∧ s.residual = .real 1 ∧
    s.iteration = 1 ∧ s.firstResidual = .real 1 ∧ Carries s := by
  obtain ⟨s, w, passes, sound, xbar, gxbar, residual, bound, zero, unknown, empty⟩ := launches
  obtain ⟨axbar, fxbar, w₁, evaluated, begins, called⟩ := served.evaluates sound w
  have far : Scalar.le s.residual (.real (1 / 2 / 2) * s.firstResidual) = false := by
    rw [unknown]
    exact Exact.le_mul_undefined _ _
  have bounded : Scalar.le fxbar s.bound = true := by
    have smooth := smooth_of_step (xbar ▸ evaluated)
    rw [smooth, bound, Exact.le_real]
    simp
  have measured := (passes.trans (.single (.search (goes far w) called rfl rfl))).trans
    (.single (.bounded bounded))
  obtain ⟨same, w₂, settles⟩ := served.settles begins evaluated (some true) 2 w₁
  obtain ⟨gradbar, env, answered⟩ :=
    residual_of_upright same evaluated xbar Complex.I_re w₂.env
  have first : s.iteration + 1 = 1 := congrArg Nat.succ zero
  have turned : Complex.I - next (.real (1 / 2)) Complex.I = -Complex.I := by
    rw [next_second]
    ring
  rw [turned] at answered
  refine ⟨_, _, _, (measured.trans (.single settles)).trans (.single (.aim
    (Run.call_returns.mpr ⟨env, Solver.aim_of_first first answered, rfl⟩))), sound.sized.gamma, ?_,
    ?_, residual, first, ?_, xbar, rfl, empty⟩
  · change ((complexSingle (-Complex.I)).scale (-1)).point one = _
    rw [Exact.one_eq, Exact.neg_real, (complexSingle_denotes _).fits.point_scale,
      point_complexSingle, ← map_smul, neg_smul, one_smul, neg_neg]
  · change s.bound + s.gxbar = _
    rw [bound, gxbar, Exact.real_add, add_zero]
  · exact (if_pos first).trans residual

/-- Its first trial is accepted, and from there the step leads to the side. -/
theorem reaches_second : ∃ vs t w, Passes vs ⟨.resting, 2, t, w⟩ ∧ t.Sound meaning prox (1 / 2) ∧
    t.x.point one = embed (2 * Complex.I) ∧ t.iteration = 1 ∧ t.firstResidual = .real 1 ∧
    Carries t := by
  obtain ⟨vs, s, w, passes, gamma, d, recorded, residual, first, known, carries⟩ := aims
  obtain ⟨γ, poised⟩ := passes.poised meaning served.stays config_checked start_finite rfl
  obtain rfl : 1 / 2 = γ := Exact.real.inj (gamma.symm.trans poised.sound.sized.gamma)
  have allowed : s.level = .ok (.real (1 - slopeOf (1 / 2) * 1 ^ 2)) := by
    refine State.level_accepts.mpr ⟨.real (1 ^ 2), ?_, ?_⟩
    · rw [residual, Exact.square_real]
    · rw [recorded, poised.sound.sized.sigma, Exact.real_mul, Exact.real_sub]
  have arrived : ∀ t, s.Arrives meaning prox (1 / 2) t → t.x.point one = embed (2 * Complex.I) := by
    intro t arrives
    refine arrives.point.trans ?_
    change s.xbarPrev.point one + s.d.point one = _
    rw [carries.xbarPrev, point_complexSingle, d, ← map_add, two_mul]
  have below : ∀ t, s.Arrives meaning prox (1 / 2) t →
      Scalar.le t.value (.real (1 - slopeOf (1 / 2) * 1 ^ 2)) = true := by
    intro t arrives
    obtain ⟨_, gxbar, _, bound⟩ :=
      step_of_upright (z := 2 * Complex.I) arrives.sound (by simp) (arrived t arrives)
    rw [State.value, bound, gxbar, Exact.real_add, Exact.le_real, next_third, slopeOf]
    norm_num
  obtain ⟨us, t, w', course, _, arrives⟩ := poised.accepts served config_checked allowed below 2 w
  exact ⟨_, t, w', passes.trans course, arrives.sound, arrived t arrives,
    arrives.iteration.trans first, arrives.firstResidual.trans known,
    arrives.xbarPrev.trans carries.xbarPrev, arrives.rbarPrev.trans carries.rbarPrev,
    arrives.history.trans carries.history⟩

/-- In the second iteration the step size is halved, and the residual is gone. -/
theorem halves : ∃ vs s w, Passes vs ⟨.measured (some true), 1, s, w⟩ ∧
    s.Sound meaning prox (1 / 2 / 2) ∧ StepEvaluated meaning s.xbar s.axbar s.fxbar ∧
    s.xbar = complexSingle (2 * Complex.I) ∧ s.residual = 0 ∧ s.iteration = 2 ∧ Carries s := by
  obtain ⟨vs, t, w, passes, sound, point, second, known, carries⟩ := reaches_second
  obtain ⟨xbar, _, residual, bound⟩ := step_of_upright (z := 2 * Complex.I) sound (by simp) point
  have aside : 2 * Complex.I - next (.real (1 / 2)) (2 * Complex.I) = ((-(1 / 2) : ℝ) : ℂ) := by
    rw [next_third]
    push_cast
    ring
  rw [aside, Complex.norm_real] at residual bound
  have far : Scalar.le t.residual (.real (1 / 2 / 2) * t.firstResidual) = false := by
    rw [residual, known, Exact.real_mul, Bool.eq_false_iff, ne_eq, Exact.le_real]
    norm_num
  obtain ⟨axbar, fxbar, w₁, evaluated, begins, called⟩ := served.evaluates sound w
  have unbounded : Scalar.le fxbar t.bound = false := by
    have smooth := smooth_of_step (xbar ▸ evaluated)
    rw [smooth, bound, Bool.eq_false_iff, ne_eq, Exact.le_real, next_third]
    norm_num
  obtain ⟨s, env, tried⟩ :=
    State.gammaTrial_answers served.total served.answers served.stays begins w₁.env
  obtain ⟨sound', evaluated', _⟩ := State.gammaTrial_sound served.stays begins tried
  have halved := Run.call_returns.mpr ⟨env, tried, rfl⟩
  have kept : s.x = t.x ∧ s.iteration = t.iteration + 1 ∧ Carries s := by
    obtain ⟨_, _, _, _, _, _, _, _, rfl⟩ := State.gammaTrial_frame tried
    exact ⟨rfl, rfl, carries.xbarPrev, carries.rbarPrev, carries.history⟩
  obtain ⟨xbar', _, residual', _⟩ :=
    step_of_upright (z := 2 * Complex.I) sound' (by simp) (kept.1 ▸ point)
  rw [next_short] at xbar' residual'
  have still : s.residual = 0 := by
    rw [residual', sub_self, norm_zero, Exact.zero_eq]
  have bounded := sound'.bounded_of_still evaluated' still
  refine ⟨_, s, _, ((passes.trans (.single (.search (goes far w) called rfl rfl))).trans
    (.single (.halve unbounded halved))).trans (.single (.bounded bounded)), sound', evaluated',
    xbar', still, ?_, kept.2.2⟩
  rw [kept.2.1, second]

/-- The offer of the second iteration. -/
noncomputable def offer : Offer Exact :=
  ⟨complexSingle (2 * Complex.I), complexSingle Complex.I, complexSingle 0,
    complexSingle (-Complex.I)⟩

theorem accepted_offer : accepted [offer] =
    [⟨complexSingle Complex.I, complexSingle Complex.I, .real (1 / ‖Complex.I‖ ^ 2)⟩] := by
  have same : offer.pair? = (History.diagonalOffer Complex.I).pair? := by
    have step : 2 * Complex.I - Complex.I = Complex.I - 0 := by ring
    have change : 0 - -Complex.I = Complex.I - 0 := by ring
    unfold Offer.pair? offer History.diagonalOffer History.complexOffer
    simp only [complexSingle_sub, step, change]
  rw [← History.accepted_diagonal (z := Complex.I) (by simp), accepted, accepted,
    List.filterMap_cons, List.filterMap_cons, same]

/-- A ring of real numbers that is offered it has no direction for zero. -/
theorem loses : ∃ h : History Exact, (History.empty start 1).update offer.xbar offer.xbarPrev
    offer.r offer.rPrev = .ok h ∧ h.direction (complexSingle 0) = .error .divisionByZero := by
  have fits : ∀ o ∈ [offer], o.Fits start.spec := by
    intro o inside
    obtain rfl := List.mem_singleton.mp inside
    exact ⟨(complexSingle_denotes _).fits, (complexSingle_denotes _).fits,
      (complexSingle_denotes _).fits, (complexSingle_denotes _).fits⟩
  have inexact : start.spec.Inexact := History.oneOf_inexact (.inl rfl)
  obtain ⟨h, offered⟩ := History.empty_answers start 1 fun o inside =>
    History.answered_of_fits inexact (fits o inside)
  have updated := offered
  rw [History.offerAll, List.foldlM_cons, bind_accepts] at updated
  obtain ⟨_, updated, ⟨⟩⟩ := updated
  refine ⟨h, updated, History.direction_divides_by_zero
    (History.recent_of_diagonal accepted_offer offered) (History.recent_curved inexact fits offered)
    ?_ (complexSingle_denotes 0).fits⟩
  rw [← norm_eq_zero]
  exact (History.norm_point_of_denotes (single_denotes _)).trans (by simp)

/-- A residual of zero that is not the end of the run but its failure: behind the search for a step
size of the second iteration of three nothing is left of the residual, and the ring has no
direction. -/
theorem run_fails :
    Solver.Served operator prox config 32 ∧ prox.Deterministic operator.domain ∧
      config.Checked ∧ config.halt = none ∧ Scalar.isFinite config.tolerance = true ∧
      config.maxIterations.toNat = .ok 3 ∧ (∀ v, some start = some v → v.allFinite = true) ∧
      ∃ vs b w', Passes vs b ∧ b.place = .measured (some true) ∧ b.state.iteration = 2 ∧
        b.state.residual = 0 ∧
        Solver.solve operator prox (some start) config Plain.world =
          .error (.fault .divisionByZero) w' := by
  refine ⟨served, prox_deterministic, config_checked, rfl, rfl, rfl, start_finite, ?_⟩
  obtain ⟨vs, s, w, passes, sound, evaluated, xbar, still, second, carries⟩ := halves
  obtain ⟨same, w₁, settles⟩ := served.settles sound evaluated (some true) 1 w
  obtain ⟨gradbar, env, answered⟩ :=
    residual_of_upright (z := 2 * Complex.I) same evaluated xbar (by simp) w₁.env
  rw [next_short, sub_self] at answered
  obtain ⟨h, updated, refused⟩ := loses
  have later : s.iteration ≠ 1 := by rw [second]; exact Nat.succ_ne_self 1
  have offered : s.history.update s.xbar s.xbarPrev (complexSingle 0) s.rbarPrev = .ok h := by
    rw [carries.history, xbar, carries.xbarPrev, carries.rbarPrev]
    exact updated
  have aims := Solver.aim_of_later (s := s.record.markValid) later answered offered
  exact ⟨vs, _, _, passes, rfl, second, still,
    (passes.trans (.single settles)).fails (aims.2 _ refused)⟩

end Drift

end ForwardBackward
