/-
# ForwardBackward.Proofs.Attribution -- which iterate the numbers of a run belong to

The step, the residual and the quadratic model of a state belong to its iterate,
wherever the run is (`Solver.Passes.forward`).  The recorded envelope and the cost
are copies: an iteration takes them behind its search for a step size, and the
search along the direction replaces the iterate and the step afterwards.

So two earlier snapshots matter.  Before the record it is the one at which the
iteration began, which still had the same iterate (`Snapshot.Began`); after it, it
is the record itself (`Snapshot.Records`).  A course passes them
(`Solver.Passes.began`, `Solver.Passes.records`).
-/
import ForwardBackward.Proofs.Sizes

namespace ForwardBackward

set_option autoImplicit false

open Snapshot (halvings)

variable {σ R : Type} [Scalar R] {c : Config σ R} {A : Operator σ R} {g : Prox σ R}
  {a b d : Snapshot σ R} {vs ws : List (Snapshot σ R)}

/-! ## The step of the moment -/

/-- The step was answered at the iterate and the step size of the state, and the envelope is the
one there. -/
def State.Forward (g : Prox σ R) (s : State R) : Prop :=
  ∃ v env env', Vec.axpy (-s.gamma) s.grad s.x = .ok v ∧
    g.prox v s.gamma env = .ok (s.xbar, s.gxbar) env' ∧
    envelope s.x s.xbar s.gxbar s.fx s.grad s.gamma = .ok ⟨s.r, s.residual, s.bound, s.value⟩

/-- `f(xbar)` was evaluated at the step of the state. -/
def State.Measured (A : Operator σ R) (s : State R) : Prop :=
  ∃ y square env env', A.apply s.xbar env = .ok y env' ∧ y.sqnorm = .ok square ∧
    s.fxbar = 0.5 * square

theorem State.step_forward {s s' : State R} {env env' : σ}
    (returned : s.step g env = .ok s' env') : s'.Forward g := by
  obtain ⟨v, p, e, moved, stepped, enveloped, rfl⟩ := step_returns returned
  refine ⟨v, env, env', moved, stepped, ?_⟩
  obtain ⟨_, _, _, _, _, _, _, _, _, _, rfl⟩ := envelope_accepts.mp enveloped
  exact enveloped

theorem State.evaluateStep_measured {s s' : State R} {env env' : σ}
    (returned : s.evaluateStep A env = .ok s' env') : s'.Measured A := by
  obtain ⟨axbar, square, applied, squared, rfl⟩ := evaluateStep_returns returned
  exact ⟨axbar, square, env, env', applied, squared, rfl⟩

theorem State.gammaTrial_forward {s s' : State R} {env env' : σ}
    (returned : s.gammaTrial A g env = .ok s' env') : s'.Forward g ∧ s'.Measured A := by
  obtain ⟨s₁, env₁, stepped, evaluated⟩ := gammaTrial_returns returned
  have forward := step_forward stepped
  refine ⟨?_, evaluateStep_measured evaluated⟩
  obtain ⟨_, _, _, _, rfl⟩ := evaluateStep_returns evaluated
  exact forward

theorem State.tauTrial_forward {s s' : State R} {tau : R} {env env' : σ}
    (returned : s.tauTrial g tau env = .ok s' env') : s'.Forward g := by
  obtain ⟨_, _, _, _, _, _, _, _, stepped⟩ := tauTrial_returns returned
  exact step_forward stepped

/-- A move takes the step anew, or it leaves alone what belongs to the step. -/
theorem Move.forward (forward : b.state.Forward g) (step : Move c A g b d) :
    d.state.Forward g := by
  cases step with
  | search _ called | skip _ called =>
      obtain ⟨_, evaluated, rfl⟩ := Run.call_returns.mp called
      obtain ⟨_, _, _, _, rfl⟩ := State.evaluateStep_returns evaluated
      exact forward
  | bounded | unbounded | exhaust => exact forward
  | halve _ called =>
      obtain ⟨_, tried, rfl⟩ := Run.call_returns.mp called
      exact (State.gammaTrial_forward tried).1
  | settle _ settled =>
      obtain ⟨_, _, rfl⟩ := Solver.settle_returns settled
      exact forward
  | aim called =>
      obtain ⟨_, aimed, rfl⟩ := Run.call_returns.mp called
      obtain ⟨_, _, _, _, _, rfl⟩ := Solver.aim_frame aimed
      exact forward
  | depart _ called _ =>
      obtain ⟨_, evaluated, rfl⟩ := Run.call_returns.mp called
      obtain ⟨_, _, _, _, _, rfl⟩ := State.evaluateDirection_returns evaluated
      exact forward
  | accept called _ | reject called _ =>
      obtain ⟨_, tried, rfl⟩ := Run.call_returns.mp called
      exact State.tauTrial_forward tried
  | approve _ approved =>
      obtain ⟨_, rfl, _⟩ := Solver.approve_returns.mp approved
      exact forward

/-- From the beginning of an iteration to its record `f(xbar)` belongs to the step. -/
theorem Move.measured (measured : b.place.pending = 1 → b.state.Measured A)
    (step : Move c A g b d) : d.place.pending = 1 → d.state.Measured A := by
  intro pending
  cases step with
  | search _ called | skip _ called =>
      obtain ⟨_, evaluated, rfl⟩ := Run.call_returns.mp called
      exact State.evaluateStep_measured evaluated
  | bounded | unbounded => exact measured rfl
  | halve _ called =>
      obtain ⟨_, tried, rfl⟩ := Run.call_returns.mp called
      exact (State.gammaTrial_forward tried).2
  | settle _ settled =>
      obtain ⟨_, _, rfl⟩ := Solver.settle_returns settled
      exact measured rfl
  | aim | depart | accept | reject | exhaust | approve => cases pending

theorem launch_forward {x0 : Option (Vec R)} {s : State R} {w w' : World σ R}
    (launched : Solver.launch A g x0 c w = .ok s w') : s.Forward g := by
  obtain ⟨_, _, _, _, _, _, _, _, s₄, _, _, _, _, _, stepped, _, rfl⟩ :=
    Solver.launch_returns launched
  have forward := State.step_forward stepped
  exact forward

/-- A run starts with the envelope of its starting point, and without a cost. -/
theorem launch_fresh {x0 : Option (Vec R)} {s : State R} {w w' : World σ R}
    (launched : Solver.launch A g x0 c w = .ok s w') :
    s.recorded = s.value ∧ s.recordedPrev = Scalar.undefined ∧ s.cost = Scalar.undefined := by
  obtain ⟨_, _, _, _, _, _, _, _, _, _, _, evaluates, sizes, set, steps, _, rfl⟩ :=
    Solver.launch_returns launched
  obtain ⟨_, _, _, _, _, _, _, rfl⟩ := State.evaluate_returns evaluates
  obtain rfl := Solver.firstGamma_frame sizes
  obtain ⟨_, _, rfl⟩ := State.setGamma_accepts.mp set
  obtain ⟨_, _, _, _, _, _, rfl⟩ := State.step_frame steps
  exact ⟨rfl, rfl, rfl⟩

/-! ## The beginning of the iteration and its record -/

/-- The iteration in progress at `b` began at `a`, and `ws` are the snapshots since. -/
structure Snapshot.Began (a : Snapshot σ R) (ws : List (Snapshot σ R)) (b : Snapshot σ R) :
    Prop where
  resting : a.place = .resting
  iteration : b.state.iteration = a.state.iteration + 1
  iterate : b.state.x = a.state.x ∧ b.state.fx = a.state.fx ∧ b.state.grad = a.state.grad
  previous : b.state.recordedPrev = a.state.recorded
  /-- Only a halving of the step size changes the envelope. -/
  unhalved : halvings ws = 0 → b.state.value = a.state.value

/-- The envelope and the cost that `b` has were recorded at `v`. -/
structure Snapshot.Records (v b : Snapshot σ R) : Prop where
  recorded : v.isRecorded = true
  iteration : b.state.iteration = v.state.iteration
  envelope : b.state.recorded = v.state.value
  previous : b.state.recordedPrev = v.state.recordedPrev
  cost : b.state.cost = v.state.fxbar + v.state.gxbar
  finite : Scalar.isFinite v.state.fxbar = true ∧ Scalar.isFinite v.state.value = true

theorem Turn.began (began : a.Began ws b) (turn : Turn c b d) (before : b.place.pending = 1)
    (after : d.place.pending = 1) : a.Began (ws ++ [b]) d := by
  have unhalved : halvings (ws ++ [b]) = 0 → halvings ws = 0 ∧ b.halves = false := by
    rw [Snapshot.halvings_append, Snapshot.halvings_single, Nat.add_eq_zero_iff]
    exact fun none => ⟨none.1, by simpa using none.2⟩
  cases turn with
  | bounded | unbounded | settle =>
      exact ⟨began.resting, began.iteration, began.iterate, began.previous,
        fun none => began.unhalved (unhalved none).1⟩
  | halve unmet _ =>
      refine ⟨began.resting, began.iteration, began.iterate, began.previous, fun none => ?_⟩
      have met := (unhalved none).2
      rw [Snapshot.halves, unmet] at met
      cases met
  | search | skip => cases before
  | aim | depart | accept | reject | exhaust | approve => cases after

/-- Behind the record nothing touches what was recorded, nor where the search along the direction
starts. -/
theorem Turn.records {v : Snapshot σ R}
    (records : v.Records b ∧ b.state.xbarPrev = v.state.xbar) (turn : Turn c b d)
    (past : b.place.pending = 0) (moving : b.place ≠ .resting) :
    v.Records d ∧ d.state.xbarPrev = v.state.xbar := by
  obtain ⟨⟨recorded, iteration, envelope, previous, cost, finite⟩, anchor⟩ := records
  cases turn with
  | depart | accept | reject | exhaust | approve =>
      exact ⟨⟨recorded, iteration, envelope, previous, cost, finite⟩, anchor⟩
  | search | skip => exact absurd rfl moving
  | bounded | halve | unbounded | settle | aim => cases past

section Courses

variable (c A g)

/-- A course passes a snapshot of some kind, `ws` being the snapshots left behind since. -/
def Snapshot.Passed (a : Snapshot σ R) (vs : List (Snapshot σ R)) (b : Snapshot σ R)
    (kind : Snapshot σ R → List (Snapshot σ R) → Prop) : Prop :=
  ∃ us v ws, vs = us ++ ws ∧ Course c A g a us v ∧ Course c A g v ws b ∧ kind v ws

/-- What a snapshot has from those before it. -/
def Snapshot.Stems (a : Snapshot σ R) (vs : List (Snapshot σ R)) (b : Snapshot σ R) : Prop :=
  let began := Passed c A g a vs b fun v ws => v.Began ws b
  let records := Passed c A g a vs b fun v _ => v.Records b ∧ b.state.xbarPrev = v.state.xbar
  match b.place with
  | .resting => b.state.iteration ≠ 0 → records
  | .searchingGamma _ | .measured _ => began
  | .recorded _ => began ∧ b.Records b
  | .aimed | .searchingTau _ _ _ | .moved _ => records

end Courses

theorem Snapshot.Passed.move {kind kind' : Snapshot σ R → List (Snapshot σ R) → Prop}
    (passed : Passed c A g a vs b kind) (step : Move c A g b d)
    (kept : ∀ v ws, kind v ws → kind' v (ws ++ [b])) :
    Passed c A g a (vs ++ [b]) d kind' := by
  obtain ⟨us, v, ws, rfl, before, since, here⟩ := passed
  exact ⟨us, v, ws ++ [b], List.append_assoc us ws [b], before, since.move step, kept v ws here⟩

theorem Course.stems (course : Course c A g a vs b) (resting : a.place = .resting)
    (fresh : a.state.iteration = 0) : Snapshot.Stems c A g a vs b := by
  induction course with
  | stay =>
      unfold Snapshot.Stems
      rw [resting]
      exact fun begun => absurd fresh begun
  | move before step ih =>
      cases step.turn with
      | search | skip =>
          exact ⟨_, _, [_], rfl, before, .single step, rfl, rfl, ⟨rfl, rfl, rfl⟩, rfl,
            fun _ => rfl⟩
      | bounded | halve | unbounded =>
          exact ih.move step fun v ws began => step.turn.began began rfl rfl
      | settle smooth value =>
          exact ⟨ih.move step fun v ws began => step.turn.began began rfl rfl,
            rfl, rfl, rfl, rfl, rfl, smooth, value⟩
      | aim =>
          obtain ⟨recorded, iteration, envelope, previous, cost, finite⟩ := ih.2
          exact ⟨_, _, [_], rfl, before, .single step,
            ⟨recorded, iteration, envelope, previous, cost, finite⟩, rfl⟩
      | depart | accept | reject | exhaust =>
          exact ih.move step fun v ws records => step.turn.records records rfl nofun
      | approve =>
          exact fun _ => ih.move step fun v ws records => step.turn.records records rfl nofun

/-! ## Runs -/

namespace Solver

variable {x0 : Option (Vec R)} {w : World σ R}

theorem Passes.forward (passes : Passes A g x0 c w vs b) : b.state.Forward g := by
  obtain ⟨s₀, w₀, limit, launched, _, course⟩ := passes
  exact course.invariant (P := fun v => v.state.Forward g) (fun _ _ => Move.forward)
    (launch_forward launched)

theorem Passes.measured (passes : Passes A g x0 c w vs b) (pending : b.place.pending = 1) :
    b.state.Measured A := by
  obtain ⟨s₀, w₀, limit, _, _, course⟩ := passes
  refine course.invariant (P := fun v => v.place.pending = 1 → v.state.Measured A)
    (fun _ _ => Move.measured) ?_ pending
  nofun

/-- The iteration of a record began at an earlier snapshot of the run. -/
theorem Passes.began (passes : Passes A g x0 c w vs b) (recorded : b.isRecorded = true) :
    ∃ us a ws, vs = us ++ ws ∧ Passes A g x0 c w us a ∧ Course c A g a ws b ∧
      a.Began ws b := by
  obtain ⟨s₀, w₀, limit, launched, budget, course⟩ := passes
  obtain ⟨found, here⟩ := Snapshot.isRecorded_iff.mp recorded
  have stems := course.stems rfl (launch_starts launched).1
  unfold Snapshot.Stems at stems
  rw [here] at stems
  obtain ⟨us, a, ws, split, before, since, began⟩ := stems.1
  exact ⟨us, a, ws, split, ⟨s₀, w₀, limit, launched, budget, before⟩, since, began⟩

/-- Where the predicate is asked, all but the first time, the run has passed a record. -/
theorem Passes.records (passes : Passes A g x0 c w vs b) (resting : b.place = .resting)
    (begun : b.state.iteration ≠ 0) :
    ∃ us v ws, vs = us ++ ws ∧ Passes A g x0 c w us v ∧ Course c A g v ws b ∧
      v.Records b ∧ b.state.xbarPrev = v.state.xbar := by
  obtain ⟨s₀, w₀, limit, launched, budget, course⟩ := passes
  have stems := course.stems rfl (launch_starts launched).1
  unfold Snapshot.Stems at stems
  rw [resting] at stems
  obtain ⟨us, v, ws, split, before, since, records⟩ := stems begun
  exact ⟨us, v, ws, split, ⟨s₀, w₀, limit, launched, budget, before⟩, since, records⟩

end Solver

end ForwardBackward
