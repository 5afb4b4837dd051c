/-
# ForwardBackward.Proofs.Endings -- how a run ends, whatever comes of it

A loop that has started goes from one rest to the next until it stops, and it stops in
one of four ways (`Solver.Stops`): no iterations are left, the predicate halts it, the
predicate does not answer, or the iteration that the predicate let begin breaks off
(`Solver.loop_stops`).  A run that does not get that far was not launched, or its limit
is no whole number (`Solver.solve_ends`).

What kinds of failure a part of a run can end with is seen from the calls and checks it
is made of (`Run.FailsWith`).  Only a question to the predicate can fail for want of an
answer, and no other part of a run ends with such a failure (`Run.Unasked`).
-/
import ForwardBackward.Proofs.Course

namespace ForwardBackward

set_option autoImplicit false

variable {σ R α β : Type}

/-! ## Failures for want of an answer -/

/-- Why a verdict is no answer. -/
def Verdict.cause? : Verdict → Option NoAnswer
  | .decided _ => none
  | .notTruth typeName => some (.notTruth typeName)
  | .raised e => some (.raised e)

/-- The failure is one of the predicate. -/
def Failure.isHalting : Failure R → Bool
  | .halting _ _ => true
  | _ => false

/-- Whatever a part of a run fails with is of a kind. -/
def Run.FailsWith (P : Failure R → Prop) (m : Run σ R α) : Prop :=
  ∀ w e w', m w = .error e w' → P e

namespace Run.FailsWith

variable {P : Failure R → Prop}

protected theorem pure (a : α) : FailsWith P (pure a : Run σ R α) :=
  fun _ _ _ failed => by cases failed

protected theorem bind {m : Run σ R α} {f : α → Run σ R β} (first : FailsWith P m)
    (rest : ∀ a, FailsWith P (f a)) : FailsWith P (m >>= f) := by
  intro w e w' failed
  rcases bind_fails.mp failed with failed | ⟨a, w₁, _, failed⟩
  · exact first _ _ _ failed
  · exact rest a _ _ _ failed

protected theorem ite {p : Prop} [Decidable p] {m n : Run σ R α} (yes : FailsWith P m)
    (no : FailsWith P n) : FailsWith P (if p then m else n) := by
  split
  · exact yes
  · exact no

/-- A call and a refusal fail with a fault. -/
theorem call (faults : ∀ cause, P (.fault cause)) (c : Call σ α) :
    FailsWith P (Run.call c : Run σ R α) := by
  intro w e w' failed
  unfold Run.call at failed
  cases made : c w.env with
  | ok a env =>
      rw [made] at failed
      cases failed
  | error cause env =>
      rw [made] at failed
      cases failed
      exact faults cause

theorem refuse (faults : ∀ cause, P (.fault cause)) (x : Except Fault α) :
    FailsWith P (Run.refuse x : Run σ R α) := by
  intro w e w' failed
  cases x with
  | ok a => cases failed
  | error cause =>
      cases failed
      exact faults cause

theorem note (n : Note R) : FailsWith P (Run.note n : Run σ R Unit) :=
  fun _ _ _ failed => by cases failed

end Run.FailsWith

/-- A part of a run that does not fail for want of an answer. -/
def Run.Unasked (m : Run σ R α) : Prop :=
  ∀ w e w', m w = .error e w' → e.isHalting = false

variable [Scalar R]

theorem State.certify_unasked (s : State R) (what : Monitored) (finite : Bool) :
    Run.Unasked (s.certify what finite : Run σ R (State R)) := by
  intro w e w' failed
  obtain ⟨_, rfl, _⟩ := certify_fails.mp failed
  rfl

namespace Solver

section Failures

open Run.FailsWith

variable {P : Failure R → Prop} (c : Config σ R) (A : Operator σ R) (g : Prox σ R) (s : State R)

/-- Reports do not fail at all. -/
theorem report_failsWith : Run.FailsWith P (report c s) := by
  unfold report
  cases c.verbosity with
  | off => exact .pure _
  | periodic => exact .ite (note _) (.pure _)
  | everyIteration => exact note _

theorem reportExhausted_failsWith (found : Bool) (n : Note R) :
    Run.FailsWith P (reportExhausted c found n) :=
  .ite (note _) (.pure _)

theorem conclude_failsWith (status : Status) : Run.FailsWith P (conclude c status s) := by
  refine .ite (.bind (note _) fun _ => ?_) (.pure _)
  cases status with
  | converged => exact note _
  | iterationsSpent => exact .bind (note _) fun _ => note _

/-- The searches fail with a fault. -/
theorem searchGamma_failsWith (faults : ∀ cause, P (.fault cause)) :
    Run.FailsWith P (searchGamma c A g s) :=
  .ite (.bind (call faults _) fun _ => .bind (reportExhausted_failsWith c _ _) fun _ => .pure _)
    (.pure _)

theorem searchTau_failsWith (faults : ∀ cause, P (.fault cause)) :
    Run.FailsWith P (searchTau c A g s) :=
  .bind (refuse faults _) fun _ => .bind (call faults _) fun _ =>
    .bind (reportExhausted_failsWith c _ _) fun _ => .pure _

theorem firstGamma_failsWith (faults : ∀ cause, P (.fault cause)) :
    Run.FailsWith P (firstGamma c A s) := by
  unfold firstGamma
  cases c.stepSize with
  | some gamma => exact .pure _
  | none =>
      exact .bind (call faults _) fun _ => .bind (refuse faults _) fun _ =>
        .ite (.pure _) (.ite (.bind (note _) fun _ => .pure _) (.pure _))

end Failures

section Unasked

open Run.FailsWith

variable (c : Config σ R) (A : Operator σ R) (g : Prox σ R) (s : State R)

theorem iterate_unasked : Run.Unasked (iterate c A g s) :=
  Run.FailsWith.bind (call (fun _ => rfl) _) fun s =>
  .bind (searchGamma_failsWith c A g s fun _ => rfl) fun s =>
  .bind (.bind (s.record.certify_unasked _ _) fun s => .bind (report_failsWith c s) fun _ =>
    .pure _) fun _ =>
  .bind (call (fun _ => rfl) _) fun s =>
  .bind (searchTau_failsWith c A g s fun _ => rfl) fun s => s.certify_unasked _ _

theorem begin_unasked : Run.Unasked (begin c A g s) :=
  Run.FailsWith.bind (call (fun _ => rfl) _) fun s =>
  .bind (s.certify_unasked _ _) fun s =>
  .bind (firstGamma_failsWith c A s fun _ => rfl) fun _ =>
  .bind (refuse (fun _ => rfl) _) fun _ =>
  .bind (call (fun _ => rfl) _) fun _ => State.certify_unasked _ _ _

theorem launch_unasked (x0 : Option (Vec R)) : Run.Unasked (launch A g x0 c) :=
  Run.FailsWith.bind (refuse (fun _ => rfl) _) fun _ => .bind (refuse (fun _ => rfl) _) fun _ =>
    .ite (.bind (note _) fun _ => begin_unasked c A g _) (begin_unasked c A g _)

end Unasked

/-! ## Questions -/

variable {c : Config σ R} {A : Operator σ R} {g : Prox σ R} {s : State R} {w : World σ R} {env : σ}

/-- The predicate does not answer. -/
theorem consult_of_cause {verdict : Verdict} {cause : NoAnswer}
    (told : c.predicate.judge c.tolerance s w.env = (verdict, env))
    (silent : verdict.cause? = some cause) :
    consult c s w =
      .error (.halting cause ⟨s.iteration, s.gamma, s.residual⟩) { w with env := env } := by
  unfold consult
  rw [bind_of_returns (show (get : Run σ R (World σ R)) _ = .ok _ _ from rfl), told]
  cases verdict with
  | decided halt => cases silent
  | notTruth typeName =>
      cases silent
      rfl
  | raised e =>
      cases silent
      rfl

/-! ## Stops -/

/-- The ways in which a loop with `left` iterations to go stops where it rests. -/
inductive Stops (c : Config σ R) (A : Operator σ R) (g : Prox σ R) :
    Nat → State R → World σ R → EStateM.Result (Failure R) (World σ R) (Status × State R) →
    Prop where
  | spent {s : State R} {w : World σ R} : Stops c A g 0 s w (.ok (.iterationsSpent, s) w)
  | halted {left : Nat} {s : State R} {w : World σ R} {env : σ} :
      c.predicate.judge c.tolerance s w.env = (.decided true, env) →
      Stops c A g (left + 1) s w (.ok (.converged, s) { w with env := env })
  | unanswered {left : Nat} {s : State R} {w : World σ R} {env : σ} {verdict : Verdict}
      {cause : NoAnswer} :
      c.predicate.judge c.tolerance s w.env = (verdict, env) → verdict.cause? = some cause →
      Stops c A g (left + 1) s w
        (.error (.halting cause ⟨s.iteration, s.gamma, s.residual⟩) { w with env := env })
  | broken {left : Nat} {s : State R} {w w₁ : World σ R} {env : σ} {e : Failure R} :
      c.predicate.judge c.tolerance s w.env = (.decided false, env) →
      iterate c A g s { w with env := env } = .error e w₁ →
      Stops c A g (left + 1) s w (.error e w₁)

/-- A loop goes from rest to rest and stops. -/
theorem loop_stops (left : Nat) (s : State R) (w : World σ R) :
    ∃ vs rest s' w', Course c A g ⟨.resting, left, s, w⟩ vs ⟨.resting, rest, s', w'⟩ ∧
      Stops c A g rest s' w' (loop c A g left s w) := by
  induction left generalizing s w with
  | zero => exact ⟨_, _, _, _, .stay, .spent⟩
  | succ left ih =>
      rcases told : c.predicate.judge c.tolerance s w.env with ⟨verdict, env⟩
      cases silent : verdict.cause? with
      | some cause =>
          refine ⟨_, _, _, _, .stay, ?_⟩
          rw [loop, bind_of_fails (consult_of_cause told silent)]
          exact .unanswered told silent
      | none =>
          cases verdict with
          | notTruth | raised => cases silent
          | decided halt =>
              have asked := consult_of_decided told
              rw [loop, bind_of_returns asked]
              cases halt with
              | true => exact ⟨_, _, _, _, .stay, .halted told⟩
              | false =>
                  simp only [Bool.false_eq_true, if_false]
                  cases iterated : iterate c A g s { w with env := env } with
                  | ok s₁ w₁ =>
                      obtain ⟨vs, before⟩ := iterate_course asked iterated
                      obtain ⟨us, rest, s', w', after, stops⟩ := ih s₁ w₁
                      rw [bind_of_returns iterated]
                      exact ⟨_, _, _, _, before.trans after, stops⟩
                  | error e w₁ =>
                      rw [bind_of_fails iterated]
                      exact ⟨_, _, _, _, .stay, .broken told iterated⟩

/-- What comes of a run whose loop stops. -/
def after (c : Config σ R) :
    EStateM.Result (Failure R) (World σ R) (Status × State R) →
    EStateM.Result (Failure R) (World σ R) (Result R)
  | .error e w => .error e w
  | .ok (status, s) w => (do conclude c status s; pure (s.result status) : Run σ R (Result R)) w

/-- A run was not launched, or its limit is no whole number, or its loop stops at a rest that the
run gets to. -/
theorem solve_ends (A : Operator σ R) (g : Prox σ R) (x0 : Option (Vec R)) (c : Config σ R)
    (w : World σ R) :
    (∃ e w', launch A g x0 c w = .error e w' ∧ solve A g x0 c w = .error e w') ∨
    (∃ s w' e, launch A g x0 c w = .ok s w' ∧ c.maxIterations.toNat = .error e ∧
      solve A g x0 c w = .error (.fault e) w') ∨
    ∃ vs b out, Passes A g x0 c w vs b ∧ b.place = .resting ∧
      Stops c A g b.left b.state b.world out ∧ solve A g x0 c w = after c out := by
  cases launched : launch A g x0 c w with
  | error e w' =>
      refine .inl ⟨e, w', rfl, ?_⟩
      unfold solve
      rw [bind_of_fails launched]
  | ok s w' =>
      cases budget : c.maxIterations.toNat with
      | error e =>
          refine .inr (.inl ⟨s, w', e, rfl, rfl, ?_⟩)
          unfold solve
          rw [bind_of_returns launched]
          simp only [budget]
          rfl
      | ok limit =>
          obtain ⟨vs, rest, s', w₁, course, stops⟩ := loop_stops (c := c) (A := A) (g := g) limit s w'
          refine .inr (.inr ⟨vs, _, _, ⟨s, w', limit, launched, budget, course⟩, rfl, stops, ?_⟩)
          unfold solve
          rw [bind_of_returns launched]
          simp only [budget, Run.lift_refuse, Run.refuse_ok, pure_bind]
          cases looped : loop c A g limit s w' with
          | error e w₂ => rw [bind_of_fails looped, after]
          | ok answer w₂ =>
              rw [bind_of_returns looped]
              rfl

/-- A predicate that always answers no lets a run spend its iterations. -/
theorem iterations_of_patient {x0 : Option (Vec R)} {r : Result R} {w' : World σ R} {limit : Nat}
    (budget : c.maxIterations.toNat = .ok limit)
    (patient : ∀ s env, (c.predicate.judge c.tolerance s env).1 = .decided false)
    (returned : solve A g x0 c w = .ok r w') :
    r.status = .iterationsSpent ∧ r.iterations = limit := by
  rcases solve_ends A g x0 c w with ⟨_, _, _, fails⟩ | ⟨_, _, _, _, _, fails⟩ |
    ⟨vs, ⟨place, left, s, w₁⟩, out, ⟨s₀, w₀, limit', launched, budget', course⟩, resting, stops, ends⟩
  · cases returned.symm.trans fails
  · cases returned.symm.trans fails
  · cases budget.symm.trans budget'
    rw [ends] at returned
    cases stops with
    | spent =>
        obtain ⟨_, _, _, same⟩ := bind_returns.mp returned
        obtain ⟨rfl, _⟩ := pure_returns.mp same
        have counts : s.iteration + 0 = s₀.iteration + limit := course.left_eq
        rw [(launch_starts launched).1, Nat.zero_add] at counts
        exact ⟨rfl, counts⟩
    | halted told =>
        have answer := patient s w₁.env
        rw [told] at answer
        cases answer
    | unanswered | broken => cases returned

end Solver

end ForwardBackward
