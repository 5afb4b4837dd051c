/-
# ForwardBackward.Proofs.Course -- the course of a run, move by move

A run is at one `Place` after the other: it rests before an iteration, is at a
test of one of the two searches, has recorded the envelope, and so on.  A
`Snapshot` is a place with the state and the world there and the number of
iterations left.  A `Move` takes a run from one place to the next and is made of
the parts of `Solver.iterate`; a `Course` is a sequence of moves, with the
snapshots it visits before the last one.

Main facts: what a run does from a snapshot on (`Snapshot.resume`) is not changed
by a move (`Move.resume_eq`), so every course is one that the run really takes
(`Solver.Passes.solve_eq`); and a run that returns has taken a course from its
launch to the state of its result (`Solver.passes_of_solve`).  A property of all
snapshots that courses reach is therefore one of every moment of every run.
-/
import ForwardBackward.Proofs.Effects

namespace ForwardBackward

set_option autoImplicit false

/-- Where a run is. -/
inductive Place (R : Type) where
  /-- Before an iteration, the predicate about to be asked, or after the last one. -/
  | resting
  /-- At a test of the search for a step size, with `halvings` left to do. -/
  | searchingGamma (halvings : Nat)
  /-- Behind the search for a step size, with what it found; nothing if there is none. -/
  | measured (found : Option Bool)
  /-- The envelope and the cost are recorded. -/
  | recorded (found : Option Bool)
  /-- The direction is chosen, and the search along it about to begin. -/
  | aimed
  /-- Before a trial of the length `tau`, with `trials` left to do. -/
  | searchingTau (trials : Nat) (tau level : R)
  /-- Behind the search along the direction. -/
  | moved (found : Bool)

/-- A moment of a run. -/
structure Snapshot (σ R : Type) [Scalar R] where
  place : Place R
  /-- How many iterations may follow the one in progress. -/
  left : Nat
  state : State R
  world : World σ R

namespace Snapshot

variable {σ R : Type} [Scalar R]

/-- Whether the step size is about to be halved. -/
def halves (v : Snapshot σ R) : Bool :=
  match v.place with
  | .searchingGamma (_ + 1) => !v.state.bounded
  | _ => false

/-- How often the step size was halved on the way. -/
def halvings (vs : List (Snapshot σ R)) : Nat := vs.countP halves

def isRecorded (v : Snapshot σ R) : Bool :=
  match v.place with
  | .recorded _ => true
  | _ => false

/-- The moment before the first iteration. -/
def first (limit : Nat) (s : State R) (w : World σ R) : Snapshot σ R := ⟨.resting, limit, s, w⟩

end Snapshot

section Moves

variable {σ R : Type} [Scalar R]

/-- The note about a search for a step size that found none. -/
def Solver.announce (c : Config σ R) (found : Option Bool) (s : State R) : Run σ R Unit :=
  match found with
  | none => pure ()
  | some found => reportExhausted c found (.gammaSearchExhausted s.iteration)

variable (c : Config σ R) (A : Operator σ R) (g : Prox σ R)

/-- A run goes from one place to the next. -/
inductive Move : Snapshot σ R → Snapshot σ R → Prop where
  /-- An iteration begins, and with it a search for a step size. -/
  | search {left n : Nat} {s s₁ : State R} {w w₁ w₂ : World σ R} :
      Solver.consult c s w = .ok false w₁ →
      Run.call (s.nextIteration.evaluateStep A) w₁ = .ok s₁ w₂ →
      c.searchesGamma = true → c.searchBudget.toNat = .ok n →
      Move ⟨.resting, left + 1, s, w⟩ ⟨.searchingGamma n, left, s₁, w₂⟩
  /-- An iteration begins without a search for a step size. -/
  | skip {left : Nat} {s s₁ : State R} {w w₁ w₂ : World σ R} :
      Solver.consult c s w = .ok false w₁ →
      Run.call (s.nextIteration.evaluateStep A) w₁ = .ok s₁ w₂ →
      c.searchesGamma = false →
      Move ⟨.resting, left + 1, s, w⟩ ⟨.measured none, left, s₁, w₂⟩
  | bounded {left n : Nat} {s : State R} {w : World σ R} : s.bounded = true →
      Move ⟨.searchingGamma n, left, s, w⟩ ⟨.measured (some true), left, s, w⟩
  | halve {left n : Nat} {s s₁ : State R} {w w₁ : World σ R} : s.bounded = false →
      Run.call (s.gammaTrial A g) w = .ok s₁ w₁ →
      Move ⟨.searchingGamma (n + 1), left, s, w⟩ ⟨.searchingGamma n, left, s₁, w₁⟩
  | unbounded {left : Nat} {s : State R} {w : World σ R} : s.bounded = false →
      Move ⟨.searchingGamma 0, left, s, w⟩
        ⟨.measured (some false), left, { s with gammaFailures := s.gammaFailures + 1 }, w⟩
  | settle {left : Nat} {found : Option Bool} {s s₁ : State R} {w w₁ w₂ : World σ R} :
      Solver.announce c found s w = .ok () w₁ → Solver.settle c s w₁ = .ok s₁ w₂ →
      Move ⟨.measured found, left, s, w⟩ ⟨.recorded found, left, s₁, w₂⟩
  | aim {left : Nat} {found : Option Bool} {s s₁ : State R} {w w₁ : World σ R} :
      Run.call (Solver.aim A g s) w = .ok s₁ w₁ →
      Move ⟨.recorded found, left, s, w⟩ ⟨.aimed, left, s₁, w₁⟩
  | depart {left n : Nat} {level : R} {s s₁ : State R} {w w₁ : World σ R} :
      s.level = .ok level → Run.call (s.evaluateDirection A) w = .ok s₁ w₁ →
      c.searchBudget.toNat = .ok n →
      Move ⟨.aimed, left, s, w⟩ ⟨.searchingTau n 1 level, left, s₁, w₁⟩
  | accept {left n : Nat} {tau level : R} {s s₁ : State R} {w w₁ : World σ R} :
      Run.call (s.tauTrial g tau) w = .ok s₁ w₁ → Scalar.le s₁.value level = true →
      Move ⟨.searchingTau (n + 1) tau level, left, s, w⟩ ⟨.moved true, left, s₁, w₁⟩
  | reject {left n : Nat} {tau level : R} {s s₁ : State R} {w w₁ : World σ R} :
      Run.call (s.tauTrial g tau) w = .ok s₁ w₁ → Scalar.le s₁.value level = false →
      Move ⟨.searchingTau (n + 1) tau level, left, s, w⟩
        ⟨.searchingTau n (tau * State.tauFactor) level, left, s₁, w₁⟩
  | exhaust {left : Nat} {tau level : R} {s : State R} {w : World σ R} :
      Move ⟨.searchingTau 0 tau level, left, s, w⟩
        ⟨.moved false, left, { s with tauFailures := s.tauFailures + 1 }, w⟩
  | approve {left : Nat} {found : Bool} {s s₁ : State R} {w w₁ w₂ : World σ R} :
      Solver.reportExhausted c found (.tauSearchExhausted s.iteration) w = .ok () w₁ →
      Solver.approve s w₁ = .ok s₁ w₂ →
      Move ⟨.moved found, left, s, w⟩ ⟨.resting, left, s₁, w₂⟩

/-- What a move makes of the state, whatever the operator and the proximal step answer. -/
inductive Turn : Snapshot σ R → Snapshot σ R → Prop where
  | search {left n : Nat} {s : State R} {w w' : World σ R} {axbar : Vec R} {fxbar : R} :
      c.searchBudget.toNat = .ok n →
      Turn ⟨.resting, left + 1, s, w⟩ ⟨.searchingGamma n, left, { s.nextIteration with
        axbar := axbar, fxbar := fxbar, operatorCalls := s.operatorCalls + 1 }, w'⟩
  | skip {left : Nat} {s : State R} {w w' : World σ R} {axbar : Vec R} {fxbar : R} :
      Turn ⟨.resting, left + 1, s, w⟩ ⟨.measured none, left, { s.nextIteration with
        axbar := axbar, fxbar := fxbar, operatorCalls := s.operatorCalls + 1 }, w'⟩
  | bounded {left n : Nat} {s : State R} {w : World σ R} : s.bounded = true →
      Turn ⟨.searchingGamma n, left, s, w⟩ ⟨.measured (some true), left, s, w⟩
  | halve {left n : Nat} {s : State R} {w w' : World σ R} {xbar r axbar : Vec R}
      {gxbar residual bound fxbar : R} :
      s.bounded = false → State.Curved s.shrinkGamma.gamma residual bound →
      Turn ⟨.searchingGamma (n + 1), left, s, w⟩ ⟨.searchingGamma n, left, { s.shrinkGamma with
        xbar := xbar, gxbar := gxbar, r := r, residual := residual, bound := bound
        axbar := axbar, fxbar := fxbar
        operatorCalls := s.operatorCalls + 1, proxCalls := s.proxCalls + 1 }, w'⟩
  | unbounded {left : Nat} {s : State R} {w : World σ R} : s.bounded = false →
      Turn ⟨.searchingGamma 0, left, s, w⟩
        ⟨.measured (some false), left, { s with gammaFailures := s.gammaFailures + 1 }, w⟩
  | settle {left : Nat} {found : Option Bool} {s : State R} {w w' : World σ R} :
      Scalar.isFinite s.fxbar = true → Scalar.isFinite s.value = true →
      Turn ⟨.measured found, left, s, w⟩ ⟨.recorded found, left, s.record.markValid, w'⟩
  | aim {left : Nat} {found : Option Bool} {s : State R} {w w' : World σ R}
      {gradbar rbar d : Vec R} {history : History R} :
      (s.iteration ≠ 1 → s.history.update s.xbar s.xbarPrev rbar s.rbarPrev = .ok history) →
      Turn ⟨.recorded found, left, s, w⟩ ⟨.aimed, left, { s with
        gradbar := gradbar, rbar := rbar, history := history, d := d
        operatorCalls := s.operatorCalls + 1, proxCalls := s.proxCalls + 1
        xbarPrev := s.xbar, rbarPrev := rbar }, w'⟩
  | depart {left n : Nat} {level : R} {s : State R} {w w' : World σ R} {ld lld : Vec R} :
      s.level = .ok level → c.searchBudget.toNat = .ok n →
      Turn ⟨.aimed, left, s, w⟩ ⟨.searchingTau n 1 level, left, { s with
        ld := ld, lld := lld, operatorCalls := s.operatorCalls + 2 }, w'⟩
  | accept {left n : Nat} {tau level : R} {s : State R} {w w' : World σ R}
      {x ax grad xbar r : Vec R} {fx gxbar residual bound : R} :
      State.Curved s.gamma residual bound → Scalar.le (bound + gxbar) level = true →
      Turn ⟨.searchingTau (n + 1) tau level, left, s, w⟩ ⟨.moved true, left, { s with
        tau := tau, x := x, ax := ax, fx := fx, grad := grad, xbar := xbar, gxbar := gxbar, r := r
        residual := residual, bound := bound, proxCalls := s.proxCalls + 1 }, w'⟩
  | reject {left n : Nat} {tau level : R} {s : State R} {w w' : World σ R}
      {x ax grad xbar r : Vec R} {fx gxbar residual bound : R} :
      State.Curved s.gamma residual bound → Scalar.le (bound + gxbar) level = false →
      Turn ⟨.searchingTau (n + 1) tau level, left, s, w⟩
        ⟨.searchingTau n (tau * State.tauFactor) level, left, { s with
          tau := tau, x := x, ax := ax, fx := fx, grad := grad, xbar := xbar, gxbar := gxbar
          r := r, residual := residual, bound := bound, proxCalls := s.proxCalls + 1 }, w'⟩
  | exhaust {left : Nat} {tau level : R} {s : State R} {w : World σ R} :
      Turn ⟨.searchingTau 0 tau level, left, s, w⟩
        ⟨.moved false, left, { s with tauFailures := s.tauFailures + 1 }, w⟩
  | approve {left : Nat} {found : Bool} {s : State R} {w w' : World σ R} :
      (Scalar.isFinite s.fx && s.grad.allFinite && Scalar.isFinite s.value) = true →
      Turn ⟨.moved found, left, s, w⟩ ⟨.resting, left, s.markValid, w'⟩

/-- A sequence of moves, with the snapshots that it leaves behind. -/
inductive Course (a : Snapshot σ R) : List (Snapshot σ R) → Snapshot σ R → Prop where
  | stay : Course a [] a
  | move {vs : List (Snapshot σ R)} {b d : Snapshot σ R} :
      Course a vs b → Move c A g b d → Course a (vs ++ [b]) d

end Moves

theorem Move.turn {σ R : Type} [Scalar R] {c : Config σ R} {A : Operator σ R} {g : Prox σ R}
    {b d : Snapshot σ R} (step : Move c A g b d) : Turn c b d := by
  cases step with
  | search _ called _ budget =>
      obtain ⟨env, evaluated, rfl⟩ := Run.call_returns.mp called
      obtain ⟨axbar, square, _, _, rfl⟩ := State.evaluateStep_returns evaluated
      exact .search budget
  | skip _ called _ =>
      obtain ⟨env, evaluated, rfl⟩ := Run.call_returns.mp called
      obtain ⟨axbar, square, _, _, rfl⟩ := State.evaluateStep_returns evaluated
      exact .skip
  | bounded met => exact .bounded met
  | halve unmet called =>
      obtain ⟨env, tried, rfl⟩ := Run.call_returns.mp called
      obtain ⟨_, _, _, _, _, _, _, curved, rfl⟩ := State.gammaTrial_frame tried
      exact .halve unmet curved
  | unbounded unmet => exact .unbounded unmet
  | settle _ settled =>
      obtain ⟨smooth, value, rfl⟩ := Solver.settle_returns settled
      exact .settle smooth value
  | aim called =>
      obtain ⟨env, aimed, rfl⟩ := Run.call_returns.mp called
      obtain ⟨_, _, _, _, offers, rfl⟩ := Solver.aim_frame aimed
      exact .aim offers
  | depart level called budget =>
      obtain ⟨env, evaluated, rfl⟩ := Run.call_returns.mp called
      obtain ⟨ld, lld, _, _, _, rfl⟩ := State.evaluateDirection_returns evaluated
      exact .depart level budget
  | accept called met =>
      obtain ⟨env, tried, rfl⟩ := Run.call_returns.mp called
      obtain ⟨_, _, _, _, _, _, _, _, _, curved, rfl⟩ := State.tauTrial_frame tried
      exact .accept curved met
  | reject called unmet =>
      obtain ⟨env, tried, rfl⟩ := Run.call_returns.mp called
      obtain ⟨_, _, _, _, _, _, _, _, _, curved, rfl⟩ := State.tauTrial_frame tried
      exact .reject curved unmet
  | exhaust => exact .exhaust
  | approve _ approved =>
      obtain ⟨finite, rfl, rfl⟩ := Solver.approve_returns.mp approved
      exact .approve finite

namespace Course

variable {σ R : Type} [Scalar R] {c : Config σ R} {A : Operator σ R} {g : Prox σ R}
  {a b d : Snapshot σ R} {vs us : List (Snapshot σ R)}

theorem single (step : Move c A g a b) : Course c A g a [a] b := .move .stay step

theorem trans (before : Course c A g a vs b) (after : Course c A g b us d) :
    Course c A g a (vs ++ us) d := by
  induction after with
  | stay => simpa using before
  | move _ step ih =>
      rw [← List.append_assoc]
      exact ih.move step

/-- What holds at first and is kept by every move holds all the way. -/
theorem invariant {P : Snapshot σ R → Prop} (kept : ∀ b d, P b → Move c A g b d → P d)
    (course : Course c A g a vs b) (start : P a) : P b := by
  induction course with
  | stay => exact start
  | move _ step ih => exact kept _ _ ih step

/-- What holds at first and is kept by every move holds at all snapshots left behind. -/
theorem invariant_visited {P : Snapshot σ R → Prop} (kept : ∀ b d, P b → Move c A g b d → P d)
    (course : Course c A g a vs b) (start : P a) : ∀ v ∈ vs, P v := by
  induction course with
  | stay => simp
  | move before _ ih =>
      intro v inside
      rcases List.mem_append.mp inside with inside | last
      · exact ih v inside
      · obtain rfl := List.mem_singleton.mp last
        exact before.invariant kept start

end Course

/-! ## Iterations -/

section Iterations

variable {σ R : Type} [Scalar R] {c : Config σ R} {A : Operator σ R} {g : Prox σ R}
  {a b d : Snapshot σ R} {vs : List (Snapshot σ R)}

theorem Snapshot.isRecorded_iff {v : Snapshot σ R} :
    v.isRecorded = true ↔ ∃ found, v.place = .recorded found := by
  unfold isRecorded
  split
  · next found same => exact ⟨fun _ => ⟨found, same⟩, fun _ => rfl⟩
  · next other => exact ⟨nofun, fun ⟨found, same⟩ => absurd same (other found)⟩

/-- Only the choice of a direction changes the history. -/
theorem Turn.history_eq (turn : Turn c b d) (elsewhere : b.isRecorded = false) :
    d.state.history = b.state.history := by
  cases turn with
  | aim => cases elsewhere
  | search | skip | bounded | halve | unbounded | settle | depart | accept | reject | exhaust
  | approve => rfl

/-- The iterations whose envelope is not recorded yet. -/
def Place.pending : Place R → Nat
  | .searchingGamma _ | .measured _ | .recorded _ => 1
  | _ => 0

theorem Turn.iteration_eq (turn : Turn c b d) :
    b.state.iteration + (if b.isRecorded then 1 else 0) + d.place.pending =
      d.state.iteration + b.place.pending := by
  cases turn <;> rfl

/-- Every iteration records the envelope once. -/
theorem Course.iteration_eq (course : Course c A g a vs b) :
    a.state.iteration + vs.countP Snapshot.isRecorded + b.place.pending =
      b.state.iteration + a.place.pending := by
  induction course with
  | stay => rfl
  | @move vs b d _ step ih =>
      have turned := step.turn.iteration_eq
      rw [List.countP_append, List.countP_singleton]
      omega

theorem Turn.left_eq (turn : Turn c b d) :
    d.state.iteration + d.left = b.state.iteration + b.left := by
  cases turn with
  | @search left n s =>
      show s.iteration + 1 + left = s.iteration + (left + 1)
      omega
  | @skip left s =>
      show s.iteration + 1 + left = s.iteration + (left + 1)
      omega
  | bounded | halve | unbounded | settle | aim | depart | accept | reject | exhaust | approve => rfl

/-- The iterations begun and those that may follow are as many as at first. -/
theorem Course.left_eq (course : Course c A g a vs b) :
    b.state.iteration + b.left = a.state.iteration + a.left := by
  induction course with
  | stay => rfl
  | move _ step ih => exact step.turn.left_eq.trans ih

end Iterations

/-! ## Courses are what runs do -/

section Resume

variable {σ R : Type} [Scalar R] (c : Config σ R) (A : Operator σ R) (g : Prox σ R)

/-- The rest of a run that may do `left` more iterations. -/
def Solver.finish (left : Nat) (s : State R) : Run σ R (Result R) := do
  let (status, s) ← loop c A g left s
  conclude c status s
  pure (s.result status)

/-- What a run does from a place on. -/
def Place.resume (p : Place R) (left : Nat) (s : State R) : Run σ R (Result R) :=
  match p with
  | .resting => Solver.finish c A g left s
  | .moved found => do
      Solver.reportExhausted c found (.tauSearchExhausted s.iteration)
      Solver.finish c A g left (← Solver.approve s)
  | .searchingTau trials tau level => do
      let (found, s) ← State.tauTrials g level trials tau s
      Solver.reportExhausted c found (.tauSearchExhausted s.iteration)
      Solver.finish c A g left (← Solver.approve s)
  | .aimed => do
      let s ← Solver.searchTau c A g s
      Solver.finish c A g left (← Solver.approve s)
  | .recorded _ => do
      let s ← Solver.aim A g s
      let s ← Solver.searchTau c A g s
      Solver.finish c A g left (← Solver.approve s)
  | .measured found => do
      Solver.announce c found s
      let s ← Solver.settle c s
      let s ← Solver.aim A g s
      let s ← Solver.searchTau c A g s
      Solver.finish c A g left (← Solver.approve s)
  | .searchingGamma halvings => do
      let (found, s) ← State.gammaTrials A g halvings s
      Solver.announce c (some found) s
      let s ← Solver.settle c s
      let s ← Solver.aim A g s
      let s ← Solver.searchTau c A g s
      Solver.finish c A g left (← Solver.approve s)

/-- What a run does from a snapshot on. -/
def Snapshot.resume (v : Snapshot σ R) : EStateM.Result (Failure R) (World σ R) (Result R) :=
  v.place.resume c A g v.left v.state v.world

end Resume

section

variable {σ R : Type} [Scalar R] {c : Config σ R} {A : Operator σ R} {g : Prox σ R}

/-- Where the predicate lets a run go on, an iteration follows. -/
theorem Solver.finish_succ {left : Nat} {s s₁ : State R} {w w₁ w₂ : World σ R}
    (goes : consult c s w = .ok false w₁)
    (evaluated : Run.call (s.nextIteration.evaluateStep A) w₁ = .ok s₁ w₂) :
    finish c A g (left + 1) s w = (do
      let s ← searchGamma c A g s₁
      let s ← settle c s
      let s ← aim A g s
      let s ← searchTau c A g s
      finish c A g left (← approve s) : Run σ R (Result R)) w₂ := by
  simp only [finish, loop, bind_assoc]
  rw [bind_of_returns goes]
  simp only [Bool.false_eq_true, if_false, iterate, bind_assoc, Run.lift_call]
  rw [bind_of_returns evaluated]

/-- A move changes nothing about what the run does in the end. -/
theorem Move.resume_eq {a b : Snapshot σ R} (step : Move c A g a b) :
    a.resume c A g = b.resume c A g := by
  unfold Snapshot.resume
  cases step with
  | search goes evaluated wanted budget =>
      simp only [Place.resume]
      rw [Solver.finish_succ goes evaluated]
      simp only [Solver.searchGamma, if_pos wanted, State.gammaSearch, budget, lift_ok, pure_bind,
        bind_assoc, Solver.announce]
  | skip goes evaluated unwanted =>
      simp only [Place.resume]
      rw [Solver.finish_succ goes evaluated]
      simp only [Solver.searchGamma, unwanted, Bool.false_eq_true, if_false, pure_bind,
        Solver.announce]
  | @bounded left n s w met =>
      have ends : State.gammaTrials A g n s = pure (true, s) := by
        cases n <;> simp only [State.gammaTrials, if_pos met]
      simp only [Place.resume, ends, Run.lift_call, Run.call_pure, pure_bind]
  | halve unmet tried =>
      simp only [Place.resume, State.gammaTrials, unmet, Bool.false_eq_true, if_false,
        Run.lift_call, Run.call_bind, bind_assoc]
      rw [bind_of_returns tried]
  | unbounded unmet =>
      simp only [Place.resume, State.gammaTrials, unmet, Bool.false_eq_true, if_false,
        Run.lift_call, Run.call_pure, pure_bind]
  | settle announced settled =>
      simp only [Place.resume]
      rw [bind_of_returns announced, bind_of_returns settled]
  | aim aimed =>
      simp only [Place.resume, Run.lift_call]
      rw [bind_of_returns aimed]
  | depart level evaluated budget =>
      simp only [Place.resume, Solver.searchTau, State.tauSearch, level, budget, Run.lift_refuse,
        Run.refuse_ok, lift_ok, Run.lift_call, Run.call_bind, pure_bind, bind_assoc]
      rw [bind_of_returns evaluated]
  | accept tried met =>
      simp only [Place.resume, State.tauTrials, Run.lift_call, Run.call_bind, bind_assoc]
      rw [bind_of_returns tried]
      simp only [if_pos met, Run.call_pure, pure_bind]
  | reject tried unmet =>
      simp only [Place.resume, State.tauTrials, Run.lift_call, Run.call_bind, bind_assoc]
      rw [bind_of_returns tried]
      simp only [unmet, Bool.false_eq_true, if_false]
  | exhaust =>
      simp only [Place.resume, State.tauTrials, Run.lift_call, Run.call_pure, pure_bind]
  | approve reported approved =>
      simp only [Place.resume]
      rw [bind_of_returns reported, bind_of_returns approved]

theorem Course.resume_eq {a b : Snapshot σ R} {vs : List (Snapshot σ R)}
    (course : Course c A g a vs b) : a.resume c A g = b.resume c A g := by
  induction course with
  | stay => rfl
  | move _ step ih => exact ih.trans step.resume_eq

/-- A whole run is its launch and what follows from its first snapshot. -/
theorem solve_eq_resume {x0 : Option (Vec R)} {s : State R} {w w₁ : World σ R} {limit : Nat}
    (launched : Solver.launch A g x0 c w = .ok s w₁) (budget : c.maxIterations.toNat = .ok limit) :
    Solver.solve A g x0 c w = (Snapshot.first limit s w₁).resume c A g := by
  unfold Solver.solve
  rw [bind_of_returns launched]
  simp only [budget, Run.lift_refuse, Run.refuse_ok, pure_bind]
  rfl

/-! ## Runs take courses -/

theorem gammaTrials_course {left n : Nat} {found : Bool} {s s' : State R} {w w' : World σ R}
    (returned : Run.call (State.gammaTrials A g n s) w = .ok (found, s') w') :
    ∃ vs, Course c A g ⟨.searchingGamma n, left, s, w⟩ vs
      ⟨.measured (some found), left, s', w'⟩ := by
  induction n generalizing s w with
  | zero =>
      unfold State.gammaTrials at returned
      split at returned
      · next met =>
          cases returned
          exact ⟨_, .single (.bounded met)⟩
      · next unmet =>
          cases returned
          exact ⟨_, .single (.unbounded (Bool.eq_false_iff.mpr unmet))⟩
  | succ n ih =>
      unfold State.gammaTrials at returned
      split at returned
      · next met =>
          cases returned
          exact ⟨_, .single (.bounded met)⟩
      · next unmet =>
          rw [Run.call_bind, bind_returns] at returned
          obtain ⟨s₁, w₁, tried, returned⟩ := returned
          obtain ⟨vs, course⟩ := ih returned
          exact ⟨_, (Course.single (.halve (Bool.eq_false_iff.mpr unmet) tried)).trans course⟩

theorem tauTrials_course {left n : Nat} {tau level : R} {found : Bool} {s s' : State R}
    {w w' : World σ R}
    (returned : Run.call (State.tauTrials g level n tau s) w = .ok (found, s') w') :
    ∃ vs, Course c A g ⟨.searchingTau n tau level, left, s, w⟩ vs ⟨.moved found, left, s', w'⟩ := by
  induction n generalizing s tau w with
  | zero =>
      cases returned
      exact ⟨_, .single .exhaust⟩
  | succ n ih =>
      rw [State.tauTrials, Run.call_bind, bind_returns] at returned
      obtain ⟨s₁, w₁, tried, returned⟩ := returned
      split at returned
      · next met =>
          cases returned
          exact ⟨_, .single (.accept tried met)⟩
      · next unmet =>
          obtain ⟨vs, course⟩ := ih returned
          exact ⟨_, (Course.single (.reject tried (Bool.eq_false_iff.mpr unmet))).trans course⟩

/-- The beginning of an iteration, up to the point behind the search for a step size. -/
theorem searchGamma_course {left : Nat} {s s₁ s₂ : State R} {w w₁ w₂ w₃ : World σ R}
    (goes : Solver.consult c s w = .ok false w₁)
    (evaluated : Run.call (s.nextIteration.evaluateStep A) w₁ = .ok s₁ w₂)
    (searched : Solver.searchGamma c A g s₁ w₂ = .ok s₂ w₃) :
    ∃ vs found w₂', Course c A g ⟨.resting, left + 1, s, w⟩ vs ⟨.measured found, left, s₂, w₂'⟩ ∧
      Solver.announce c found s₂ w₂' = .ok () w₃ := by
  unfold Solver.searchGamma at searched
  split at searched
  · next wanted =>
      simp only [State.gammaSearch, bind_returns, pure_returns, Run.lift_call, Run.call_bind,
        Run.call_lift, Run.refuse_returns] at searched
      obtain ⟨⟨found, _⟩, w₂', ⟨n, _, ⟨budget, rfl⟩, tried⟩, _, _, reported, rfl, rfl⟩ := searched
      obtain ⟨vs, course⟩ := gammaTrials_course tried
      exact ⟨_, some found, w₂',
        (Course.single (.search goes evaluated wanted budget)).trans course, reported⟩
  · next unwanted =>
      cases searched
      exact ⟨_, none, _, .single (.skip goes evaluated (Bool.eq_false_iff.mpr unwanted)), rfl⟩

/-- From the chosen direction to the point behind the search along it. -/
theorem searchTau_course {left : Nat} {s s₁ : State R} {w w₁ : World σ R}
    (searched : Solver.searchTau c A g s w = .ok s₁ w₁) :
    ∃ vs found w₁', Course c A g ⟨.aimed, left, s, w⟩ vs ⟨.moved found, left, s₁, w₁'⟩ ∧
      Solver.reportExhausted c found (.tauSearchExhausted s₁.iteration) w₁' = .ok () w₁ := by
  simp only [Solver.searchTau, State.tauSearch, bind_returns, pure_returns, Run.lift_refuse,
    Run.lift_call, Run.call_bind, Run.call_lift, Run.refuse_returns] at searched
  obtain ⟨level, _, ⟨allowed, rfl⟩, ⟨found, _⟩, w₁', ⟨s', _, evaluated, n, _, ⟨budget, rfl⟩, tried⟩,
    _, _, reported, rfl, rfl⟩ := searched
  obtain ⟨vs, course⟩ := tauTrials_course tried
  exact ⟨_, found, w₁', (Course.single (.depart allowed evaluated budget)).trans course, reported⟩

theorem iterate_course {left : Nat} {s s' : State R} {w w₁ w' : World σ R}
    (goes : Solver.consult c s w = .ok false w₁)
    (iterated : Solver.iterate c A g s w₁ = .ok s' w') :
    ∃ vs, Course c A g ⟨.resting, left + 1, s, w⟩ vs ⟨.resting, left, s', w'⟩ := by
  simp only [Solver.iterate, bind_returns, Run.lift_call] at iterated
  obtain ⟨_, _, evaluated, _, _, searched, _, _, settled, _, _, aimed, _, _, moved, approved⟩ :=
    iterated
  obtain ⟨vs, found, w₂, before, announced⟩ := searchGamma_course goes evaluated searched
  obtain ⟨us, found', w₃, after, reported⟩ := searchTau_course moved
  exact ⟨_, (((before.move (.settle announced settled)).move (.aim aimed)).trans after).move
    (.approve reported approved)⟩

/-- A loop ends where no iterations are left or the predicate halts it. -/
theorem loop_course {left : Nat} {s s' : State R} {w w' : World σ R} {status : Status}
    (looped : Solver.loop c A g left s w = .ok (status, s') w') :
    ∃ vs rest w₁, Course c A g ⟨.resting, left, s, w⟩ vs ⟨.resting, rest, s', w₁⟩ ∧
      (rest = 0 ∧ w' = w₁ ∨ Solver.consult c s' w₁ = .ok true w') := by
  induction left generalizing s w with
  | zero =>
      cases looped
      exact ⟨_, _, _, .stay, .inl ⟨rfl, rfl⟩⟩
  | succ left ih =>
      rw [Solver.loop, bind_returns] at looped
      obtain ⟨halt, w₁, asked, looped⟩ := looped
      cases halt with
      | true =>
          cases looped
          exact ⟨_, _, _, .stay, .inr asked⟩
      | false =>
          simp only [Bool.false_eq_true, if_false, bind_returns] at looped
          obtain ⟨s₁, w₂, iterated, looped⟩ := looped
          obtain ⟨vs, before⟩ := iterate_course asked iterated
          obtain ⟨us, rest, w₃, after, ends⟩ := ih looped
          exact ⟨_, _, _, before.trans after, ends⟩

/-- The run gets to the snapshot `b` and leaves the snapshots `vs` behind. -/
def Solver.Passes (A : Operator σ R) (g : Prox σ R) (x0 : Option (Vec R)) (c : Config σ R)
    (w : World σ R) (vs : List (Snapshot σ R)) (b : Snapshot σ R) : Prop :=
  ∃ s₀ w₀ limit, launch A g x0 c w = .ok s₀ w₀ ∧ c.maxIterations.toNat = .ok limit ∧
    Course c A g (.first limit s₀ w₀) vs b

theorem Solver.Passes.trans {x0 : Option (Vec R)} {w : World σ R} {vs us : List (Snapshot σ R)}
    {b d : Snapshot σ R} (passes : Passes A g x0 c w vs b) (course : Course c A g b us d) :
    Passes A g x0 c w (vs ++ us) d := by
  obtain ⟨s₀, w₀, limit, launched, budget, before⟩ := passes
  exact ⟨s₀, w₀, limit, launched, budget, before.trans course⟩

/-- What a run does in the end is what it does from any snapshot that it passes. -/
theorem Solver.Passes.solve_eq {x0 : Option (Vec R)} {w : World σ R} {vs : List (Snapshot σ R)}
    {b : Snapshot σ R} (passes : Passes A g x0 c w vs b) :
    solve A g x0 c w = b.resume c A g := by
  obtain ⟨s₀, w₀, limit, launched, budget, course⟩ := passes
  exact (solve_eq_resume launched budget).trans course.resume_eq

/-- A run that returns has taken a course from its launch to the state of its result, and all
that followed was a last question and the notes of the end. -/
theorem Solver.ends_of_solve {x0 : Option (Vec R)} {r : Result R} {w w' : World σ R}
    (returned : solve A g x0 c w = .ok r w') :
    ∃ vs b status w₁, Passes A g x0 c w vs b ∧ b.place = .resting ∧ r = b.state.result status ∧
      (b.left = 0 ∧ w₁ = b.world ∨ consult c b.state b.world = .ok true w₁) ∧
      conclude c status b.state w₁ = .ok () w' := by
  simp only [Solver.solve, bind_returns, pure_returns, Run.lift_refuse,
    Run.refuse_returns] at returned
  obtain ⟨s₀, w₀, launched, limit, _, ⟨budget, rfl⟩, ⟨status, s⟩, w₁, looped, _, _, told, rfl,
    rfl⟩ := returned
  obtain ⟨vs, rest, w₂, course, ends⟩ := loop_course looped
  exact ⟨vs, _, status, w₁, ⟨s₀, _, limit, launched, budget, course⟩, rfl, rfl, ends, told⟩

/-- A run that returns has taken a course from its launch to the state of its result. -/
theorem Solver.passes_of_solve {x0 : Option (Vec R)} {r : Result R} {w w' : World σ R}
    (returned : solve A g x0 c w = .ok r w') :
    ∃ vs b status, Passes A g x0 c w vs b ∧ b.place = .resting ∧ r = b.state.result status := by
  obtain ⟨vs, b, status, _, passes, resting, same, _⟩ := ends_of_solve returned
  exact ⟨vs, b, status, passes, resting, same⟩

end

end ForwardBackward
