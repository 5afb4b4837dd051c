/-
# ForwardBackward.Proofs.Underflow -- how far a step size can be halved

A run begins with a positive step size, given or estimated, and nothing but a halving
changes it.  In exact arithmetic it stays positive.  Doubles have a least positive one,
and half of that is zero, so here a search for a step size can come to an end that its
budget does not know of.

* As long as the step size is above the least one, a halving leaves one that can be
  divided by; from `2 ^ k` on that is so for `1074 + k` halvings, whatever the searches
  were that made them (`Course.atLeast`).
* A halving of the least one divides by zero, and no run gets through it
  (`Snapshot.Underflows.refused`).
* A search that stops with a value that is not finite ends the run with a failure of
  finiteness (`Solver.Passes.search_ends`), but it stops only if its budget does before
  the step size is gone.

So a run that meets values that are not finite may end with a division by zero:
`Bottom.vanishes` is one that does so in its first halving.
-/
import ForwardBackward.Proofs.Diagnostics
import ForwardBackward.Proofs.Doubles
import ForwardBackward.Limited

namespace ForwardBackward

set_option autoImplicit false

open Double (AtLeast least)
open Snapshot (halvings)

/-! ## A halving that is refused -/

section

variable {σ R : Type} [Scalar R] {A : Operator σ R} {g : Prox σ R} {c : Config σ R}

/-- Where an envelope is a matter of the step size only, it is refused at one that counts as
zero. -/
theorem envelope_of_zero {x xbar grad : Vec R} {gxbar fx gamma other : R} {e : Envelope R}
    (answers : envelope x xbar gxbar fx grad other = .ok e)
    (zero : Scalar.eq (2 * gamma) 0 = true) :
    envelope x xbar gxbar fx grad gamma = .error .divisionByZero := by
  obtain ⟨r, a, slope, square, _, difference, arrays, product, squared, _⟩ :=
    envelope_accepts.mp answers
  have divides : Scalar.quotient square (2 * gamma) = .error .divisionByZero := if_pos zero
  unfold envelope
  rw [difference]
  change (r.asArrays >>= _) = _
  rw [arrays]
  change (grad.inner r >>= _) = _
  rw [product]
  change (Scalar.square a.norm >>= _) = _
  rw [squared]
  change (Scalar.quotient square (2 * gamma) >>= _) = _
  rw [divides]
  rfl

theorem State.step_of_zero {s : State R} {p : Vec R × R} {e : Envelope R} {other : R} {env env' : σ}
    (stepped : forwardBackwardStep g s.x s.grad s.gamma env = .ok p env')
    (answers : envelope s.x p.1 p.2 s.fx s.grad other = .ok e)
    (zero : Scalar.eq (2 * s.gamma) 0 = true) : s.step g env = .error .divisionByZero env' := by
  have called : s.callProx g s.x s.grad env =
      .ok (p, { s with proxCalls := s.proxCalls + 1 }) env' := bind_of_returns stepped _
  unfold step
  rw [bind_of_returns called]
  dsimp only
  rw [envelope_of_zero answers zero]
  rfl

/-- Where a halving is refused, the run ends. -/
theorem Solver.Passes.solve_of_refused {x0 : Option (Vec R)} {w : World σ R}
    {vs : List (Snapshot σ R)} {b : Snapshot σ R} {fault : Fault} {env : σ}
    (passes : Passes A g x0 c w vs b) (halves : b.halves = true)
    (refused : b.state.gammaTrial A g b.world.env = .error fault env) :
    solve A g x0 c w = .error (.fault fault) { b.world with env := env } := by
  obtain ⟨place, left, s, w₁⟩ := b
  rw [passes.solve_eq]
  cases place with
  | searchingGamma n =>
      cases n with
      | zero => cases halves
      | succ n =>
          have unmet : s.bounded = false := by simpa [Snapshot.halves] using halves
          have failed : State.gammaTrials A g (n + 1) s w₁.env = .error fault env := by
            rw [State.gammaTrials, unmet]
            exact bind_of_fails refused _
          have called : Run.call (State.gammaTrials A g (n + 1) s) w₁ =
              .error (.fault fault) { w₁ with env := env } := by
            rw [Run.call, failed]
          exact bind_of_fails called _
  | resting | measured | recorded | aimed | searchingTau | moved => cases halves

/-- A search that stops with a value of the smooth term that is not finite ends the run. -/
theorem Solver.Passes.search_ends {x0 : Option (Vec R)} {w : World σ R}
    {vs : List (Snapshot σ R)} {b : Snapshot σ R} {n : Nat} (passes : Passes A g x0 c w vs b)
    (searching : b.place = .searchingGamma n) (stops : b.halves = false)
    (infinite : Scalar.isFinite b.state.fxbar = false) :
    ∃ w', solve A g x0 c w = .error (.nonFinite .envelope b.state.lastValid) w' := by
  obtain ⟨place, left, s, w₁⟩ := b
  obtain rfl : place = .searchingGamma n := searching
  have fails : ∀ gammaFailures, (Scalar.isFinite s.fxbar &&
      Scalar.isFinite { s with gammaFailures := gammaFailures : State R }.value) = false := by
    intro
    rw [show Scalar.isFinite s.fxbar = false from infinite]
    rfl
  cases met : s.bounded with
  | true =>
      exact (passes.trans (.single (.bounded met))).solve_of_fails (.envelope (fails _))
  | false =>
      cases n with
      | zero => exact (passes.trans (.single (.unbounded met))).solve_of_fails (.envelope (fails _))
      | succ n => simp [Snapshot.halves, met] at stops

end

/-! ## Step sizes that are doubles -/

namespace Double

variable {x : Float} {k : ℤ}

theorem AtLeast.half (large : AtLeast k x) (deep : -1073 ≤ k) : AtLeast (k - 1) (x * 0.5) := by
  exact large.mul (half_is.power_atLeast (k := -1) le_rfl) (by omega)

theorem AtLeast.above_least (large : AtLeast k x) (deep : -1074 < k) :
    Scalar.le x least = false := by
  rcases large with opened | ⟨m, e, is, large⟩
  · rw [le_eq, opened]
    rfl
  · refine Bool.eq_false_iff.mpr fun below => ?_
    rw [is.le_iff least_is] at below
    have power := (power_le_iff one_ne_zero).mp (large.trans below)
    rw [show Nat.log2 1 = 0 from rfl] at power
    omega

end Double

/-- A step size that is positive and can be divided by. -/
structure Divides {R : Type} [Scalar R] (gamma : R) : Prop extends Positive gamma where
  quotient (a : R) : Scalar.quotient a (2 * gamma) = .ok (a / (2 * gamma))

theorem Positive.divides {gamma : Float} (positive : Positive gamma) : Divides gamma := by
  obtain ⟨m, e, is⟩ := Double.is_of_positive positive.finite positive.above
  exact ⟨positive, fun a => if_neg (Bool.eq_false_iff.mp is.twice_nonzero)⟩

variable {σ : Type} {c : Config σ Float} {A : Operator σ Float} {g : Prox σ Float}
  {b d : Snapshot σ Float} {vs : List (Snapshot σ Float)}

/-- The step size is about to be halved, and nothing will be left of it. -/
structure Snapshot.Underflows (v : Snapshot σ Float) : Prop where
  halves : v.halves = true
  least : Scalar.le v.state.gamma least = true

/-- No halving of the least step size is answered. -/
theorem Snapshot.Underflows.refused (underflows : b.Underflows)
    (positive : Positive b.state.gamma) :
    ∃ fault env, b.state.gammaTrial A g b.world.env = .error fault env := by
  cases tried : b.state.gammaTrial A g b.world.env with
  | error fault env => exact ⟨fault, env, rfl⟩
  | ok s env =>
      obtain ⟨_, _, _, _, _, _, _, curved, _⟩ := State.gammaTrial_frame tried
      cases curved.divides.symm.trans (Double.half_zero positive underflows.least)

theorem Turn.atLeast {k : ℤ} (large : AtLeast k b.state.gamma) (deep : -1073 ≤ k)
    (turn : Turn c b d) : AtLeast (k - halvings [b]) d.state.gamma := by
  rw [Snapshot.halvings_single]
  rcases turn.gamma_eq with ⟨halves, gamma, _⟩ | ⟨halves, gamma, _⟩
  · rw [gamma, halves]
    exact large.half deep
  · rw [gamma, halves]
    simpa using large

/-- From `2 ^ k` on the step size loses a power of two with every halving. -/
theorem Course.atLeast {a : Snapshot σ Float} {k : ℤ} (course : Course c A g a vs b)
    (start : AtLeast k a.state.gamma) (few : halvings vs ≤ 1074 + k) :
    AtLeast (k - halvings vs) b.state.gamma := by
  induction course with
  | stay => simpa [halvings] using start
  | @move vs b d _ step ih =>
      rw [Snapshot.halvings_append] at few ⊢
      push_cast at few ⊢
      have before := ih (by omega)
      -- A move that is no halving keeps the step size, and the count as well.
      by_cases halves : b.halves = true
      · rw [Snapshot.halvings_single, if_pos halves] at few
        rw [← sub_sub]
        exact step.turn.atLeast before (by
          push_cast at few
          omega)
      · rw [Snapshot.halvings_single, if_neg halves]
        rcases step.turn.gamma_eq with ⟨here, _⟩ | ⟨_, gamma, _⟩
        · exact absurd here halves
        · rw [gamma]
          simpa using before

namespace Solver

variable (A : Operator σ Float) (g : Prox σ Float) (x0 : Option (Vec Float)) (c : Config σ Float)
  (w : World σ Float)

/-- What a run makes of its step size at the moment `b`, the snapshots `vs` behind it. -/
structure Halved (vs : List (Snapshot σ Float)) (b : Snapshot σ Float) : Prop where
  divides : Divides b.state.gamma
  /-- Above the least double a halving leaves a step size that can be divided by. -/
  next : b.halves = true → Scalar.le b.state.gamma least = false →
    Divides b.state.shrinkGamma.gamma
  /-- A halving of the least double ends the run, and not with a failure of finiteness. -/
  vanishes : b.Underflows → ∃ fault w', solve A g x0 c w = .error (.fault fault) w'
  /-- Where the envelope is a matter of the step size only, it ends with a division by zero. -/
  by_zero {p : Vec Float × Float} {env : σ} {other : Float} {e : Envelope Float} : b.Underflows →
    forwardBackwardStep g b.state.x b.state.grad b.state.shrinkGamma.gamma b.world.env =
      .ok p env →
    envelope b.state.x p.1 p.2 b.state.fx b.state.grad other = .ok e →
    solve A g x0 c w = .error (.fault .divisionByZero) { b.world with env := env }
  /-- That takes more than `1074 + k` halvings of a step size of `2 ^ k` or more. -/
  late {s₀ : State Float} {w₀ : World σ Float} {k : ℤ} : launch A g x0 c w = .ok s₀ w₀ →
    AtLeast k s₀.gamma → halvings vs < 1074 + k → ¬b.Underflows
  /-- A search that stops with a value that is not finite ends the run with a failure of
  finiteness. -/
  ends {n : Nat} : b.place = .searchingGamma n → b.halves = false →
    Scalar.isFinite b.state.fxbar = false →
    ∃ w', solve A g x0 c w = .error (.nonFinite .envelope b.state.lastValid) w'

variable {A g x0 c w} {o : Settings Float} {halt : Option (Predicate σ Float)}

theorem Passes.halved (checked : Config.ofSettings o halt = .ok c)
    (passes : Passes A g x0 c w vs b) : Halved A g x0 c w vs b := by
  have positive := passes.positive checked
  refine ⟨positive.divides, fun _ above => (Double.half_positive positive above).divides,
    fun underflows => ?_, fun underflows stepped answers => ?_,
    fun launched large few underflows => ?_, passes.search_ends⟩
  · obtain ⟨fault, env, refused⟩ := underflows.refused (A := A) (g := g) positive
    exact ⟨fault, _, passes.solve_of_refused underflows.halves refused⟩
  · have zero := Double.half_zero positive underflows.least
    have refused : b.state.gammaTrial A g b.world.env = .error .divisionByZero _ :=
      bind_of_fails (State.step_of_zero (s := b.state.shrinkGamma) stepped answers zero) _
    exact passes.solve_of_refused underflows.halves refused
  · -- A step size of `2 ^ (k - halvings)` or more is above the least one while that power is.
    obtain ⟨s, w₁, limit, launched', _, course⟩ := passes
    cases launched.symm.trans launched'
    have above := (course.atLeast large few.le).above_least (by omega)
    cases above.symm.trans underflows.least

/-- The step size of a run in doubles, whatever the operator and the proximal step answer.  The
first one is positive and can be divided by, and so is every other one up to a halving of the least
double there is. -/
theorem stepSize_until_underflow (checked : Config.ofSettings o halt = .ok c) :
    (∀ A s s' w w' gamma, firstGamma c A s w = .ok (gamma, s') w' → Divides gamma) ∧
      ∀ A g x0 w vs b, Passes A g x0 c w vs b → Halved A g x0 c w vs b :=
  ⟨fun _ _ _ _ _ _ returned => (firstGamma_usable checked returned).divides,
    fun _ _ _ _ _ _ passes => passes.halved checked⟩

end Solver

/-! ## A run without a step size -/

namespace Bottom

def single : Structure := .leaf ⟨[1], .real .double⟩

/-- The identity for one number, which gives two right answers. -/
def operator : Operator Uses Float := .limited 0 2 (.ofTransform (.ofIdentity single))

def prox : Prox Uses Float := .ofRegularizer .zero

def start : Vec Float := .leaf ⟨[1], .real .double [0], rfl⟩

/-- The standard options, silent, with the least step size that they accept. -/
def options : Settings Float :=
  { Settings.standard with stepSize := .fraction least, verbosity := .whole 0 }

def world : World Uses Float := ⟨.none, #[]⟩

/-- A test of the options. -/
def passes (test : Config Uses Float → Bool) : Bool :=
  match Config.ofSettings options none with
  | .ok c => test c
  | .error _ => false

theorem config_of_passes {test : Config Uses Float → Bool} (passed : passes test = true) :
    ∃ c, Config.ofSettings options none = .ok c ∧ test c = true := by
  unfold passes at passed
  split at passed
  · next c checked => exact ⟨c, checked, passed⟩
  · cases passed

/-- Whether the run gets to its first iteration. -/
def launches (c : Config Uses Float) : Bool :=
  match Solver.launch operator prox (some start) c world, c.maxIterations.toNat with
  | .ok _ _, .ok _ => true
  | _, _ => false

/-- Whether the run ends with a division by zero. -/
def dividesByZero (c : Config Uses Float) : Bool :=
  match Solver.solve operator prox (some start) c world with
  | .error (.fault .divisionByZero) _ => true
  | _ => false

/-- The options are accepted, and the run that is launched with them has a step size that can be
divided by. -/
theorem launched_with_stepSize : ∃ c vs b, Config.ofSettings options none = .ok c ∧
    Solver.Passes operator prox (some start) c world vs b ∧
    Solver.Halved operator prox (some start) c world vs b := by
  obtain ⟨c, checked, launched⟩ := config_of_passes (show passes launches = true by decide +kernel)
  unfold launches at launched
  split at launched
  · next s w limit launch budget =>
      have first : Solver.Passes operator prox (some start) c world [] (.first limit s w) :=
        ⟨s, w, limit, launch, budget, .stay⟩
      exact ⟨c, [], _, checked, first,
        (Solver.stepSize_until_underflow checked).2 _ _ _ _ _ _ first⟩
  · cases launched

/-- The operator is spoilt, and the run owes that a failure of finiteness.  It ends with a
division by zero, though the options are accepted. -/
theorem vanishes : ∃ c w', Config.ofSettings options none = .ok c ∧
    Solver.solve operator prox (some start) c world = .error (.fault .divisionByZero) w' := by
  obtain ⟨c, checked, ends⟩ :=
    config_of_passes (show passes dividesByZero = true by decide +kernel)
  unfold dividesByZero at ends
  split at ends
  · next w' solved => exact ⟨c, w', checked, solved⟩
  · cases ends

end Bottom

end ForwardBackward
