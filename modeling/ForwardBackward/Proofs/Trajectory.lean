/-
# ForwardBackward.Proofs.Trajectory -- options that only choose where a run is cut

Of the options, the tolerance and the limit are read by nobody but the loop, which
stops by them, and the verbosity and the period of the reports by nobody but who
writes notes.  Two runs whose other options are the same (`Config.Kindred`) and that
ask the standard predicate have one trajectory in common (`Solver.trajectory`,
`Solver.trajectory_echoes`): the states that follow one another as long as nobody
stops the run.  Where a run returns, it has been cut out of its trajectory
(`Solver.cut_of_returns`), and where a cut is due, the run returns
(`Solver.Cut.returns`).

What two runs do is compared up to their notes (`Run.Echoes`).  A larger tolerance
stops a run no later because residual norms are not negative (`Monotone`).
-/
import ForwardBackward.Proofs.Attribution
import ForwardBackward.Proofs.Dialogue
import ForwardBackward.Proofs.Multiples
import ForwardBackward.Proofs.Reported

namespace ForwardBackward

set_option autoImplicit false

variable {σ R α β : Type}

/-! ## Runs up to their notes -/

section Outcomes

variable {ε τ : Type} {π : τ → σ} {out : EStateM.Result ε τ α}

theorem outcomeUnder_ok {a : α} {w : σ} :
    outcomeUnder π out = .ok a w ↔ ∃ w', out = .ok a w' ∧ π w' = w := by
  cases out <;> simp [outcomeUnder]

theorem outcomeUnder_error {e : ε} {w : σ} :
    outcomeUnder π out = .error e w ↔ ∃ w', out = .error e w' ∧ π w' = w := by
  cases out <;> simp [outcomeUnder]

end Outcomes

namespace Run

/-- Two parts of runs do the same from the same environment, whatever they tell. -/
def Echoes (m m' : Run σ R α) : Prop :=
  ∀ w w', w'.env = w.env → outcomeUnder World.env (m' w') = outcomeUnder World.env (m w)

/-- A part of a run that does nothing but tell. -/
def Tells (m : Run σ R Unit) : Prop := ∀ w, ∃ w', m w = .ok () w' ∧ w'.env = w.env

namespace Echoes

protected theorem pure (a : α) : Echoes (pure a : Run σ R α) (pure a) :=
  fun _ _ same => congrArg (EStateM.Result.ok a) same

protected theorem throw (e : Failure R) : Echoes (throw e : Run σ R α) (throw e) :=
  fun _ _ same => congrArg (EStateM.Result.error e) same

protected theorem bind {m m' : Run σ R α} {f f' : α → Run σ R β} (first : Echoes m m')
    (rest : ∀ a, Echoes (f a) (f' a)) : Echoes (m >>= f) (m' >>= f') := by
  intro w w' same
  have agree := first w w' same
  cases made : m w with
  | ok a w₁ =>
      rw [made] at agree
      obtain ⟨w₁', made', same₁⟩ := outcomeUnder_ok.mp agree
      rw [bind_of_returns made, bind_of_returns made']
      exact rest a w₁ w₁' same₁
  | error e w₁ =>
      rw [made] at agree
      obtain ⟨w₁', made', same₁⟩ := outcomeUnder_error.mp agree
      rw [bind_of_fails made, bind_of_fails made']
      exact congrArg (EStateM.Result.error e) same₁

protected theorem ite {p : Prop} [Decidable p] {m m' n n' : Run σ R α} (yes : Echoes m m')
    (no : Echoes n n') : Echoes (if p then m else n) (if p then m' else n') := by
  split
  · exact yes
  · exact no

theorem call (c : Call σ α) : Echoes (Run.call c : Run σ R α) (Run.call c) := by
  intro w w' same
  unfold Run.call
  rw [same]
  cases c w.env with
  | ok a env => rfl
  | error e env => rfl

theorem refuse (x : Except Fault α) : Echoes (Run.refuse x : Run σ R α) (Run.refuse x) := by
  cases x with
  | ok a => exact .pure a
  | error e => exact .throw (.fault e)

theorem tells {m m' : Run σ R Unit} (one : Tells m) (other : Tells m') : Echoes m m' := by
  intro w w' same
  obtain ⟨w₁, told, kept⟩ := one w
  obtain ⟨w₁', told', kept'⟩ := other w'
  rw [told, told']
  exact congrArg (EStateM.Result.ok ()) ((kept'.trans same).trans kept.symm)

/-- A note before a part of a run, or none. -/
theorem noted {p p' : Prop} [Decidable p] [Decidable p'] {m m' : Run σ R α} (n n' : Note R)
    (echoes : Echoes m m') :
    Echoes (if p then do note n; m else m) (if p' then do note n'; m' else m') := by
  intro w w' same
  split <;> split <;> exact echoes _ _ same

/-- What one part of a run does, the other does. -/
theorem returns {m m' : Run σ R α} (echoes : Echoes m m') {a : α} {w w' w₁ : World σ R}
    (same : w'.env = w.env) (returned : m w = .ok a w₁) :
    ∃ w₁', m' w' = .ok a w₁' ∧ w₁'.env = w₁.env := by
  have agree := echoes w w' same
  rw [returned] at agree
  exact outcomeUnder_ok.mp agree

end Echoes

end Run

variable [Scalar R]

/-- Options that differ in nothing but the tolerance, the limit, the predicate and what is
reported. -/
structure Config.Kindred (c c' : Config σ R) : Prop where
  stepSize : c'.stepSize = c.stepSize
  searchesGamma : c'.searchesGamma = c.searchesGamma
  searchBudget : c'.searchBudget.toNat = c.searchBudget.toNat
  memory : c'.memory.slots = c.memory.slots

theorem State.certify_echoes (s : State R) (what : Monitored) (finite : Bool) :
    Run.Echoes (s.certify what finite : Run σ R (State R)) (s.certify what finite) :=
  .ite (.pure _) (.throw _)

namespace Solver

open Run.Echoes

section Parts

variable (c c' : Config σ R) (A : Operator σ R) (g : Prox σ R) (s : State R)

theorem report_tells : Run.Tells (report c s) := by
  intro w
  obtain ⟨w', told⟩ := report_returns c s w
  exact ⟨w', told, report_env told⟩

theorem reportExhausted_tells (found : Bool) (n : Note R) :
    Run.Tells (reportExhausted c found n) := by
  intro w
  obtain ⟨w', told⟩ := reportExhausted_returns c w found n
  exact ⟨w', told, reportExhausted_env told⟩

theorem conclude_tells (status : Status) : Run.Tells (conclude c status s) := by
  intro w
  obtain ⟨w', told⟩ := conclude_returns c s w status
  exact ⟨w', told, conclude_env told⟩

theorem reportExhausted_echoes (found : Bool) (n : Note R) :
    Run.Echoes (reportExhausted c found n) (reportExhausted c' found n) :=
  tells (reportExhausted_tells c found n) (reportExhausted_tells c' found n)

theorem settle_echoes : Run.Echoes (settle c s) (settle c' s) :=
  .bind (s.record.certify_echoes _ _) fun s =>
    .bind (tells (report_tells c s) (report_tells c' s)) fun _ => .pure s

theorem estimateGamma_echoes (verbosity verbosity' : Verbosity) :
    Run.Echoes (s.estimateGamma A verbosity) (s.estimateGamma A verbosity') :=
  .bind (call _) fun _ => .bind (refuse _) fun _ => .ite (.pure _) (noted _ _ (.pure _))

variable {c c'} (kindred : c.Kindred c')
include kindred

theorem searchGamma_echoes : Run.Echoes (searchGamma c A g s) (searchGamma c' A g s) := by
  unfold searchGamma State.gammaSearch
  rw [kindred.searchesGamma, kindred.searchBudget]
  exact .ite (.bind (call _) fun _ => .bind (reportExhausted_echoes c c' _ _) fun _ => .pure _)
    (.pure _)

theorem searchTau_echoes : Run.Echoes (searchTau c A g s) (searchTau c' A g s) := by
  unfold searchTau State.tauSearch
  rw [kindred.searchBudget]
  exact .bind (refuse _) fun _ => .bind (call _) fun _ =>
    .bind (reportExhausted_echoes c c' _ _) fun _ => .pure _

theorem iterate_echoes : Run.Echoes (iterate c A g s) (iterate c' A g s) :=
  .bind (call _) fun s =>
  .bind (searchGamma_echoes A g s kindred) fun s =>
  .bind (settle_echoes c c' s) fun _ =>
  .bind (call _) fun s =>
  .bind (searchTau_echoes A g s kindred) fun s => s.certify_echoes _ _

theorem firstGamma_echoes : Run.Echoes (firstGamma c A s) (firstGamma c' A s) := by
  unfold firstGamma
  rw [kindred.stepSize]
  cases c.stepSize with
  | some gamma => exact .pure _
  | none => exact estimateGamma_echoes A s _ _

theorem begin_echoes : Run.Echoes (begin c A g s) (begin c' A g s) :=
  .bind (call _) fun s =>
  .bind (s.certify_echoes _ _) fun s =>
  .bind (firstGamma_echoes A s kindred) fun _ =>
  .bind (refuse _) fun _ =>
  .bind (call _) fun _ => State.certify_echoes _ _ _

theorem launch_echoes (x0 : Option (Vec R)) :
    Run.Echoes (launch A g x0 c) (launch A g x0 c') := by
  unfold launch
  rw [kindred.memory]
  exact .bind (refuse _) fun _ => .bind (refuse _) fun _ =>
    noted _ _ (begin_echoes A g _ kindred)

end Parts

/-! ## Trajectories and their cuts -/

/-- The state after `k` iterations, of a run that nobody stops. -/
def trajectory (A : Operator σ R) (g : Prox σ R) (x0 : Option (Vec R)) (c : Config σ R) :
    Nat → Run σ R (State R)
  | 0 => launch A g x0 c
  | k + 1 => do iterate c A g (← trajectory A g x0 c k)

/-- Kindred options have one trajectory. -/
theorem trajectory_echoes {c c' : Config σ R} (kindred : c.Kindred c') (A : Operator σ R)
    (g : Prox σ R) (x0 : Option (Vec R)) (k : Nat) :
    Run.Echoes (trajectory A g x0 c k) (trajectory A g x0 c' k) := by
  induction k with
  | zero => exact launch_echoes A g kindred x0
  | succ k ih => exact .bind ih fun s => iterate_echoes A g s kindred

section Cuts

variable {c c' : Config σ R} {A : Operator σ R} {g : Prox σ R} {x0 : Option (Vec R)}
  {s t : State R} {w w' w₁ w₂ : World σ R} {limit j k : Nat}

theorem trajectory_before (reached : trajectory A g x0 c k w = .ok t w₁) (before : j ≤ k) :
    ∃ u w₂, trajectory A g x0 c j w = .ok u w₂ := by
  induction k generalizing t w₁ with
  | zero =>
      cases Nat.le_zero.mp before
      exact ⟨t, w₁, reached⟩
  | succ k ih =>
      rcases Nat.lt_or_eq_of_le before with earlier | rfl
      · obtain ⟨u, w₂, reached', _⟩ := bind_returns.mp reached
        exact ih reached' (Nat.le_of_lt_succ earlier)
      · exact ⟨t, w₁, reached⟩

/-- The standard predicate halts the run. -/
def halts (c : Config σ R) (s : State R) : Bool := s.isBelow c.tolerance s.firstResidual

theorem consult_standard (standard : c.halt = none) (s : State R) (w : World σ R) :
    consult c s w = .ok (halts c s) w := by
  have told : c.predicate.judge c.tolerance s w.env = (.decided (halts c s), w.env) := by
    rw [Config.predicate, standard]
    rfl
  exact consult_of_decided told

/-- The run of `c` gets through `k` iterations, and then it is in the state `t`. -/
structure Runs (A : Operator σ R) (g : Prox σ R) (x0 : Option (Vec R)) (c : Config σ R)
    (w : World σ R) (limit k : Nat) (t : State R) (w₁ : World σ R) : Prop where
  reached : trajectory A g x0 c k w = .ok t w₁
  within : k ≤ limit
  /-- Nobody has stopped it before. -/
  goes : ∀ j < k, ∀ u w₂, trajectory A g x0 c j w = .ok u w₂ → halts c u = false

/-- The run of `c` is cut out of its trajectory after `k` iterations. -/
structure Cut (A : Operator σ R) (g : Prox σ R) (x0 : Option (Vec R)) (c : Config σ R)
    (w : World σ R) (limit k : Nat) (t : State R) (w₁ : World σ R) : Prop
    extends Runs A g x0 c w limit k t w₁ where
  stops : k = limit ∨ halts c t = true

/-- The status of a run that is cut after `k` iterations. -/
def statusAt (limit k : Nat) : Status := if k = limit then .iterationsSpent else .converged

theorem Runs.passes (standard : c.halt = none) (budget : c.maxIterations.toNat = .ok limit)
    (runs : Runs A g x0 c w limit k t w₁) :
    ∃ vs, Passes A g x0 c w vs ⟨.resting, limit - k, t, w₁⟩ := by
  induction k generalizing t w₁ with
  | zero => exact ⟨_, t, w₁, limit, runs.reached, budget, .stay⟩
  | succ k ih =>
      obtain ⟨s, w₂, reached, iterated⟩ := bind_returns.mp runs.reached
      obtain ⟨vs, passes⟩ := ih ⟨reached, Nat.le_of_succ_le runs.within,
        fun j before => runs.goes j (Nat.lt_succ_of_lt before)⟩
      have goes : consult c s w₂ = .ok false w₂ := by
        rw [consult_standard standard, runs.goes k (Nat.lt_succ_self k) s w₂ reached]
      have left : limit - k = limit - (k + 1) + 1 := by
        have within := runs.within
        omega
      rw [left] at passes
      obtain ⟨us, course⟩ := iterate_course goes iterated
      exact ⟨_, passes.trans course⟩

theorem Runs.iteration_eq (standard : c.halt = none) (budget : c.maxIterations.toNat = .ok limit)
    (runs : Runs A g x0 c w limit k t w₁) : t.iteration = k := by
  obtain ⟨vs, passes⟩ := runs.passes standard budget
  have left : t.iteration + (limit - k) = limit := passes.left_eq budget
  have within := runs.within
  omega

/-- Where a cut is due, the run returns. -/
theorem Cut.returns (standard : c.halt = none) (budget : c.maxIterations.toNat = .ok limit)
    (cut : Cut A g x0 c w limit k t w₁) :
    ∃ w', solve A g x0 c w = .ok (t.result (statusAt limit k)) w' := by
  obtain ⟨vs, passes⟩ := cut.toRuns.passes standard budget
  have looped : loop c A g (limit - k) t w₁ = .ok (statusAt limit k, t) w₁ := by
    rcases Nat.lt_or_eq_of_le cut.within with early | rfl
    · have left : limit - k = limit - (k + 1) + 1 := by omega
      have halted := cut.stops.resolve_left early.ne
      rw [left, loop, bind_of_returns (consult_standard standard t w₁), halted, statusAt,
        if_neg early.ne]
      rfl
    · rw [Nat.sub_self, statusAt, if_pos rfl]
      rfl
  obtain ⟨w', told⟩ := conclude_returns c t w₁ (statusAt limit k)
  refine ⟨w', passes.solve_eq.trans ?_⟩
  exact bind_returns.mpr ⟨_, _, looped, bind_returns.mpr ⟨(), w', told, rfl⟩⟩

/-- A loop that returns cuts the trajectory. -/
theorem Runs.cut_of_loop (standard : c.halt = none) {left : Nat} {status : Status}
    (runs : Runs A g x0 c w limit k t w₁) (rest : k + left = limit)
    (looped : loop c A g left t w₁ = .ok (status, s) w₂) :
    ∃ k' w₃, Cut A g x0 c w limit k' s w₃ ∧ status = statusAt limit k' := by
  induction left generalizing k t w₁ with
  | zero =>
      cases looped
      obtain rfl : k = limit := rest
      exact ⟨k, _, ⟨runs, .inl rfl⟩, (if_pos rfl).symm⟩
  | succ left ih =>
      rw [loop, bind_of_returns (consult_standard standard t w₁)] at looped
      cases halted : halts c t with
      | true =>
          rw [halted] at looped
          cases looped
          exact ⟨k, _, ⟨runs, .inr halted⟩, (if_neg (by omega)).symm⟩
      | false =>
          simp only [halted, Bool.false_eq_true, if_false] at looped
          obtain ⟨t', w₁', iterated, looped⟩ := bind_returns.mp looped
          have reached : trajectory A g x0 c (k + 1) w = .ok t' w₁' :=
            bind_returns.mpr ⟨t, w₁, runs.reached, iterated⟩
          refine ih ⟨reached, by omega, ?_⟩ (by omega) looped
          intro j before u w₃ there
          rcases Nat.lt_or_eq_of_le (Nat.le_of_lt_succ before) with earlier | rfl
          · exact runs.goes j earlier u w₃ there
          · cases there.symm.trans runs.reached
            exact halted

/-- Where a run returns, it has been cut out of its trajectory. -/
theorem cut_of_returns (standard : c.halt = none) {r : Result R}
    (returned : solve A g x0 c w = .ok r w') :
    ∃ limit k t w₁, c.maxIterations.toNat = .ok limit ∧ Cut A g x0 c w limit k t w₁ ∧
      r = t.result (statusAt limit k) := by
  simp only [solve, bind_returns, pure_returns, Run.lift_refuse, Run.refuse_returns] at returned
  obtain ⟨s, _, launched, limit, _, ⟨budget, rfl⟩, ⟨status, t⟩, w₂, looped, _, _, _, rfl, _⟩ :=
    returned
  have runs : Runs A g x0 c w limit 0 s _ := ⟨launched, limit.zero_le, fun i below => absurd below i.not_lt_zero⟩
  obtain ⟨k, w₁, cut, status_eq⟩ := runs.cut_of_loop standard limit.zero_add looped
  exact ⟨limit, k, t, w₁, budget, cut, congrArg t.result status_eq⟩

end Cuts

end Solver

/-! ## Norms and multiples of norms -/

/-- The rules of arithmetic behind the standard predicate: norms are not negative, and a multiple
of what is not negative grows with the factor.  The real numbers with infinities and a not-a-number
obey them (`Exact.scaling`), and so does binary floating point as it runs (`Double.scaling`). -/
class Scaling (R : Type) [Scalar R] : Prop where
  sqrt_unsigned {x : R} : Scalar.lt (Scalar.sqrt x) 0 = false
  round_unsigned {p : Precision} {x : R} :
    Scalar.lt x 0 = false → Scalar.lt (Scalar.round p x) 0 = false
  normal_unsigned {p : Precision} {x : R} :
    Scalar.lt x 0 = false → Scalar.lt (Scalar.normal p x) 0 = false
  undefined_unsigned : Scalar.lt (Scalar.undefined : R) 0 = false
  mul_le {x t t' norm : R} : Scalar.lt 0 t = true → Scalar.le t t' = true →
    Scalar.isFinite t' = true → Scalar.lt norm 0 = false → Scalar.le x (t * norm) = true →
    Scalar.le x (t' * norm) = true

namespace Exact

theorem sqrt_unsigned (x : Exact) : Scalar.lt (Scalar.sqrt x) 0 = false := by
  cases x with
  | real x =>
      by_cases negative : x < 0
      · rw [show Scalar.sqrt (real x) = undefined from if_pos negative]
        rfl
      · rw [sqrt_real x (not_lt.mp negative), zero_eq, Bool.eq_false_iff, ne_eq, lt_real, not_lt]
        exact Real.sqrt_nonneg x
  | infinite s =>
      cases s with
      | false =>
          change decide ((⊤ : EReal) < ((0 : ℤ) : ℝ)) = false
          simp
      | true => rfl
  | undefined => rfl

theorem real_of_le {x : Exact} {a : ℝ} (positive : Scalar.lt 0 x = true)
    (le : Scalar.le x (real a) = true) : ∃ b, 0 < b ∧ b ≤ a ∧ x = real b := by
  cases x with
  | real b =>
      rw [zero_eq, lt_real] at positive
      exact ⟨b, positive, (le_real b a).mp le, rfl⟩
  | infinite s =>
      cases s with
      | false =>
          change decide ((⊤ : EReal) ≤ a) = true at le
          simp at le
      | true =>
          change decide ((((0 : ℤ) : ℝ) : EReal) < ⊥) = true at positive
          simp at positive
  | undefined => cases le

theorem real_mul_top {a : ℝ} (positive : 0 < a) : real a * infinite false = infinite false := by
  change timesInfinite a false = infinite false
  rw [timesInfinite, if_neg positive.ne', decide_eq_false positive.le.not_gt]
  rfl

theorem le_real_trans {x : Exact} {a b : ℝ} (below : Scalar.le x (real a) = true) (le : a ≤ b) :
    Scalar.le x (real b) = true := by
  cases x with
  | real x => exact (le_real x b).mpr (((le_real x a).mp below).trans le)
  | infinite s =>
      cases s with
      | false =>
          change decide ((⊤ : EReal) ≤ a) = true at below
          simp at below
      | true => exact bottom_le b
  | undefined => cases below

instance scaling : Scaling Exact where
  sqrt_unsigned {x} := sqrt_unsigned x
  round_unsigned unsigned := unsigned
  normal_unsigned unsigned := unsigned
  undefined_unsigned := rfl
  mul_le {x t t' norm} positive le finite unsigned below := by
    obtain ⟨a', rfl⟩ := (isFinite_iff t').mp finite
    obtain ⟨a, above, smaller, rfl⟩ := real_of_le positive le
    cases norm with
    | real n =>
        rw [zero_eq, Bool.eq_false_iff, ne_eq, lt_real, not_lt] at unsigned
        rw [real_mul] at below ⊢
        exact le_real_trans below (mul_le_mul_of_nonneg_right smaller unsigned)
    | infinite s =>
        cases s with
        | false =>
            rw [real_mul_top above] at below
            rw [real_mul_top (above.trans_le smaller)]
            exact below
        | true =>
            change decide ((⊥ : EReal) < ((0 : ℤ) : ℝ)) = false at unsigned
            simp at unsigned
    | undefined => cases (le_mul_undefined x (real a)).symm.trans below

end Exact

section Norms

variable [Scaling R]

theorem Entries.root_unsigned (e : Entries R) : Scalar.lt e.root 0 = false := by
  have root (p : Precision) (x : R) : Scalar.lt (p.sqrt x) 0 = false :=
    Scaling.normal_unsigned (Scaling.round_unsigned Scaling.sqrt_unsigned)
  cases e with
  | whole w xs => exact Scaling.sqrt_unsigned
  | real p xs => exact root p _
  | complex p zs => exact root p _

theorem State.Forward.residual_unsigned {g : Prox σ R} {s : State R} (forward : s.Forward g) :
    Scalar.lt s.residual 0 = false := by
  obtain ⟨_, _, _, _, _, enveloped⟩ := forward
  obtain ⟨r, a, _, _, _, _, _, _, _, _, same⟩ := envelope_accepts.mp enveloped
  rw [show s.residual = a.norm from congrArg Envelope.residual same]
  exact Entries.root_unsigned _

theorem Solver.Passes.firstResidual_unsigned {A : Operator σ R} {g : Prox σ R}
    {x0 : Option (Vec R)} {c : Config σ R} {w : World σ R} {vs : List (Snapshot σ R)}
    {b : Snapshot σ R} (passes : Passes A g x0 c w vs b) :
    Scalar.lt b.state.firstResidual 0 = false := by
  obtain ⟨early, later⟩ := passes.firstResidual
  rcases Nat.lt_or_ge b.place.unsettled b.state.iteration with begun | fresh
  · obtain ⟨us, v, found, passes', _, _, same⟩ := later begun
    rw [← same]
    exact passes'.forward.residual_unsigned
  · rw [early fresh]
    exact Scaling.undefined_unsigned

end Norms

/-! ## Checked options -/

theorem Setting.tolerance_accepts {o : Setting R} {tol : R} (accepted : o.tolerance = .ok tol) :
    Scalar.lt 0 tol = true := by
  unfold Setting.tolerance at accepted
  split at accepted
  · cases accepted
  · split at accepted
    · next positive =>
        cases accepted
        exact positive
    · cases accepted

theorem Config.tolerance_accepts {o : Settings R} {halt : Option (Predicate σ R)}
    {c : Config σ R} (accepted : ofSettings o halt = .ok c) :
    Scalar.lt 0 c.tolerance = true ∧ c.halt = halt := by
  simp only [ofSettings, bind_accepts, pure_accepts] at accepted
  obtain ⟨tol, positive, _, _, _, _, _, _, _, _, _, _, _, _, _, _, rfl⟩ := accepted
  exact ⟨Setting.tolerance_accepts positive, rfl⟩

/-! ## Two runs -/

namespace Solver

section Loops

variable {c c' : Config σ R} (kindred : c.Kindred c') (standard : c.halt = none)
  (standard' : c'.halt = none) (tolerance : c'.tolerance = c.tolerance) (A : Operator σ R)
  (g : Prox σ R)
include kindred standard standard' tolerance

theorem loop_echoes (limit : Nat) (s : State R) :
    Run.Echoes (loop c A g limit s) (loop c' A g limit s) := by
  have asked (s : State R) : Run.Echoes (consult c s) (consult c' s) := by
    intro w w' same
    rw [consult_standard standard, consult_standard standard', halts, halts, tolerance]
    exact congrArg (EStateM.Result.ok _) same
  induction limit generalizing s with
  | zero => exact .pure _
  | succ limit ih =>
      exact .bind (asked s) fun halt => .ite (.pure _)
        (.bind (iterate_echoes A g s kindred) fun s => ih s)

/-- What a run reports, and how often, is all that these options decide. -/
theorem solve_echoes (budget : c'.maxIterations.toNat = c.maxIterations.toNat)
    (x0 : Option (Vec R)) : Run.Echoes (solve A g x0 c) (solve A g x0 c') := by
  unfold solve
  rw [budget]
  exact .bind (launch_echoes A g kindred x0) fun s =>
    .bind (Run.Echoes.refuse _) fun limit =>
    .bind (loop_echoes kindred standard standard' tolerance A g limit s) fun _ =>
    .bind (Run.Echoes.tells (conclude_tells c _ _) (conclude_tells c' _ _)) fun _ => .pure _

end Loops

section Pairs

variable {c c' : Config σ R} {A : Operator σ R} {g : Prox σ R} {x0 : Option (Vec R)}
  {t t' : State R} {w w' w₁ w₁' : World σ R} {limit limit' j k : Nat}

/-- What the one run gets to, the other gets to where nobody stops it. -/
theorem Runs.kindred (kindred : c.Kindred c') (same : w'.env = w.env)
    (runs : Runs A g x0 c w limit k t w₁) (within : k ≤ limit')
    (goes : ∀ j < k, ∀ u w₂, trajectory A g x0 c' j w' = .ok u w₂ → halts c' u = false) :
    ∃ w₂, Runs A g x0 c' w' limit' k t w₂ := by
  obtain ⟨w₂, reached, _⟩ := (trajectory_echoes kindred A g x0 k).returns same runs.reached
  exact ⟨w₂, reached, within, goes⟩

/-- Before a cut, the predicate of the same tolerance does not stop the other run either. -/
theorem Runs.goes_kindred (kindred : c.Kindred c') (tolerance : c'.tolerance = c.tolerance)
    (same : w'.env = w.env) (runs : Runs A g x0 c w limit k t w₁) :
    ∀ j < k, ∀ u w₂, trajectory A g x0 c' j w' = .ok u w₂ → halts c' u = false := by
  intro j before u w₂ there
  obtain ⟨v, w₃, reached⟩ := trajectory_before runs.reached before.le
  obtain ⟨w₄, there', _⟩ := (trajectory_echoes kindred A g x0 j).returns same reached
  cases there'.symm.trans there
  rw [halts, tolerance]
  exact runs.goes j before _ w₃ reached

/-- With the same tolerance, a run that has converged converges within any larger limit. -/
theorem Cut.raised (kindred : c.Kindred c') (tolerance : c'.tolerance = c.tolerance)
    (same : w'.env = w.env) (cut : Cut A g x0 c w limit k t w₁) (early : k < limit)
    (raised : limit ≤ limit') : ∃ w₂, Cut A g x0 c' w' limit' k t w₂ := by
  obtain ⟨w₂, runs⟩ := cut.toRuns.kindred kindred same (cut.within.trans raised)
    (cut.toRuns.goes_kindred kindred tolerance same)
  refine ⟨w₂, runs, .inr ?_⟩
  rw [halts, tolerance]
  exact cut.stops.resolve_left early.ne

/-- With a larger tolerance a cut is due no later. -/
theorem Cut.relaxed [Scaling R] (kindred : c.Kindred c') (standard : c.halt = none)
    (budget : c.maxIterations.toNat = .ok limit) (same : w'.env = w.env)
    (positive : Scalar.lt 0 c.tolerance = true)
    (larger : Scalar.le c.tolerance c'.tolerance = true)
    (finite : Scalar.isFinite c'.tolerance = true) (cut : Cut A g x0 c w limit k t w₁) :
    ∃ j ≤ k, ∃ u w₂, Cut A g x0 c' w' limit j u w₂ := by
  classical
  obtain ⟨w₂, reached, _⟩ := (trajectory_echoes kindred A g x0 k).returns same cut.reached
  let Due (j : Nat) : Prop :=
    j = k ∨ ∃ u w₃, trajectory A g x0 c' j w' = .ok u w₃ ∧ halts c' u = true
  have due : ∃ j, Due j := ⟨k, .inl rfl⟩
  have first : Nat.find due ≤ k := Nat.find_min' due (.inl rfl)
  obtain ⟨u, w₃, there⟩ := trajectory_before reached first
  refine ⟨Nat.find due, first, u, w₃, ⟨there, first.trans cut.within, ?_⟩, ?_⟩
  · intro j before v w₄ passed
    by_contra halted
    exact Nat.find_min due before (.inr ⟨v, w₄, passed, Bool.of_not_eq_false halted⟩)
  · rcases Nat.find_spec due with last | ⟨_, _, there', halted⟩
    · rw [last] at there ⊢
      cases there.symm.trans reached
      refine cut.stops.imp_right fun halted => ?_
      obtain ⟨vs, passes⟩ := cut.toRuns.passes standard budget
      exact Scaling.mul_le positive larger finite passes.firstResidual_unsigned halted
    · cases there.symm.trans there'
      exact .inr halted

end Pairs

/-- Two runs from one environment that differ in nothing but the tolerance, the limit and what is
reported. -/
structure OneTrajectory (A : Operator σ R) (g : Prox σ R) (x0 : Option (Vec R))
    (c c' : Config σ R) (w w' : World σ R) : Prop where
  /-- The result of the shorter run is the state in which the longer one, after as many iterations,
  asked its predicate and went on. -/
  shorter : ∀ {r r' : Result R} {u u' : World σ R}, solve A g x0 c w = .ok r u →
    solve A g x0 c' w' = .ok r' u' → r.iterations < r'.iterations →
    ∃ vs b, Passes A g x0 c' w' vs b ∧ b.place = .resting ∧ 0 < b.left ∧
      consult c' b.state b.world = .ok false b.world ∧ r = b.state.result r.status
  /-- Runs of one length have one result, but for the status. -/
  equal : ∀ {r r' : Result R} {u u' : World σ R}, solve A g x0 c w = .ok r u →
    solve A g x0 c' w' = .ok r' u' → r.iterations = r'.iterations →
    r = { r' with status := r.status }
  /-- What is reported changes neither the result nor the failure. -/
  reports : c'.tolerance = c.tolerance → c'.maxIterations.toNat = c.maxIterations.toNat →
    outcomeUnder World.env (solve A g x0 c' w') = outcomeUnder World.env (solve A g x0 c w)
  /-- A larger limit does not change the result of a run that has converged. -/
  limits : c'.tolerance = c.tolerance → ∀ {limit limit' : Nat} {r : Result R} {u : World σ R},
    c.maxIterations.toNat = .ok limit → c'.maxIterations.toNat = .ok limit' → limit ≤ limit' →
    solve A g x0 c w = .ok r u → r.status = .converged → ∃ u', solve A g x0 c' w' = .ok r u'
  /-- With a larger tolerance a run returns that returned with the smaller one, and it does no more
  iterations. -/
  tolerances : Scalar.le c.tolerance c'.tolerance = true →
    Scalar.isFinite c.tolerance = true → Scalar.isFinite c'.tolerance = true →
    c'.maxIterations.toNat = c.maxIterations.toNat →
    ∀ {r : Result R} {u : World σ R}, solve A g x0 c w = .ok r u →
    ∃ r' u', solve A g x0 c' w' = .ok r' u' ∧ r'.iterations ≤ r.iterations

/-- Whatever the operator, the proximal step and the starting point are, the tolerance and the
limit of checked options choose where a run is cut, and what is reported chooses nothing. -/
theorem one_trajectory [Scaling R] {A : Operator σ R} {g : Prox σ R} {x0 : Option (Vec R)}
    {o o' : Settings R} {c c' : Config σ R} (checked : Config.ofSettings o none = .ok c)
    (checked' : Config.ofSettings o' none = .ok c') (kindred : c.Kindred c') {w w' : World σ R}
    (same : w'.env = w.env) : OneTrajectory A g x0 c c' w w' := by
  obtain ⟨positive, standard⟩ := Config.tolerance_accepts checked
  obtain ⟨_, standard'⟩ := Config.tolerance_accepts checked'
  refine ⟨?shorter, ?equal, ?reports, ?limits, ?tolerances⟩
  case shorter =>
    intro r r' u u' returned returned' fewer
    obtain ⟨limit, k, t, w₁, budget, cut, rfl⟩ := cut_of_returns standard returned
    obtain ⟨limit', k', t', w₁', budget', cut', rfl⟩ := cut_of_returns standard' returned'
    have before : k < k' := by
      rw [← cut.toRuns.iteration_eq standard budget, ← cut'.toRuns.iteration_eq standard' budget']
      exact fewer
    have early : k < limit' := before.trans_le cut'.within
    obtain ⟨w₂, runs⟩ := cut.toRuns.kindred kindred same early.le
      fun j earlier => cut'.goes j (earlier.trans before)
    obtain ⟨vs, passes⟩ := runs.passes standard' budget'
    refine ⟨vs, _, passes, rfl, Nat.sub_pos_of_lt early, ?_, rfl⟩
    rw [consult_standard standard', cut'.goes k before t w₂ runs.reached]
  case equal =>
    intro r r' u u' returned returned' equal
    obtain ⟨limit, k, t, w₁, budget, cut, rfl⟩ := cut_of_returns standard returned
    obtain ⟨limit', k', t', w₁', budget', cut', rfl⟩ := cut_of_returns standard' returned'
    obtain rfl : k = k' := by
      rw [← cut.toRuns.iteration_eq standard budget, ← cut'.toRuns.iteration_eq standard' budget']
      exact equal
    obtain ⟨w₂, reached, _⟩ := (trajectory_echoes kindred A g x0 k).returns same cut.reached
    cases reached.symm.trans cut'.reached
    rfl
  case reports =>
    intro tolerance budget
    exact solve_echoes kindred standard standard' tolerance A g budget x0 w w' same
  case limits =>
    intro tolerance limit limit' r u budget budget' raised returned converged
    obtain ⟨_, k, t, w₁, budget₁, cut, rfl⟩ := cut_of_returns standard returned
    cases budget.symm.trans budget₁
    have early : k < limit := by
      refine lt_of_le_of_ne cut.within fun last => ?_
      rw [last] at converged
      cases (if_pos rfl).symm.trans converged
    obtain ⟨w₂, cut'⟩ := cut.raised kindred tolerance same early raised
    have status : statusAt limit k = statusAt limit' k :=
      (if_neg early.ne).trans (if_neg (early.trans_le raised).ne).symm
    rw [status]
    exact cut'.returns standard' budget'
  case tolerances =>
    intro larger _ finite budget r u returned
    obtain ⟨limit, k, t, w₁, budget₁, cut, rfl⟩ := cut_of_returns standard returned
    have budget' := budget.trans budget₁
    obtain ⟨j, before, u', w₂, cut'⟩ :=
      cut.relaxed kindred standard budget₁ same positive larger finite
    obtain ⟨w₃, returned'⟩ := cut'.returns standard' budget'
    refine ⟨_, w₃, returned', ?_⟩
    rw [← cut.toRuns.iteration_eq standard budget₁,
      ← cut'.toRuns.iteration_eq standard' budget'] at before
    exact before

end Solver

/-! ## Two runs of a plain problem -/

namespace Plain

/-- The standard predicate, and other options to stop and to report by. -/
noncomputable def stopping (ε : ℝ) (limit : ℕ) (v : Verbosity) : Config Unit Exact :=
  { config (1 / 2) with
    tolerance := .real ε, maxIterations := .whole limit, verbosity := v, halt := none }

noncomputable def stoppingSettings (ε : ℝ) (limit : ℕ) (v : Verbosity) : Settings Exact :=
  { Settings.standard with
    tolerance := .fraction (.real ε), maxIterations := .whole limit, memory := .whole 0
    verbosity := .whole v.level, stepSize := .fraction (.real (1 / 2)) }

variable {ε : ℝ} (limit : ℕ) (v : Verbosity)

theorem stopping_accepted (positive : 0 < ε) :
    Config.ofSettings (stoppingSettings ε limit v) none = .ok (stopping ε limit v) := by
  have counted : (Setting.whole (R := Exact) limit).count 0 .negativeIterations =
      .ok (.whole limit) := by
    rw [Setting.count, if_neg (by omega), Int.toNat_natCast]
  unfold Config.ofSettings stoppingSettings
  rw [Setting.tolerance_of_positive positive, Setting.stepSize_of_positive one_half_pos, counted]
  cases v <;> rfl

theorem stopping_returns (positive : 0 < ε) :
    ∃ r w', Solver.solve operator prox (some start) (stopping ε limit v) world = .ok r w' := by
  have served : Solver.Served operator prox (stopping ε limit v) 32 :=
    { Plain.served (1 / 2) with decides := fun _ _ env => ⟨_, env, rfl⟩ }
  exact Solver.returns meaning served ⟨_, none, stopping_accepted limit v positive⟩ rfl rfl rfl
    start_finite start_accepted world

/-- Behind `n` iterations the residual norm is `4 ^ -n` times the first one, and this is what the
standard predicate compares with its tolerance. -/
theorem stopping_halts_iff (positive : 0 < ε) {vs : List (Snapshot Unit Exact)}
    {b : Snapshot Unit Exact}
    (passes : Solver.Passes operator prox (some start) (stopping ε limit v) world vs b)
    (resting : b.place = .resting) (begun : b.state.iteration ≠ 0) :
    Solver.halts (stopping ε limit v) b.state = true ↔ (1 / 4) ^ b.state.iteration ≤ ε := by
  have checked : (stopping ε limit v).Checked := ⟨_, none, stopping_accepted limit v positive⟩
  -- A step of the size `1 / 2` from `x` has the residual `x / 2`.
  have residual {b : Snapshot Unit Exact} (glides : b.Glides meaning (1 / 2)) :
      b.state.residual = .real ‖(1 / 2 : ℝ) • b.state.x.point pair‖ := by
    obtain ⟨sound, _⟩ := glides.kept.sound glides.sized
    have norm : b.state.residual = .real ‖b.state.r.point pair‖ := sound.stepped.norm
    rw [norm, residual_of_stepped sound.evaluated sound.stepped]
  obtain ⟨glides, here⟩ := slides_of_passes checked rfl rfl passes
  obtain ⟨us, a, found, passes', measured, one, first⟩ := passes.firstResidual.2 (by
    rw [resting]
    exact Nat.pos_of_ne_zero begun)
  obtain ⟨glides', there⟩ := slides_of_passes checked rfl rfl passes'
  rw [resting] at here
  rw [measured] at there
  have x : b.state.x.point pair = ((1 / 2) ^ (2 * b.state.iteration) : ℝ) • start.point pair :=
    here.1
  have x' : a.state.x.point pair =
      (2 * 2 * (1 / 2) ^ (2 * a.state.iteration) : ℝ) • start.point pair := there
  have length (a : ℝ) (nonneg : 0 ≤ a) :
      ‖(1 / 2 : ℝ) • a • start.point pair‖ = a * (1 / 2 * ‖start.point pair‖) := by
    rw [smul_comm, norm_smul, norm_smul, Real.norm_of_nonneg nonneg,
      Real.norm_of_nonneg one_half_pos.le]
  have positive' : 0 < 1 / 2 * ‖start.point pair‖ :=
    mul_pos one_half_pos (norm_pos_iff.mpr start_ne_zero)
  change Scalar.le b.state.residual (Exact.real ε * b.state.firstResidual) = true ↔ _
  rw [← first, residual glides, residual glides', x, x', one,
    show (2 * 2 * (1 / 2) ^ (2 * 1) : ℝ) = 1 by norm_num, length _ (by positivity),
    length _ zero_le_one, one_mul, Exact.real_mul, Exact.le_real,
    mul_le_mul_iff_of_pos_right positive', pow_mul, show (1 / 2 : ℝ) ^ 2 = 1 / 4 by norm_num]

/-- With a tolerance that is not met before, a run goes on to its limit. -/
theorem stopping_iterations (positive : 0 < ε) {n : ℕ} (small : ε < (1 / 4) ^ n)
    {r : Result Exact} {w' : World Unit Exact}
    (returned : Solver.solve operator prox (some start) (stopping ε (n + 1) v) world = .ok r w') :
    r.iterations = n + 1 := by
  obtain ⟨_, k, t, w₁, budget, cut, rfl⟩ := Solver.cut_of_returns rfl returned
  cases budget
  have same : t.iteration = k := cut.toRuns.iteration_eq rfl rfl
  refine same.trans (by_contra fun early => ?_)
  have halted := cut.stops.resolve_left early
  by_cases zero : k = 0
  · -- The first question does not stop a run.
    subst zero
    rw [Solver.halts, State.isBelow, Solver.launch_firstResidual cut.reached] at halted
    cases (Exact.le_mul_undefined _ _).symm.trans halted
  · obtain ⟨vs, passes⟩ := cut.toRuns.passes rfl rfl
    have below : (1 / 4) ^ t.iteration ≤ ε :=
      (stopping_halts_iff (n + 1) v positive passes rfl (same ▸ zero)).mp halted
    have before : t.iteration ≤ n := by
      have within := cut.within
      omega
    exact absurd (below.trans_lt small) (not_lt.mpr
      (pow_le_pow_of_le_one (by norm_num) (by norm_num) before))

end Plain

/-- Two runs of the plain problem, the one of one iteration, the other of two. -/
theorem Solver.plain_one_trajectory :
    Config.ofSettings (Plain.stoppingSettings (1 / 16) 1 .off) none =
      .ok (Plain.stopping (1 / 16) 1 .off) ∧
    Config.ofSettings (Plain.stoppingSettings (1 / 8) 2 .everyIteration) none =
      .ok (Plain.stopping (1 / 8) 2 .everyIteration) ∧
    (Plain.stopping (1 / 16) 1 .off).Kindred (Plain.stopping (1 / 8) 2 .everyIteration) ∧
    (∃ r r' u u',
      solve Plain.operator Plain.prox (some Plain.start) (Plain.stopping (1 / 16) 1 .off)
        Plain.world = .ok r u ∧
      solve Plain.operator Plain.prox (some Plain.start) (Plain.stopping (1 / 8) 2 .everyIteration)
        Plain.world = .ok r' u' ∧ r.iterations = 1 ∧ r'.iterations = 2) ∧
    OneTrajectory Plain.operator Plain.prox (some Plain.start) (Plain.stopping (1 / 16) 1 .off)
      (Plain.stopping (1 / 8) 2 .everyIteration) Plain.world Plain.world := by
  have checked := Plain.stopping_accepted (ε := 1 / 16) 1 .off (by norm_num)
  have checked' := Plain.stopping_accepted (ε := 1 / 8) 2 .everyIteration (by norm_num)
  obtain ⟨r, u, returned⟩ := Plain.stopping_returns (ε := 1 / 16) 1 .off (by norm_num)
  obtain ⟨r', u', returned'⟩ :=
    Plain.stopping_returns (ε := 1 / 8) 2 .everyIteration (by norm_num)
  have one : r.iterations = 1 := Plain.stopping_iterations .off (by norm_num) (by norm_num) returned
  have two : r'.iterations = 2 := Plain.stopping_iterations .everyIteration (by norm_num) (by norm_num) returned'
  exact ⟨checked, checked', ⟨rfl, rfl, rfl, rfl⟩, ⟨r, r', u, u', returned, returned', one, two⟩,
    one_trajectory checked checked' ⟨rfl, rfl, rfl, rfl⟩ rfl⟩

end ForwardBackward
