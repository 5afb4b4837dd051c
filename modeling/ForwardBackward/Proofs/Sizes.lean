/-
# ForwardBackward.Proofs.Sizes -- the step size along a course

Only a halving changes the step size, and then the slope of the sufficient
decrease doubles: after `n` halvings they are `γ / 2 ^ n` and the slope of that
(`Course.sized`).  A search for a step size fails only after it has used up its
budget, every trial of which was a halving, so the failures of a whole run times
the budget are at most the halvings (`Course.gammaFailures_le`).

None of this needs to know what the operator or the proximal step do.
-/
import ForwardBackward.Proofs.Course
import ForwardBackward.Proofs.Exact

namespace ForwardBackward

set_option autoImplicit false

open Snapshot (halvings)

variable {σ R : Type} [Scalar R]

/-! ## Halvings and failures -/

theorem Snapshot.halvings_append (vs us : List (Snapshot σ R)) :
    halvings (vs ++ us) = halvings vs + halvings us :=
  List.countP_append

/-- What was spent, out of a budget of `n` for every search, by the searches that failed and by
the one in progress. -/
def Snapshot.spent (n : Nat) (v : Snapshot σ R) : Nat :=
  v.state.gammaFailures * n +
    match v.place with
    | .searchingGamma left => n - left
    | _ => 0

section

variable {c : Config σ R} {A : Operator σ R} {g : Prox σ R} {a b d : Snapshot σ R}
  {vs : List (Snapshot σ R)}

theorem Snapshot.halvings_single (v : Snapshot σ R) :
    halvings [v] = if v.halves then 1 else 0 := by
  simp [halvings]

/-- A search begins with its budget, and a move spends a halving at most. -/
theorem Turn.spent_le {n : Nat} (budget : c.searchBudget.toNat = .ok n)
    (within : ∀ left, b.place = .searchingGamma left → left ≤ n) (turn : Turn c b d) :
    (∀ left, d.place = .searchingGamma left → left ≤ n) ∧
      d.spent n ≤ b.spent n + halvings [b] := by
  cases turn with
  | search budget' =>
      cases budget.symm.trans budget'
      refine ⟨fun left same => by cases same; exact le_rfl, ?_⟩
      show _ * n + (n - n) ≤ _ * n + 0
      rw [Nat.sub_self]
      exact le_rfl
  | @bounded left m s w =>
      refine ⟨nofun, ?_⟩
      show s.gammaFailures * n + 0 ≤ s.gammaFailures * n + (n - m) + _
      omega
  | @halve left m s w w' _ _ _ _ _ _ _ unmet =>
      have fits : m + 1 ≤ n := within _ rfl
      have halves : (⟨.searchingGamma (m + 1), left, s, w⟩ : Snapshot σ R).halves = true := by
        simp [Snapshot.halves, unmet]
      refine ⟨fun left same => by cases same; omega, ?_⟩
      rw [Snapshot.halvings_single, if_pos halves]
      show s.gammaFailures * n + (n - m) ≤ s.gammaFailures * n + (n - (m + 1)) + 1
      omega
  | @unbounded left s w =>
      refine ⟨nofun, ?_⟩
      show (s.gammaFailures + 1) * n + 0 ≤ s.gammaFailures * n + (n - 0) + _
      rw [Nat.succ_mul]
      omega
  | skip | settle | aim | depart | accept | reject | exhaust | approve => exact ⟨nofun, le_rfl⟩

/-- The failed searches of a run, each with its whole budget, are paid for by halvings. -/
theorem Course.gammaFailures_le {n : Nat} (course : Course c A g a vs b)
    (resting : a.place = .resting) (fresh : a.state.gammaFailures = 0)
    (budget : c.searchBudget.toNat = .ok n) : b.state.gammaFailures * n ≤ halvings vs := by
  have spent : (∀ left, b.place = .searchingGamma left → left ≤ n) ∧ b.spent n ≤ halvings vs := by
    induction course with
    | stay =>
        refine ⟨fun left searching => absurd (resting.symm.trans searching) nofun, ?_⟩
        simp [Snapshot.spent, resting, fresh]
    | move _ step ih =>
        obtain ⟨within, spent⟩ := step.turn.spent_le budget ih.1
        refine ⟨within, ?_⟩
        rw [Snapshot.halvings_append]
        omega
  exact le_trans (Nat.le_add_right _ _) spent.2

/-- Only a halving changes the step size and the slope. -/
theorem Turn.gamma_eq (turn : Turn c b d) :
    (b.halves = true ∧ d.state.gamma = b.state.gamma * 0.5 ∧ d.state.sigma = b.state.sigma * 2) ∨
      (b.halves = false ∧ d.state.gamma = b.state.gamma ∧ d.state.sigma = b.state.sigma) := by
  cases turn with
  | @bounded left m s w met =>
      refine .inr ⟨?_, rfl, rfl⟩
      cases m with
      | zero => rfl
      | succ m => simp [Snapshot.halves, met]
  | halve unmet => exact .inl ⟨by simp [Snapshot.halves, unmet], rfl, rfl⟩
  | search | skip | unbounded | settle | aim | depart | accept | reject | exhaust | approve =>
      exact .inr ⟨rfl, rfl, rfl⟩

end

/-! ## Exact step sizes -/

/-- The slope of the sufficient decrease that belongs to a step size. -/
noncomputable def slopeOf (γ : ℝ) : ℝ := 1 / 20 / (4 * γ)

/-- The step size is `γ` and the slope the one that belongs to it. -/
structure Sized (γ : ℝ) (gamma sigma : Exact) : Prop where
  positive : 0 < γ
  gamma : gamma = .real γ
  sigma : sigma = .real (slopeOf γ)

theorem Sized.slope_positive {γ : ℝ} {gamma sigma : Exact} (sized : Sized γ gamma sigma) :
    0 < slopeOf γ := by
  have positive := sized.positive
  unfold slopeOf
  positivity

theorem Sized.halve {γ : ℝ} {gamma sigma : Exact} (sized : Sized γ gamma sigma) :
    Sized (γ / 2) (gamma * 0.5) (sigma * 2) := by
  obtain ⟨positive, rfl, rfl⟩ := sized
  refine ⟨by positivity, ?_, ?_⟩
  · rw [Exact.half_eq, Exact.real_mul]
    congr 1
    ring
  · rw [Exact.two_eq, Exact.real_mul, slopeOf, slopeOf]
    congr 1
    field_simp

/-- The step size after `n` halvings is that at first divided by `2 ^ n`. -/
theorem Course.sized {c : Config σ Exact} {A : Operator σ Exact} {g : Prox σ Exact}
    {a b : Snapshot σ Exact} {vs : List (Snapshot σ Exact)} {γ : ℝ}
    (sized : Sized γ a.state.gamma a.state.sigma) (course : Course c A g a vs b) :
    Sized (γ / 2 ^ halvings vs) b.state.gamma b.state.sigma := by
  induction course with
  | stay => simpa [halvings] using sized
  | @move vs b d _ step ih =>
      rw [Snapshot.halvings_append, Snapshot.halvings_single]
      rcases step.turn.gamma_eq with ⟨halves, gamma, sigma⟩ | ⟨halves, gamma, sigma⟩
      · rw [gamma, sigma, halves, if_pos rfl, pow_succ, ← div_div]
        exact ih.halve
      · rw [gamma, sigma, halves, if_neg Bool.false_ne_true, Nat.add_zero]
        exact ih

end ForwardBackward
