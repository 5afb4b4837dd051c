/-
# ForwardBackward.Proofs.Tally -- what a course spends

Every iteration makes four calls of the operator and one proximal step of its own:
`A xbar`, the gradient at `xbar` with the residual there, and two calls for the
direction.  Beyond these a halving of the step size costs one of each, and a trial
along a direction one proximal step.  So the calls of a course are known from its
iterations, halvings and trials (`Course.operatorCalls_eq`, `Course.proxCalls_eq`);
in the middle of an iteration what it still `owes` is to be added.

A search has a budget of `M`, and a search along a direction makes a trial at
least.  A search that fails has spent its budget.  `Snapshot.Within` is what this
says of a moment, and every move keeps it (`Turn.within`).

The history is offered a pair in every iteration but the first
(`Course.offerAll`, `Course.length_offers`).

None of this depends on the arithmetic or on what the operator and the proximal
step answer.
-/
import ForwardBackward.Proofs.Queue
import ForwardBackward.Proofs.Sizes

namespace ForwardBackward

set_option autoImplicit false

open Snapshot (halvings)

variable {σ R : Type} [Scalar R]

/-! ## Trials -/

namespace Snapshot

/-- Whether a trial along the direction is about to be made. -/
def tries (v : Snapshot σ R) : Bool :=
  match v.place with
  | .searchingTau (_ + 1) _ _ => true
  | _ => false

/-- How many trials along a direction were made on the way. -/
def trials (vs : List (Snapshot σ R)) : Nat := vs.countP tries

theorem trials_append (vs us : List (Snapshot σ R)) :
    trials (vs ++ us) = trials vs + trials us :=
  List.countP_append

end Snapshot

open Snapshot (trials)

namespace Place

/-- The calls of the operator that the iteration in progress has still to make of its own. -/
def owes : Place R → Nat
  | .searchingGamma _ | .measured _ | .recorded _ => 3
  | .aimed => 2
  | _ => 0

/-- The halvings that the search in progress may still do. -/
def halvingsLeft : Place R → Nat
  | .searchingGamma n => n
  | _ => 0

/-- The trials along the direction that the iteration in progress may still make, out of `M`. -/
def trialsLeft (M : Nat) : Place R → Nat
  | .searchingTau n _ _ => n
  | .resting | .moved _ => 0
  | _ => M

/-- The searches along a direction that the iteration in progress has still to end. -/
def unmoved : Place R → Nat
  | .resting | .moved _ => 0
  | _ => 1

/-- The searches for a step size in progress. -/
def measuring : Place R → Nat
  | .searchingGamma _ => 1
  | _ => 0

end Place

section Counts

variable {c : Config σ R} {A : Operator σ R} {g : Prox σ R} {a b d : Snapshot σ R}
  {vs : List (Snapshot σ R)}

/-- A search for a step size that meets its test halves nothing. -/
theorem Snapshot.halvings_of_bounded {n left : Nat} {s : State R} {w : World σ R}
    (met : s.bounded = true) : halvings [(⟨.searchingGamma n, left, s, w⟩ : Snapshot σ R)] = 0 := by
  rw [Snapshot.halvings_single]
  cases n <;> simp [Snapshot.halves, met]

theorem Snapshot.halvings_of_unbounded {n left : Nat} {s : State R} {w : World σ R}
    (unmet : s.bounded = false) :
    halvings [(⟨.searchingGamma (n + 1), left, s, w⟩ : Snapshot σ R)] = 1 := by
  rw [Snapshot.halvings_single]
  simp [Snapshot.halves, unmet]

theorem Turn.operatorCalls_eq (turn : Turn c b d) :
    d.state.operatorCalls + d.place.owes + 4 * b.state.iteration =
      b.state.operatorCalls + b.place.owes + 4 * d.state.iteration + halvings [b] := by
  cases turn with
  | @search _ _ s | @skip _ s =>
      show s.operatorCalls + 1 + 3 + 4 * s.iteration =
        s.operatorCalls + 0 + 4 * (s.iteration + 1) + 0
      omega
  | bounded met =>
      rw [Snapshot.halvings_of_bounded met]
      rfl
  | @halve _ _ s _ _ _ _ _ _ _ _ _ unmet =>
      rw [Snapshot.halvings_of_unbounded unmet]
      show s.operatorCalls + 1 + 3 + 4 * s.iteration = s.operatorCalls + 3 + 4 * s.iteration + 1
      omega
  | aim | depart | unbounded | settle | accept | reject | exhaust | approve => rfl

theorem Turn.proxCalls_eq (turn : Turn c b d) :
    d.state.proxCalls + d.place.pending + b.state.iteration =
      b.state.proxCalls + b.place.pending + d.state.iteration + halvings [b] + trials [b] := by
  cases turn with
  | @search _ _ s | @skip _ s =>
      show s.proxCalls + 1 + s.iteration = s.proxCalls + 0 + (s.iteration + 1) + 0 + 0
      omega
  | bounded met =>
      rw [Snapshot.halvings_of_bounded met]
      rfl
  | @halve _ _ s _ _ _ _ _ _ _ _ _ unmet =>
      rw [Snapshot.halvings_of_unbounded unmet]
      show s.proxCalls + 1 + 1 + s.iteration = s.proxCalls + 1 + s.iteration + 1 + 0
      omega
  | @accept _ _ _ _ s | @reject _ _ _ _ s =>
      show s.proxCalls + 1 + 0 + s.iteration = s.proxCalls + 0 + s.iteration + 0 + 1
      omega
  | aim | unbounded | settle | depart | exhaust | approve => rfl

/-- The calls of the operator on the way. -/
theorem Course.operatorCalls_eq (course : Course c A g a vs b) :
    b.state.operatorCalls + b.place.owes + 4 * a.state.iteration =
      a.state.operatorCalls + a.place.owes + 4 * b.state.iteration + halvings vs := by
  induction course with
  | stay => rfl
  | move _ step ih =>
      have turned := step.turn.operatorCalls_eq
      rw [Snapshot.halvings_append]
      omega

/-- The proximal steps on the way. -/
theorem Course.proxCalls_eq (course : Course c A g a vs b) :
    b.state.proxCalls + b.place.pending + a.state.iteration =
      a.state.proxCalls + a.place.pending + b.state.iteration + halvings vs + trials vs := by
  induction course with
  | stay => rfl
  | move _ step ih =>
      have turned := step.turn.proxCalls_eq
      rw [Snapshot.halvings_append, Snapshot.trials_append]
      omega

/-! ## Budgets -/

/-- No search has another budget than `M`. -/
def Config.Allows (c : Config σ R) (M : Nat) : Prop := ∀ n, c.searchBudget.toNat = .ok n → n = M

/-- The halvings of an iteration, `H` in all so far, stay in the budget. -/
theorem Turn.halvings_le {M H : Nat} (allows : c.Allows M) (turn : Turn c b d)
    (within : H + b.place.halvingsLeft ≤ b.state.iteration * M) :
    H + halvings [b] + d.place.halvingsLeft ≤ d.state.iteration * M := by
  cases turn with
  | @search _ n s _ _ _ _ budget =>
      obtain rfl := allows n budget
      have before : H + 0 ≤ s.iteration * n := within
      show H + 0 + n ≤ (s.iteration + 1) * n
      rw [Nat.succ_mul]
      omega
  | @skip _ s =>
      have before : H + 0 ≤ s.iteration * M := within
      show H + 0 + 0 ≤ (s.iteration + 1) * M
      rw [Nat.succ_mul]
      omega
  | bounded met =>
      rw [Snapshot.halvings_of_bounded met]
      exact le_trans (Nat.le_add_right _ _) within
  | @halve _ n s _ _ _ _ _ _ _ _ _ unmet =>
      have before : H + (n + 1) ≤ s.iteration * M := within
      rw [Snapshot.halvings_of_unbounded unmet]
      show H + 1 + n ≤ s.iteration * M
      omega
  | aim | depart | unbounded | settle | accept | reject | exhaust | approve => exact within

/-- The trials along the directions at a moment behind `T` of them, with a budget of `M` for every
search: one at least in every search, and all of the budget in one that failed. -/
structure Snapshot.Tried (M T : Nat) (v : Snapshot σ R) : Prop where
  room : v.place.trialsLeft M ≤ M
  most : T + v.place.trialsLeft M ≤ v.state.iteration * M
  least : v.state.iteration + (M - 1) * v.state.tauFailures + v.place.unmoved * M ≤
    T + v.place.trialsLeft M + v.place.unmoved

/-- An iteration begins, and with it the search along a direction that it will make. -/
theorem Snapshot.Tried.begin {M T i f : Nat} (most : T + 0 ≤ i * M)
    (least : i + (M - 1) * f + 0 * M ≤ T + 0 + 0) :
    T + 0 + M ≤ (i + 1) * M ∧ i + 1 + (M - 1) * f + 1 * M ≤ T + 0 + M + 1 := by
  rw [Nat.succ_mul]
  omega

theorem Turn.tried {M T : Nat} (allows : c.Allows M) (positive : 1 ≤ M) (turn : Turn c b d)
    (tried : b.Tried M T) : d.Tried M (T + trials [b]) := by
  obtain ⟨room, most, least⟩ := tried
  cases turn with
  | search | skip =>
      obtain ⟨most, least⟩ := Snapshot.Tried.begin most least
      exact ⟨le_rfl, most, least⟩
  | @depart _ n _ _ _ _ _ _ _ budget =>
      obtain rfl := allows n budget
      exact ⟨room, most, least⟩
  | @accept _ n _ _ s =>
      have within : n + 1 ≤ M := room
      have most : T + (n + 1) ≤ s.iteration * M := most
      have least : s.iteration + (M - 1) * s.tauFailures + 1 * M ≤ T + (n + 1) + 1 := least
      refine ⟨Nat.zero_le _, ?_, ?_⟩
      · show T + 1 + 0 ≤ s.iteration * M
        omega
      · show s.iteration + (M - 1) * s.tauFailures + 0 * M ≤ T + 1 + 0 + 0
        omega
  | @reject _ n _ _ s =>
      have within : n + 1 ≤ M := room
      have most : T + (n + 1) ≤ s.iteration * M := most
      have least : s.iteration + (M - 1) * s.tauFailures + 1 * M ≤ T + (n + 1) + 1 := least
      refine ⟨Nat.le_of_succ_le within, ?_, ?_⟩
      · show T + 1 + n ≤ s.iteration * M
        omega
      · show s.iteration + (M - 1) * s.tauFailures + 1 * M ≤ T + 1 + n + 1
        omega
  | @exhaust _ _ _ s =>
      have least : s.iteration + (M - 1) * s.tauFailures + 1 * M ≤ T + 0 + 1 := least
      refine ⟨Nat.zero_le _, most, ?_⟩
      show s.iteration + (M - 1) * (s.tauFailures + 1) + 0 * M ≤ T + 0 + 0 + 0
      rw [Nat.mul_succ]
      omega
  | bounded | halve | unbounded | settle | aim | approve => exact ⟨room, most, least⟩

/-- A search for a step size, and one along a direction, fails once at most in an iteration. -/
theorem Turn.failures_le (turn : Turn c b d)
    (within : b.state.gammaFailures + b.place.measuring ≤ b.state.iteration ∧
      b.state.tauFailures + b.place.unmoved ≤ b.state.iteration) :
    d.state.gammaFailures + d.place.measuring ≤ d.state.iteration ∧
      d.state.tauFailures + d.place.unmoved ≤ d.state.iteration := by
  cases turn with
  | search => exact ⟨Nat.succ_le_succ within.1, Nat.succ_le_succ within.2⟩
  | skip => exact ⟨Nat.le_succ_of_le within.1, Nat.succ_le_succ within.2⟩
  | bounded => exact ⟨Nat.le_of_succ_le within.1, within.2⟩
  | halve | unbounded | settle | aim | depart | reject | approve | exhaust => exact within
  | accept => exact ⟨within.1, Nat.le_of_succ_le within.2⟩

/-- What is spent at a moment behind `H` halvings and `T` trials. -/
structure Snapshot.Within (M H T : Nat) (v : Snapshot σ R) : Prop where
  halvings : H + v.place.halvingsLeft ≤ v.state.iteration * M
  tried : v.Tried M T
  failures : v.state.gammaFailures + v.place.measuring ≤ v.state.iteration ∧
    v.state.tauFailures + v.place.unmoved ≤ v.state.iteration

theorem Course.within {M : Nat} (allows : c.Allows M) (positive : 1 ≤ M)
    (start : a.Within M 0 0) (course : Course c A g a vs b) :
    b.Within M (halvings vs) (trials vs) := by
  induction course with
  | stay => exact start
  | move _ step ih =>
      rw [Snapshot.halvings_append, Snapshot.trials_append]
      exact ⟨step.turn.halvings_le allows ih.halvings, step.turn.tried allows positive ih.tried,
        step.turn.failures_le ih.failures⟩

/-- An iteration that ends had a budget for its searches. -/
theorem Course.budgeted (course : Course c A g a vs b) (fresh : a.state.iteration = 0)
    (resting : b.place = .resting) (begun : b.state.iteration ≠ 0) :
    ∃ M, c.searchBudget.toNat = .ok M := by
  have reached : (∃ M, c.searchBudget.toNat = .ok M) ∨ b.state.iteration = 0 ∨
      b.place.owes ≠ 0 := by
    refine course.invariant (P := fun v => (∃ M, c.searchBudget.toNat = .ok M) ∨
      v.state.iteration = 0 ∨ v.place.owes ≠ 0) (fun b d before step => ?_) (.inr (.inl fresh))
    cases step.turn with
    | search | skip | bounded | halve | unbounded | settle | aim => exact .inr (.inr nofun)
    | depart _ budget => exact .inl ⟨_, budget⟩
    | accept | reject | exhaust | approve =>
        exact before.imp_right fun before => before.imp_right fun owes => absurd rfl owes
  rcases reached with budget | none | owes
  · exact budget
  · exact absurd none begun
  · rw [resting] at owes
    exact absurd rfl owes

theorem Snapshot.measuring_of_halves {v : Snapshot σ R} (halves : v.halves = true) :
    v.place.measuring = 1 := by
  unfold Snapshot.halves at halves
  split at halves
  · next n here =>
      rw [here]
      rfl
  · cases halves

/-- Where no search for a step size is wanted none is halved. -/
theorem Course.halvings_of_unwanted (unwanted : c.searchesGamma = false)
    (resting : a.place = .resting) (course : Course c A g a vs b) : halvings vs = 0 := by
  have calm : ∀ v ∈ vs, v.place.measuring = 0 := by
    refine course.invariant_visited (P := fun v => v.place.measuring = 0)
      (fun b d before step => ?_) ?_
    · cases step with
      | search _ _ wanted => cases unwanted.symm.trans wanted
      | halve => cases before
      | skip | bounded | unbounded | settle | aim | depart | accept | reject | exhaust | approve =>
          rfl
    · rw [resting]
      rfl
  refine List.countP_eq_zero.mpr fun v inside halves => ?_
  have measuring := Snapshot.measuring_of_halves halves
  rw [calm v inside] at measuring
  cases measuring

end Counts

/-! ## Offers -/

/-- What the history is offered between a snapshot and the next. -/
def Snapshot.offer? (v next : Snapshot σ R) : Option (Offer R) :=
  if v.isRecorded && v.state.iteration ≠ 1 then
    some ⟨v.state.xbar, v.state.xbarPrev, next.state.rbar, v.state.rbarPrev⟩
  else none

/-- What the history is offered on the way from the first of some snapshots to the last. -/
def Snapshot.offers : List (Snapshot σ R) → List (Offer R)
  | v :: next :: vs => (v.offer? next).toList ++ offers (next :: vs)
  | _ => []

section Offers

variable {c : Config σ R} {A : Operator σ R} {g : Prox σ R} {a b d : Snapshot σ R}
  {vs : List (Snapshot σ R)}

theorem Snapshot.offers_concat (vs : List (Snapshot σ R)) (b d : Snapshot σ R) :
    offers (vs ++ [b] ++ [d]) = offers (vs ++ [b]) ++ (b.offer? d).toList := by
  induction vs with
  | nil => simp [offers]
  | cons v vs ih =>
      cases vs with
      | nil => simp [offers]
      | cons next vs =>
          simp only [List.cons_append, offers, List.append_assoc] at ih ⊢
          rw [ih]

/-- The history after a direction is chosen. -/
theorem Solver.aim_history {s s' : State R} {env env' : σ}
    (returned : aim A g s env = .ok s' env') :
    (s.iteration = 1 ∧ s'.history = s.history) ∨
      (s.iteration ≠ 1 ∧
        s.history.update s.xbar s.xbarPrev s'.rbar s.rbarPrev = .ok s'.history) := by
  obtain ⟨s₁, s₂, residual, chosen, rfl⟩ := aim_returns returned
  obtain ⟨_, _, _, _, _, _, _, _, _, rfl⟩ := State.evaluateResidual_returns residual
  obtain ⟨history, d, rfl, choice⟩ := State.chooseDirection_accepts chosen
  rcases choice with ⟨one, same, _⟩ | ⟨later, offered, _⟩
  · exact .inl ⟨one, same⟩
  · exact .inr ⟨later, offered⟩

theorem Snapshot.offer?_of_recorded {v next : Snapshot σ R} (recorded : v.isRecorded = true) :
    v.offer? next = if v.state.iteration = 1 then none else
      some ⟨v.state.xbar, v.state.xbarPrev, next.state.rbar, v.state.rbarPrev⟩ := by
  unfold Snapshot.offer?
  rw [recorded]
  by_cases one : v.state.iteration = 1 <;> simp [one]

theorem Snapshot.offer?_of_not_recorded {v : Snapshot σ R} (other : v.isRecorded = false)
    (next : Snapshot σ R) : v.offer? next = none := by
  unfold Snapshot.offer?
  rw [other]
  rfl

theorem Move.offerAll (step : Move c A g b d) :
    b.state.history.offerAll (b.offer? d).toList = .ok d.state.history := by
  cases recorded : b.isRecorded with
  | false =>
      rw [Snapshot.offer?_of_not_recorded recorded, step.turn.history_eq recorded]
      rfl
  | true =>
      rw [Snapshot.offer?_of_recorded recorded]
      cases step with
      | aim called =>
          obtain ⟨env, aimed, rfl⟩ := Run.call_returns.mp called
          rcases Solver.aim_history aimed with ⟨one, same⟩ | ⟨later, offered⟩
          · rw [if_pos one, same]
            rfl
          · rw [if_neg later]
            exact bind_accepts.mpr ⟨_, offered, rfl⟩
      | search | skip | bounded | halve | unbounded | settle | depart | accept | reject | exhaust
      | approve => cases recorded

/-- The history is what the offers on the way have made of it. -/
theorem Course.offerAll (course : Course c A g a vs b) :
    a.state.history.offerAll (Snapshot.offers (vs ++ [b])) = .ok b.state.history := by
  induction course with
  | stay => rfl
  | move _ step ih =>
      rw [Snapshot.offers_concat, History.offerAll, List.foldlM_append]
      exact bind_accepts.mpr ⟨_, ih, step.offerAll⟩

/-- A choice of a direction offers a pair, but for the one in the first iteration. -/
theorem Turn.length_offer (turn : Turn c b d) (begun : b.place.pending ≤ b.state.iteration) :
    b.state.iteration - b.place.pending - 1 + (b.offer? d).toList.length =
      d.state.iteration - d.place.pending - 1 := by
  cases turn with
  | @aim left found s =>
      have positive : 1 ≤ s.iteration := begun
      rw [Snapshot.offer?_of_recorded rfl]
      change s.iteration - 1 - 1 + _ = s.iteration - 0 - 1
      by_cases one : s.iteration = 1
      · rw [if_pos one]
        simp [one]
      · rw [if_neg one, Option.toList_some, List.length_singleton]
        omega
  | @search _ _ s | @skip _ s =>
      show s.iteration - 0 - 1 + 0 = s.iteration + 1 - 1 - 1
      omega
  | bounded | halve | unbounded | settle | depart | accept | reject | exhaust | approve => rfl

/-- The history is offered a pair in every iteration but the first. -/
theorem Course.length_offers (course : Course c A g a vs b) (fresh : a.state.iteration = 0)
    (resting : a.place = .resting) :
    (Snapshot.offers (vs ++ [b])).length = b.state.iteration - b.place.pending - 1 := by
  induction course with
  | stay => simp [Snapshot.offers, fresh]
  | @move vs b d before step ih =>
      have begun : b.place.pending ≤ b.state.iteration := by
        have counts := before.iteration_eq
        rw [resting] at counts
        change _ + _ + _ = _ + 0 at counts
        omega
      rw [Snapshot.offers_concat, List.length_append, ih, step.turn.length_offer begun]

end Offers

end ForwardBackward
