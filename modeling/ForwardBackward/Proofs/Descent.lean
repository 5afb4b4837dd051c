/-
# ForwardBackward.Proofs.Descent -- the recorded envelopes decrease

An iteration records the envelope at its iterate, `E`, and the search along the
direction asks the envelope at the next one to be at most

    level = E - sigma ‖r‖².

If the search is met and the step size is not halved before the next envelope is
recorded, then it is that accepted envelope that is recorded: nothing it is made
of is touched in between.  So over a stretch of iterations whose searches are all
met, at one step size, the levels telescope.

* `Turn.lowers` -- one move: what bounds the envelope before it bounds it after it,
  lowered by `sigma ‖r‖²` where the envelope was recorded.
* `Course.lowers` -- a stretch of moves, by induction.
* `Solver.recorded_descends` -- every stretch of every run, whatever the operator
  and the proximal step are; and where a search for a step size was met, the cost
  is at most the envelope.
-/
import ForwardBackward.Proofs.Multiples

namespace ForwardBackward

set_option autoImplicit false

open Snapshot (halvings)

variable {σ : Type} {c : Config σ Exact} {A : Operator σ Exact} {g : Prox σ Exact}
  {a b d : Snapshot σ Exact} {vs : List (Snapshot σ Exact)} {γ S L : ℝ}

/-! ## Numbers -/

/-- What is divided by a number and gives one is a number. -/
theorem Exact.eq_real_of_quotient {x : Exact} {y z : ℝ}
    (divided : Scalar.quotient x (.real y) = .ok (.real z)) : ∃ u, x = .real u := by
  unfold Scalar.quotient at divided
  split at divided
  · cases divided
  · cases x with
    | real u => exact ⟨u, rfl⟩
    | infinite s => cases divided
    | undefined => cases divided

/-- Where the quadratic model is a number, the residual norm is one. -/
theorem State.Curved.residual_real {residual : Exact} {B : ℝ}
    (curved : State.Curved (.real γ) residual (.real B)) : ∃ ρ, residual = .real ρ := by
  obtain ⟨f, square, curvature, squared, divided, sum⟩ := curved
  obtain ⟨_, k, _, rfl, _⟩ := Exact.eq_real_of_add sum.symm
  rw [Exact.two_eq, Exact.real_mul] at divided
  obtain ⟨q, rfl⟩ := Exact.eq_real_of_quotient divided
  simp only [Scalar.square] at squared
  split at squared
  · cases squared
  · obtain ⟨ρ, _, rfl, _⟩ := Exact.eq_real_of_mul (Except.ok.inj squared)
    exact ⟨ρ, rfl⟩

/-! ## Where the envelope is recorded -/

/-- What was compared and copied up to a place. -/
def Place.Settled (s : State Exact) : Place Exact → Prop
  | .measured (some true) => s.bounded = true
  | .recorded found =>
      Scalar.isFinite s.fxbar = true ∧ Scalar.isFinite s.value = true ∧ s.recorded = s.value ∧
        s.cost = s.fxbar + s.gxbar ∧ (found = some true → s.bounded = true)
  | _ => True

/-- The quadratic model is one of the current step size, which is a positive number. -/
structure Snapshot.Modelled (v : Snapshot σ Exact) : Prop where
  sized : ∃ γ, Sized γ v.state.gamma v.state.sigma
  curved : State.Curved v.state.gamma v.state.residual v.state.bound
  settled : v.place.Settled v.state

theorem Turn.modelled (modelled : b.Modelled) (turn : Turn c b d) : d.Modelled := by
  obtain ⟨⟨γ, sized⟩, curved, settled⟩ := modelled
  cases turn with
  | search | skip | unbounded | aim | depart | exhaust | approve =>
      exact ⟨⟨γ, sized⟩, curved, trivial⟩
  | bounded met => exact ⟨⟨γ, sized⟩, curved, met⟩
  | halve _ curved' => exact ⟨⟨_, sized.halve⟩, curved', trivial⟩
  | @settle left found s _ _ smooth value =>
      refine ⟨⟨γ, sized⟩, curved, smooth, value, rfl, rfl, ?_⟩
      rintro rfl
      exact settled
  | accept curved' _ | reject curved' _ => exact ⟨⟨γ, sized⟩, curved', trivial⟩

/-- The envelope, the cost and the residual norm are numbers where the envelope is recorded, and
the cost is at most the envelope if the search for a step size was met. -/
theorem Snapshot.Modelled.recorded {found : Option Bool} (modelled : b.Modelled)
    (recorded : b.place = .recorded found) :
    ∃ E C ρ, b.state.recorded = .real E ∧ b.state.cost = .real C ∧ b.state.residual = .real ρ ∧
      (found = some true → C ≤ E) := by
  obtain ⟨⟨γ, sized⟩, curved, settled⟩ := modelled
  rw [recorded] at settled
  obtain ⟨smooth, value, envelope, cost, met⟩ := settled
  obtain ⟨F, smooth⟩ := (Exact.isFinite_iff _).mp smooth
  obtain ⟨E, value⟩ := (Exact.isFinite_iff _).mp value
  obtain ⟨B, G, bound, regular, rfl⟩ := Exact.eq_real_of_add (value : b.state.bound + _ = _)
  rw [sized.gamma, bound] at curved
  obtain ⟨ρ, residual⟩ := curved.residual_real
  refine ⟨B + G, F + G, ρ, envelope.trans value, ?_, residual, fun found => ?_⟩
  · rw [cost, smooth, regular, Exact.real_add]
  · have bounded := met found
    rw [State.bounded, smooth, bound, Exact.le_real] at bounded
    linarith

/-! ## What bounds the envelope -/

/-- The square of the residual norm, where the envelope is recorded. -/
def Snapshot.square (v : Snapshot σ Exact) : ℝ :=
  match v.place with
  | .recorded _ => v.state.residual.toReal ^ 2
  | _ => 0

/-- The squares of the residual norms recorded on the way, in all. -/
noncomputable def Snapshot.squares (vs : List (Snapshot σ Exact)) : ℝ := (vs.map square).sum

theorem Snapshot.squares_append (vs us : List (Snapshot σ Exact)) :
    squares (vs ++ us) = squares vs + squares us := by
  rw [squares, List.map_append, List.sum_append]
  rfl

theorem Snapshot.squares_nonneg (vs : List (Snapshot σ Exact)) : 0 ≤ squares vs := by
  refine List.sum_nonneg fun t inside => ?_
  obtain ⟨v, _, rfl⟩ := List.mem_map.mp inside
  unfold square
  split
  · positivity
  · exact le_rfl

/-- The number `L` bounds the envelope that is recorded next, if no search along a direction
fails and the step size is not halved before; `S` is the slope of the sufficient decrease. -/
def Place.Below (S L : ℝ) (s : State Exact) : Place Exact → Prop
  | .resting | .searchingGamma _ | .measured _ | .moved true => ∀ E, s.value = .real E → E ≤ L
  | .recorded _ => ∃ E ρ, s.recorded = .real E ∧ s.residual = .real ρ ∧ E ≤ L
  | .aimed => ∃ E ρ, s.recorded = .real E ∧ s.residual = .real ρ ∧ E - S * ρ ^ 2 ≤ L
  | .searchingTau _ _ level => ∃ l, level = .real l ∧ l ≤ L
  | .moved false => True

/-- What bounds the envelope before a move bounds it after the move, lowered by the sufficient
decrease where the envelope was recorded. -/
theorem Turn.lowers (modelled : d.Modelled) (slope : b.state.sigma = .real S)
    (met : b.place ≠ .moved false) (unhalved : b.halves = false)
    (below : b.place.Below S L b.state) (turn : Turn c b d) :
    d.place.Below S (L - S * b.square) d.state := by
  cases turn with
  | search | skip | bounded | unbounded =>
      show ∀ E, _ → E ≤ L - S * 0
      rw [mul_zero, sub_zero]
      exact below
  | halve unmet => simp [Snapshot.halves, unmet] at unhalved
  | @settle left found s =>
      obtain ⟨E, _, ρ, recorded, _, residual, _⟩ := modelled.recorded rfl
      refine ⟨E, ρ, recorded, residual, ?_⟩
      show E ≤ L - S * 0
      rw [mul_zero, sub_zero]
      exact below E recorded
  | @aim left found s =>
      obtain ⟨E, ρ, recorded, residual, under⟩ := below
      refine ⟨E, ρ, recorded, residual, ?_⟩
      show E - S * ρ ^ 2 ≤ L - S * s.residual.toReal ^ 2
      rw [residual, Exact.toReal_real]
      linarith
  | @depart left n level s _ _ _ _ allowed =>
      obtain ⟨E, ρ, recorded, residual, under⟩ := below
      obtain ⟨square, squared, rfl⟩ := State.level_accepts.mp allowed
      rw [residual] at squared
      cases squared.symm.trans (Exact.square_real ρ)
      refine ⟨E - S * ρ ^ 2, ?_, ?_⟩
      · rw [recorded, (slope : s.sigma = _), Exact.real_mul, Exact.real_sub]
      · show E - S * ρ ^ 2 ≤ L - S * 0
        rw [mul_zero, sub_zero]
        exact under
  | @accept left n tau level s _ _ x ax grad xbar r fx gxbar residual bound _ accepted =>
      obtain ⟨l, rfl, under⟩ := below
      intro E value
      show E ≤ L - S * 0
      change bound + gxbar = _ at value
      rw [value, Exact.le_real] at accepted
      linarith
  | reject _ _ =>
      obtain ⟨l, rfl, under⟩ := below
      refine ⟨l, rfl, ?_⟩
      show l ≤ L - S * 0
      linarith
  | exhaust => trivial
  | @approve left found s =>
      cases found with
      | false => exact absurd rfl met
      | true =>
          show ∀ E, _ → E ≤ L - S * 0
          rw [mul_zero, sub_zero]
          exact below

namespace Course

theorem modelled (course : Course c A g a vs b) (start : a.Modelled) : b.Modelled :=
  course.invariant (fun _ _ modelled step => step.turn.modelled modelled) start

/-- Over a stretch whose searches along directions are all met and on which the step size is not
halved, the bound of the envelope is lowered by the sufficient decreases in all. -/
theorem lowers (course : Course c A g a vs b) (modelled : a.Modelled)
    (slope : a.state.sigma = .real S) (met : ∀ v ∈ vs, v.place ≠ .moved false)
    (unhalved : halvings vs = 0) (start : a.place.Below S L a.state) :
    b.place.Below S (L - S * Snapshot.squares vs) b.state := by
  induction course with
  | stay => simpa [Snapshot.squares] using start
  | @move vs b d before step ih =>
      rw [Snapshot.halvings_append, Snapshot.halvings_single, Nat.add_eq_zero_iff] at unhalved
      obtain ⟨unhalved, last⟩ := unhalved
      have below := ih (fun v inside => met v (List.mem_append_left _ inside)) unhalved
      have kept : b.halves = false := by
        by_contra halves
        rw [Bool.not_eq_false] at halves
        rw [halves, if_pos rfl] at last
        cases last
      obtain ⟨γ, sized⟩ := modelled.sized
      have same : b.state.sigma = .real S := by
        have now := (before.sized sized).sigma
        rw [unhalved, pow_zero, div_one] at now
        rw [now, ← sized.sigma, slope]
      have lowered := step.turn.lowers ((before.move step).modelled modelled) same
        (met b (List.mem_append_right _ List.mem_cons_self)) kept below
      rw [Snapshot.squares_append]
      simpa [Snapshot.squares, mul_add, sub_sub] using lowered

end Course

/-! ## Runs -/

/-- The quadratic model is one of the first step size when the first step is taken. -/
theorem launch_modelled (checked : c.Checked) {x0 : Option (Vec Exact)} {s : State Exact}
    {w w' : World σ Exact} (launched : Solver.launch A g x0 c w = .ok s w') (limit : Nat) :
    (Snapshot.first limit s w').Modelled := by
  obtain ⟨γ, sized, _⟩ := launch_sized checked launched
  obtain ⟨x, memory, s₁, w₁, gamma, s₂, w₂, s₃, s₄, _, _, _, _, _, steps, _, rfl⟩ :=
    Solver.launch_returns launched
  obtain ⟨_, _, _, _, _, curved, rfl⟩ := State.step_frame steps
  exact ⟨⟨γ, sized⟩, curved, trivial⟩

namespace Solver

variable {x0 : Option (Vec Exact)} {w : World σ Exact}

theorem Passes.modelled (checked : c.Checked) (passes : Passes A g x0 c w vs b) :
    b.Modelled := by
  obtain ⟨s₀, w₀, limit, launched, _, course⟩ := passes
  exact course.modelled (launch_modelled checked launched limit)

/-- The recorded values of a run, in exact arithmetic, whatever the operator and the proximal
step are.

* Where a search for a step size was met, the cost is at most the envelope.
* From one record `a` to a later one `b`, if every search along a direction was met in between
  and the step size was not halved, the envelope has decreased by `sigma` times the squares of
  the residual norms of all iterations from that of `a` on to that before `b`; in particular it
  has not increased. -/
theorem recorded_descends (checked : c.Checked) :
    (∀ vs b, Passes A g x0 c w vs b → b.place = .recorded (some true) →
      ∃ E C, b.state.recorded = .real E ∧ b.state.cost = .real C ∧ C ≤ E) ∧
    ∀ us a vs b, Passes A g x0 c w us a → Course c A g a vs b →
      a.isRecorded = true → b.isRecorded = true → (∀ v ∈ vs, v.place ≠ .moved false) →
      halvings vs = 0 →
      ∃ E E' S, a.state.recorded = .real E ∧ b.state.recorded = .real E' ∧
        a.state.sigma = .real S ∧
        a.state.iteration + vs.countP Snapshot.isRecorded = b.state.iteration ∧
        (∀ v ∈ vs, v.isRecorded = true → ∃ ρ, v.state.residual = .real ρ) ∧
        E' ≤ E - S * Snapshot.squares vs ∧ E' ≤ E := by
  refine ⟨fun vs b passes recorded => ?_, fun us a vs b passes course first last met unhalved => ?_⟩
  · obtain ⟨E, C, _, envelope, cost, _, below⟩ := (passes.modelled checked).recorded recorded
    exact ⟨E, C, envelope, cost, below rfl⟩
  · have modelled := passes.modelled checked
    obtain ⟨γ, sized⟩ := modelled.sized
    obtain ⟨found, here⟩ := Snapshot.isRecorded_iff.mp first
    obtain ⟨found', there⟩ := Snapshot.isRecorded_iff.mp last
    obtain ⟨E, _, ρ, envelope, _, residual, _⟩ := modelled.recorded here
    have start : a.place.Below (slopeOf γ) E a.state := by
      rw [here]
      exact ⟨E, ρ, envelope, residual, le_rfl⟩
    have below := course.lowers modelled sized.sigma met unhalved start
    rw [there] at below
    obtain ⟨E', _, envelope', _, decrease⟩ := below
    have numbers : ∀ v ∈ vs, v.Modelled :=
      course.invariant_visited (fun _ _ modelled step => step.turn.modelled modelled) modelled
    have counts := course.iteration_eq
    rw [here, there] at counts
    refine ⟨E, E', slopeOf γ, envelope, envelope', sized.sigma, ?_, ?_, decrease, ?_⟩
    · exact Nat.add_right_cancel counts
    · intro v inside recorded
      obtain ⟨_, recorded⟩ := Snapshot.isRecorded_iff.mp recorded
      obtain ⟨_, _, ρ, _, _, residual, _⟩ := (numbers v inside).recorded recorded
      exact ⟨ρ, residual⟩
    · have positive : 0 ≤ slopeOf γ := sized.slope_positive.le
      have spent := mul_nonneg positive (Snapshot.squares_nonneg vs)
      linarith

/-- Two records of a run, one after the other. -/
theorem plain_recorded_descends :
    ∃ us vs E E' S, ∃ a b : Snapshot Unit Exact, Plain.Passes us a ∧
      Course (Plain.config (1 / 2)) Plain.operator Plain.prox a vs b ∧ a.isRecorded = true ∧ b.isRecorded = true ∧
      a.state.iteration = 1 ∧ b.state.iteration = 2 ∧ a.state.recorded = .real E ∧
      b.state.recorded = .real E' ∧ a.state.sigma = .real S ∧
      E' ≤ E - S * Snapshot.squares vs ∧ E' ≤ E := by
  obtain ⟨us, a, vs, b, passes, course, recorded, recorded', first, second⟩ := Plain.records
  have glides := Plain.glides_visited passes course
  have unhalved : halvings vs = 0 := List.countP_eq_zero.mpr fun v inside =>
    Bool.eq_false_iff.mp ((glides v inside).unhalved Plain.smooth (by norm_num))
  obtain ⟨E, E', S, envelope, envelope', slope, _, _, decrease, below⟩ :=
    (recorded_descends (Plain.config_checked one_half_pos)).2 us a vs b passes course recorded
      recorded' (fun v inside => (glides v inside).met) unhalved
  exact ⟨us, vs, E, E', S, a, b, passes, course, recorded, recorded', first, second, envelope,
    envelope', slope, decrease, below⟩

end Solver

end ForwardBackward
