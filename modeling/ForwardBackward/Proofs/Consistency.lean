/-
# ForwardBackward.Proofs.Consistency -- every buffer belongs to the current iterate

Main fact: in exact arithmetic, wherever a run is asked to stop and where it
returns, the image, the smooth term, the gradient, the step, the residual and the
quadratic model are those of the iterate and the step size of that moment; where a
search along a direction begins, the image, the gradient and the residual it
starts from are those of its anchor; and the pairs offered to the history are
those of successive iterations (`Solver.buffers_consistent`).  None of it depends
on what the searches find.
-/
import ForwardBackward.Proofs.Multiples
import ForwardBackward.Proofs.Recall

namespace ForwardBackward

set_option autoImplicit false

variable {σ : Type} {A : Operator σ Exact} {g : Prox σ Exact}

/-- The image, the smooth term and the gradient are those at the iterate, and the step, the
residual and the quadratic model are those of the step from there of the current size. -/
def State.Consistent (M : A.Meaning) (g : Prox σ Exact) (s : State Exact) : Prop :=
  ∃ γ, s.gamma = .real γ ∧ Evaluated M s.x s.ax s.fx s.grad ∧
    Stepped g A.domain γ s.x s.fx s.grad s.xbar s.gxbar s.r s.residual s.bound

theorem Snapshot.Kept.consistent {M : A.Meaning} {v : Snapshot σ Exact} (kept : v.Kept M g) :
    v.state.Consistent M g := by
  obtain ⟨γ, sound, _⟩ := kept
  exact ⟨γ, sound.sized.gamma, sound.evaluated, sound.stepped⟩

namespace Solver

variable {c : Config σ Exact} {x0 : Option (Vec Exact)} {w : World σ Exact}
  {vs : List (Snapshot σ Exact)} {b : Snapshot σ Exact}

theorem Passes.kept (M : A.Meaning) (stays : g.StaysIn A.domain) (checked : c.Checked)
    (finite : ∀ v, x0 = some v → v.allFinite = true) (passes : Passes A g x0 c w vs b) :
    b.Kept M g := by
  obtain ⟨s₀, w₀, limit, launched, _, course⟩ := passes
  exact course.kept stays (launch_kept M stays checked finite launched limit)

theorem Passes.anchored (M : A.Meaning) (stays : g.StaysIn A.domain) (checked : c.Checked)
    (finite : ∀ v, x0 = some v → v.allFinite = true) (passes : Passes A g x0 c w vs b)
    (aimed : b.place = .aimed) :
    ∃ γ, b.state.gamma = .real γ ∧
      Anchored M g γ b.state.xbarPrev b.state.rbarPrev b.state.axbar b.state.gradbar := by
  obtain ⟨γ, sound, holds⟩ := passes.kept M stays checked finite
  rw [aimed] at holds
  exact ⟨γ, sound.sized.gamma, holds.1⟩

/-- A run begins without anything to take over. -/
theorem Passes.offered (passes : Passes A g x0 c w vs b) (aimed : b.place = .aimed)
    (later : 2 ≤ b.state.iteration) : b.state.Offered vs := by
  obtain ⟨s₀, w₀, limit, launched, _, course⟩ := passes
  refine course.offered (fun begun => ?_) aimed (by omega)
  exact absurd (launch_starts launched).1 begun

/-- The buffers of a run, in exact arithmetic, whatever its searches find.

* Where it is asked to stop, `A x`, `f(x)`, the gradient, the step, the residual and the
  quadratic model are those of the current iterate and step size.
* Where a search along a direction begins, `A xbar`, the gradient there and the residual of the
  step from there are those of the anchor `xbarPrev` and of the current step size.
* From the second iteration on, the history was offered the change of `xbar` and of its residual
  between this choice of a direction and the one before.
* Where it returns, it returns from such a place. -/
theorem buffers_consistent (M : A.Meaning) (stays : g.StaysIn A.domain) (checked : c.Checked)
    (finite : ∀ v, x0 = some v → v.allFinite = true) :
    (∀ vs b, Passes A g x0 c w vs b →
      (b.place = .resting → b.state.Consistent M g) ∧
      (b.place = .aimed → ∃ γ, b.state.gamma = .real γ ∧
        Anchored M g γ b.state.xbarPrev b.state.rbarPrev b.state.axbar b.state.gradbar) ∧
      (b.place = .aimed → 2 ≤ b.state.iteration → b.state.Offered vs)) ∧
    ∀ r w', solve A g x0 c w = .ok r w' → ∃ vs b status, Passes A g x0 c w vs b ∧
      b.place = .resting ∧ r = b.state.result status ∧ b.state.Consistent M g := by
  refine ⟨fun vs b passes => ⟨?_, ?_, passes.offered⟩, fun r w' returned => ?_⟩
  · exact fun _ => (passes.kept M stays checked finite).consistent
  · exact passes.anchored M stays checked finite
  · obtain ⟨vs, b, status, passes, resting, rfl⟩ := passes_of_solve returned
    exact ⟨vs, b, status, passes, resting, rfl, (passes.kept M stays checked finite).consistent⟩

/-- A run that chooses a second direction and returns. -/
theorem plain_buffers_consistent :
    (∃ vs b, Plain.Passes vs b ∧ b.place = .aimed ∧ b.state.iteration = 2 ∧
      (∃ γ, b.state.gamma = .real γ ∧ Anchored Plain.meaning Plain.prox γ b.state.xbarPrev
        b.state.rbarPrev b.state.axbar b.state.gradbar) ∧ b.state.Offered vs) ∧
    ∃ r w' vs b status,
      solve Plain.operator Plain.prox (some Plain.start) (Plain.config (1 / 2)) Plain.world =
        .ok r w' ∧ Plain.Passes vs b ∧ b.place = .resting ∧ r = b.state.result status ∧
      b.state.Consistent Plain.meaning Plain.prox := by
  have consistent := buffers_consistent (w := Plain.world) Plain.meaning Prox.zero_staysIn
    (Plain.config_checked one_half_pos) Plain.start_finite
  constructor
  · obtain ⟨us, a, vs, b, passes, course, _, recorded, _, second⟩ := Plain.records
    obtain ⟨d, step, aimed, same, _⟩ := Plain.reaches_direction (passes.trans course) recorded
    have on := (passes.trans course).trans (.single step)
    have iteration := same.trans second
    obtain ⟨_, anchored, offered⟩ := consistent.1 _ d on
    exact ⟨_, d, on, aimed, iteration, anchored aimed, offered aimed iteration.ge⟩
  · obtain ⟨r, w', returned⟩ := Plain.returns one_half_pos
    obtain ⟨vs, b, status, rest⟩ := consistent.2 r w' returned
    exact ⟨r, w', vs, b, status, returned, rest⟩

end Solver

end ForwardBackward
