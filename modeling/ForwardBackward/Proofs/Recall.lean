/-
# ForwardBackward.Proofs.Recall -- what an iteration takes over from the one before

From the moment a direction is chosen to the moment the next one is, nothing
touches `xbarPrev`, `rbarPrev` and the history: neither the search along the
direction, nor the end of the iteration, nor the search for a step size in the
next one.  So the pair that is offered to the history consists of the `xbar` and
the residual of two successive choices of a direction (`Course.offered`), each of
them taken when the search for a step size of its iteration was over.
-/
import ForwardBackward.Proofs.Course

namespace ForwardBackward

set_option autoImplicit false

variable {σ R : Type} [Scalar R]

/-- Among the snapshots is the choice of a direction of the iteration `lag` before that of `s`,
and `s` still has from there what the next pair is made of. -/
def State.Recalls (vs : List (Snapshot σ R)) (lag : Nat) (s : State R) : Prop :=
  ∃ a ∈ vs, a.place = .aimed ∧ a.state.iteration + lag = s.iteration ∧
    s.xbarPrev = a.state.xbar ∧ s.rbarPrev = a.state.rbar ∧ s.history = a.state.history

/-- The pair of two successive choices of a direction was offered to the history. -/
def State.Offered (vs : List (Snapshot σ R)) (s : State R) : Prop :=
  ∃ a ∈ vs, a.place = .aimed ∧ a.state.iteration + 1 = s.iteration ∧
    a.state.history.update s.xbar a.state.xbar s.rbar a.state.rbar = .ok s.history

/-- What a state has from the snapshots before it. -/
def Place.Recalls (vs : List (Snapshot σ R)) (s : State R) : Place R → Prop
  | .resting => s.iteration ≠ 0 → s.Recalls vs 0
  | .searchingGamma _ | .measured _ | .recorded _ => s.iteration ≠ 1 → s.Recalls vs 1
  | .aimed => s.xbarPrev = s.xbar ∧ s.rbarPrev = s.rbar ∧ (s.iteration ≠ 1 → s.Offered vs)
  | .searchingTau _ _ _ | .moved _ => s.Recalls vs 0

theorem State.Recalls.append {vs us : List (Snapshot σ R)} {lag : Nat} {s : State R}
    (recalls : s.Recalls vs lag) : s.Recalls (vs ++ us) lag := by
  obtain ⟨a, inside, rest⟩ := recalls
  exact ⟨a, List.mem_append_left _ inside, rest⟩

theorem Turn.recalls {c : Config σ R} {b d : Snapshot σ R} {vs : List (Snapshot σ R)}
    (recalls : b.place.Recalls vs b.state) (turn : Turn c b d) :
    d.place.Recalls (vs ++ [b]) d.state := by
  cases turn with
  | search | skip =>
      intro later
      obtain ⟨a, inside, aimed, lag, kept⟩ :=
        recalls fun zero => later (congrArg Nat.succ zero)
      exact ⟨a, List.mem_append_left _ inside, aimed, congrArg Nat.succ lag, kept⟩
  | bounded | halve | unbounded | settle => exact fun later => (recalls later).append
  | aim offers =>
      refine ⟨rfl, rfl, fun later => ?_⟩
      obtain ⟨a, inside, aimed, lag, xbar, rbar, history⟩ := recalls later
      refine ⟨a, List.mem_append_left _ inside, aimed, lag, ?_⟩
      rw [← xbar, ← rbar, ← history]
      exact offers later
  | depart =>
      exact ⟨_, List.mem_append_right _ List.mem_cons_self, rfl, rfl, recalls.1, recalls.2.1, rfl⟩
  | accept | reject | exhaust => exact recalls.append
  | approve => exact fun _ => recalls.append

namespace Course

variable {c : Config σ R} {A : Operator σ R} {g : Prox σ R} {a b : Snapshot σ R}
  {vs : List (Snapshot σ R)}

theorem recalls (course : Course c A g a vs b)
    (start : a.place.Recalls ([] : List (Snapshot σ R)) a.state) : b.place.Recalls vs b.state := by
  induction course with
  | stay => exact start
  | move _ step ih => exact step.turn.recalls ih

/-- Every choice of a direction but the first offers the pair of itself and the one before. -/
theorem offered (course : Course c A g a vs b)
    (start : a.place.Recalls ([] : List (Snapshot σ R)) a.state) (aimed : b.place = .aimed)
    (later : b.state.iteration ≠ 1) : b.state.Offered vs := by
  have recalls := course.recalls start
  rw [aimed] at recalls
  exact recalls.2.2 later

end Course

end ForwardBackward
