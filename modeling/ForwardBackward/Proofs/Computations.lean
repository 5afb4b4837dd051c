/-
# ForwardBackward.Proofs.Computations -- calls and runs that return

A computation in steps returns if each of its steps does, every step in the
environment or world that the one before leaves behind (`bind_returns`).  Nothing
is undone and nothing is caught, so a run that returned can be read from its end
to its beginning.
-/
import ForwardBackward.Run

namespace ForwardBackward

set_option autoImplicit false

section Steps

variable {ε σ α β : Type}

theorem bind_returns {m : EStateM ε σ α} {f : α → EStateM ε σ β} {w w' : σ} {b : β} :
    (m >>= f) w = .ok b w' ↔ ∃ a w₁, m w = .ok a w₁ ∧ f a w₁ = .ok b w' := by
  change EStateM.bind m f w = _ ↔ _
  unfold EStateM.bind
  cases m w with
  | ok a w₁ =>
      constructor
      · exact fun returned => ⟨a, w₁, rfl, returned⟩
      · rintro ⟨_, _, first, returned⟩
        cases first
        exact returned
  | error => simp

theorem bind_of_returns {m : EStateM ε σ α} {w w₁ : σ} {a : α} (returned : m w = .ok a w₁)
    (f : α → EStateM ε σ β) : (m >>= f) w = f a w₁ := by
  change EStateM.bind m f w = _
  unfold EStateM.bind
  rw [returned]

theorem bind_of_fails {m : EStateM ε σ α} {w w₁ : σ} {e : ε} (failed : m w = .error e w₁)
    (f : α → EStateM ε σ β) : (m >>= f) w = .error e w₁ := by
  change EStateM.bind m f w = _
  unfold EStateM.bind
  rw [failed]

/-- A failure is that of the first step, or of what follows where the first step left off. -/
theorem bind_fails {m : EStateM ε σ α} {f : α → EStateM ε σ β} {w w' : σ} {e : ε} :
    (m >>= f) w = .error e w' ↔
      m w = .error e w' ∨ ∃ a w₁, m w = .ok a w₁ ∧ f a w₁ = .error e w' := by
  change EStateM.bind m f w = _ ↔ _
  unfold EStateM.bind
  cases m w with
  | ok a w₁ =>
      constructor
      · exact fun failed => .inr ⟨a, w₁, rfl, failed⟩
      · rintro (failed | ⟨_, _, first, failed⟩)
        · cases failed
        · cases first
          exact failed
  | error => simp

theorem pure_returns {a b : α} {w w' : σ} :
    (pure a : EStateM ε σ α) w = .ok b w' ↔ b = a ∧ w' = w := by
  change EStateM.Result.ok a w = _ ↔ _
  rw [EStateM.Result.ok.injEq, eq_comm (a := a), eq_comm (a := w)]

theorem throw_returns {e : ε} {a : α} {w w' : σ} :
    (throw e : EStateM ε σ α) w = .ok a w' ↔ False := by
  change EStateM.Result.error e w = _ ↔ _
  simp

/-- Refusals in steps. -/
theorem bind_accepts {x : Except ε α} {f : α → Except ε β} {b : β} :
    (x >>= f) = .ok b ↔ ∃ a, x = .ok a ∧ f a = .ok b := by
  cases x <;> simp [bind, Except.bind]

theorem pure_accepts {a b : α} : (pure a : Except ε α) = .ok b ↔ b = a := by
  simp [pure, Except.pure, eq_comm]

end Steps

variable {σ R α : Type}

/-- A refusal as a step of a call. -/
theorem lift_returns {x : Except Fault α} {a : α} {env env' : σ} :
    (liftM x : Call σ α) env = .ok a env' ↔ x = .ok a ∧ env' = env := by
  cases x with
  | ok b =>
      change (pure b : Call σ α) env = _ ↔ _
      rw [pure_returns, Except.ok.injEq, eq_comm (a := a)]
  | error e =>
      change (throw e : Call σ α) env = _ ↔ _
      simp [throw_returns]

theorem lift_ok (a : α) : (liftM (Except.ok a : Except Fault α) : Call σ α) = pure a := rfl

namespace Run

theorem call_returns {c : Call σ α} {a : α} {w w' : World σ R} :
    call c w = .ok a w' ↔ ∃ env, c w.env = .ok a env ∧ w' = { w with env := env } := by
  unfold call
  cases c w.env with
  | ok b env =>
      constructor
      · intro returned
        cases returned
        exact ⟨env, rfl, rfl⟩
      · rintro ⟨_, made, rfl⟩
        cases made
        rfl
  | error => simp

theorem call_pure (a : α) : (call (pure a) : Run σ R α) = pure a := rfl

theorem call_bind {β : Type} (c : Call σ α) (f : α → Call σ β) :
    (call (c >>= f) : Run σ R β) = call c >>= fun a => call (f a) := by
  funext w
  change call (EStateM.bind c f) w = EStateM.bind (call c) (fun a => call (f a)) w
  cases made : c w.env with
  | ok a env => simp only [call, EStateM.bind, made]
  | error e env => simp only [call, EStateM.bind, made]

theorem refuse_returns {x : Except Fault α} {a : α} {w w' : World σ R} :
    (refuse x : Run σ R α) w = .ok a w' ↔ x = .ok a ∧ w' = w := by
  cases x with
  | ok b => simp [refuse, pure_returns, eq_comm]
  | error => simp [refuse, throw_returns]

theorem call_lift (x : Except Fault α) : (call (liftM x : Call σ α) : Run σ R α) = refuse x := by
  cases x <;> rfl

theorem refuse_ok (a : α) : (refuse (.ok a) : Run σ R α) = pure a := rfl

theorem lift_call (c : Call σ α) : (liftM c : Run σ R α) = call c := rfl

theorem lift_refuse (x : Except Fault α) : (liftM x : Run σ R α) = refuse x := rfl

end Run

end ForwardBackward
