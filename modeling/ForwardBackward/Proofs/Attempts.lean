/-
# ForwardBackward.Proofs.Attempts -- calls made one after the other until one is met

A search makes call after call, each in the environment that the one before it leaves
behind, and stops when an answer meets its test.  `Attempts` are such calls that were all
answered, and their environments.

`Attempts.outcome` is what becomes of a search with room for `M` of them: it makes all `M`,
or it meets with one, or one is refused, and none that it made before met the test.  The
induction is on `M`.  What is attempted, and what a search keeps of an answer, is left to the
searches.
-/
import Mathlib.Order.Nat
import ForwardBackward.Call

namespace ForwardBackward

set_option autoImplicit false

variable {σ α : Type} {make : Nat → Call σ α} {env env' : σ} {k : Nat} {t : Nat → α} {e : Nat → σ}

/-- The first `k` calls are answered with `t 0, …, t (k - 1)`, and lead through the environments
`e 0, …, e k`. -/
structure Attempts (make : Nat → Call σ α) (env : σ) (k : Nat) (t : Nat → α) (e : Nat → σ) :
    Prop where
  here : e 0 = env
  made : ∀ j < k, make j (e j) = .ok (t j) (e (j + 1))

namespace Attempts

theorem none (make : Nat → Call σ α) (env : σ) (t : Nat → α) :
    Attempts make env 0 t fun _ => env :=
  ⟨rfl, fun j less => absurd less j.not_lt_zero⟩

theorem before (attempts : Attempts make env (k + 1) t e) : Attempts make env k t e :=
  ⟨attempts.here, fun j less => attempts.made j (Nat.lt_succ_of_lt less)⟩

/-- One call more. -/
theorem extend {a : α} (attempts : Attempts make env k t e) (next : make k (e k) = .ok a env') :
    ∃ t₁ e₁, Attempts make env (k + 1) t₁ e₁ ∧ (∀ j < k, t₁ j = t j) ∧ t₁ k = a := by
  have kept : ∀ {β : Type} (f : Nat → β) (b : β) {i j : Nat}, j < i → Function.update f i b j = f j :=
    fun f b _ _ less => Function.update_of_ne less.ne b f
  refine ⟨Function.update t k a, Function.update e (k + 1) env', ⟨?_, fun j less => ?_⟩,
    fun j less => kept t a less, Function.update_self k a t⟩
  · rw [kept e env' k.succ_pos, attempts.here]
  · rw [kept e env' less]
    rcases (Nat.le_of_lt_succ less).lt_or_eq with less | rfl
    · rw [kept t a less, kept e env' (Nat.succ_lt_succ less)]
      exact attempts.made j less
    · rw [Function.update_self, Function.update_self]
      exact next

/-- A search with room for `M` calls makes all of them, or meets with one, or one is refused. -/
theorem outcome [Nonempty α] (make : Nat → Call σ α) (met : α → Bool) (env : σ) (M : Nat) :
    ∃ k t e, Attempts make env k t e ∧ (∀ j < k, met (t j) = false) ∧
      (k = M ∨ k < M ∧ ((∃ a env', make k (e k) = .ok a env' ∧ met a = true) ∨
        ∃ fault env', make k (e k) = .error fault env')) := by
  induction M with
  | zero =>
      obtain ⟨a⟩ := ‹Nonempty α›
      exact ⟨0, fun _ => a, _, none make env _, fun j less => absurd less j.not_lt_zero, .inl rfl⟩
  | succ M ih =>
      obtain ⟨k, t, e, attempts, unmet, rfl | ⟨less, ends⟩⟩ := ih
      · cases next : make k (e k) with
        | error fault env' =>
            exact ⟨k, t, e, attempts, unmet,
              .inr ⟨Nat.lt_succ_self k, .inr ⟨fault, env', next⟩⟩⟩
        | ok a env' =>
            cases test : met a with
            | true =>
                exact ⟨k, t, e, attempts, unmet,
                  .inr ⟨Nat.lt_succ_self k, .inl ⟨a, env', next, test⟩⟩⟩
            | false =>
                obtain ⟨t₁, e₁, attempts₁, same, last⟩ := attempts.extend next
                refine ⟨k + 1, t₁, e₁, attempts₁, fun j less => ?_, .inl rfl⟩
                rcases (Nat.le_of_lt_succ less).lt_or_eq with less | rfl
                · rw [same j less]
                  exact unmet j less
                · rw [last]
                  exact test
      · exact ⟨k, t, e, attempts, unmet, .inr ⟨Nat.lt_succ_of_lt less, ends⟩⟩

end Attempts

end ForwardBackward
