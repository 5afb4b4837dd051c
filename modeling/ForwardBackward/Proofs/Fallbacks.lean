/-
# ForwardBackward.Proofs.Fallbacks -- when an estimate gives a step size

Whatever an operator answers, not-a-numbers and infinities included, its estimate is a
number of doubles, and the two tests behind the quotient catch what is of no use: the
step size is positive, and at most what is left of `1`, divided by the machine epsilon
(`Double.usableGamma_bounds`).

The tests stand behind the quotient, and the quotient has a divisor.  That one is the
norm of the move, the root of the machine epsilon times the root of the number of
entries.  It never rounds to zero (`Double.moved_nonzero`), but without entries it is
zero, and then no test is reached: `State.estimateGamma_outcome` for both, and
`Hollow.refuses_empty` for an empty variable, which the estimate refuses and the
fallback was meant for.
-/
import ForwardBackward.Proofs.Doubles
import ForwardBackward.Proofs.Probes

namespace ForwardBackward

set_option autoImplicit false

variable {σ : Type}

/-! ## The divisor and the tests -/

namespace Double

variable {n : ℕ} {p : Precision} {x : Float}

/-- The norm of a move in `n` entries is not rounded to zero. -/
theorem moved_nonzero (entries : n ≠ 0) :
    Scalar.eq (Scalar.sqrt p.eps * Scalar.sqrt (Scalar.ofInt n) : Float) 0 = false := by
  have spacing : AtLeast (2 * -26) p.eps :=
    (eps_is p).power_atLeast (by cases p <;> simp [epsPlace])
  have count : AtLeast (2 * 0) (Scalar.ofInt n) := ofInt_atLeast entries
  exact ((spacing.sqrt (by norm_num)).mul (count.sqrt (by norm_num)) (by norm_num)).nonzero

/-- Without entries there is no move. -/
theorem moved_zero :
    Scalar.eq (Scalar.sqrt p.eps * Scalar.sqrt (Scalar.ofInt (0 : ℕ)) : Float) 0 = true := by
  cases p <;> decide +kernel

/-- The largest step size that an estimate gives. -/
theorem largest_eq :
    Scalar.max (1 - safety) ((1 - safety) / p.eps) = ((1 - safety) / p.eps : Float) := by
  cases p <;> rfl

theorem usableGamma_bounds (p : Precision) (lipschitz : Float) :
    Positive (State.usableGamma p.eps lipschitz) ∧
      Scalar.le (State.usableGamma p.eps lipschitz)
        (Scalar.max (1 - safety) ((1 - safety) / p.eps)) = true := by
  rw [largest_eq]
  unfold State.usableGamma
  split
  · next usable =>
    rw [Bool.and_eq_true, Bool.not_eq_true'] at usable
    obtain ⟨m, e, is, small⟩ := inverse_is usable.1 usable.2
    exact ⟨⟨is.isFinite, is.positive⟩, (is.le_iff (largest_is p)).mpr small⟩
  · cases p <;> exact ⟨⟨rfl, rfl⟩, rfl⟩

end Double

/-! ## The estimate -/

/-- What the estimate of the first step size comes to, for every variable of arrays of fractions
with a leaf, every such gradient, and every operator that answers such arrays, whatever numbers are
in them.

* If the variable has an entry, a finite and positive step size, at most what is left of `1` or of
  the inverse of the machine epsilon; and the state is as before, with two products more.
* If it has none, a division by zero. -/
theorem State.estimateGamma_outcome {A : Operator σ Float} (answers : A.Fractional)
    {s : State Float} (hx : s.x.Fractional A.domain) (hgrad : s.grad.Fractional A.domain)
    (occupied : A.domain.leaves ≠ []) (verbosity : Verbosity) (w : World σ Float) :
    ∃ p : Precision, s.x.machineEps = .ok p.eps ∧
      (A.domain.dimension ≠ 0 → ∃ gamma w', s.estimateGamma A verbosity w =
          .ok (gamma, { s with operatorCalls := s.operatorCalls + 2 }) w' ∧ Positive gamma ∧
        Scalar.le gamma (Scalar.max (1 - safety) ((1 - safety) / p.eps)) = true) ∧
      (A.domain.dimension = 0 →
        ∃ w', s.estimateGamma A verbosity w = .error (.fault .divisionByZero) w') := by
  obtain ⟨p, change, env', probes⟩ := probes_of_fractional answers hx hgrad occupied w.env
  refine ⟨p, probes.spacing, fun entries => ?_, fun empty => ?_⟩
  · have divided : lipschitzOf (Scalar.sqrt p.eps) change A.domain.dimension = .ok _ :=
      if_neg (Bool.eq_false_iff.mp (Double.moved_nonzero entries))
    obtain ⟨notes, answered⟩ := probes.estimateGamma_answers divided verbosity w.notes
    obtain ⟨positive, small⟩ := Double.usableGamma_bounds p
      (change.norm / (Scalar.sqrt p.eps * Scalar.sqrt (Scalar.ofInt A.domain.dimension)))
    exact ⟨_, ⟨env', notes⟩, answered, positive, small⟩
  · have refused : lipschitzOf (Scalar.sqrt p.eps) change A.domain.dimension =
        .error .divisionByZero := by
      rw [empty]
      exact if_pos Double.moved_zero
    exact ⟨⟨env', w.notes⟩, probes.estimateGamma_refused refused verbosity w.notes⟩

/-! ## Two estimates -/

namespace Hollow

/-- One array of doubles. -/
def arrayOf (xs : List Float) : Vec Float :=
  .leaf ⟨[xs.length], .real .double xs, by simp [volume]; rfl⟩

/-- The structure of one array of `n` doubles. -/
def arrays (n : ℕ) : Structure := .leaf ⟨[n], .real .double⟩

theorem arrayOf_fractional (xs : List Float) : (arrayOf xs).Fractional (arrays xs.length) :=
  ⟨rfl, .cons ⟨⟨rfl, rfl⟩, nofun⟩ .nil⟩

/-- An operator that has one answer, whatever it is given. -/
def always (xs : List Float) : Operator Unit Float where
  isLinear := true
  domain := arrays xs.length
  codomain := arrays xs.length
  apply _ := pure (arrayOf xs)
  applyLinear _ := pure (arrayOf xs)
  applyAdjoint _ := pure (arrayOf xs)

theorem always_fractional (xs : List Float) : (always xs).Fractional where
  apply _ _ := ⟨_, _, rfl, arrayOf_fractional xs⟩
  adjoint _ _ := ⟨_, _, rfl, arrayOf_fractional xs⟩

/-- A state at these numbers, with a gradient of zero. -/
def state (xs : List Float) : State Float :=
  { State.start (arrayOf xs) 0 with grad := arrayOf (xs.map fun _ => 0) }

def world : World Unit Float := ⟨(), #[]⟩

/-- An operator that answers with a not-a-number is estimated as well. -/
theorem undefined_answer_is_estimated : ∃ p : Precision, ∃ gamma w',
    (state [1]).estimateGamma (always [Scalar.undefined]) .off world =
      .ok (gamma, (state [1]).probed) w' ∧ Positive gamma ∧
    Scalar.le gamma (Scalar.max (1 - safety) ((1 - safety) / p.eps)) = true := by
  obtain ⟨p, _, estimated, _⟩ := State.estimateGamma_outcome (always_fractional [Scalar.undefined])
    (s := state [1]) (arrayOf_fractional [1]) (arrayOf_fractional [0]) (by decide) .off world
  exact ⟨p, estimated (by decide)⟩

/-- A variable without entries is one of arrays of fractions, and has a leaf.  Its estimate is
refused. -/
theorem refuses_empty : (always []).Fractional ∧ (state []).x.Fractional (always []).domain ∧
    (state []).grad.Fractional (always []).domain ∧ (always []).domain.leaves ≠ [] ∧
    ∃ w', (state []).estimateGamma (always []) .off world =
      .error (.fault .divisionByZero) w' := by
  have hx : (state []).x.Fractional (always []).domain := arrayOf_fractional []
  have hgrad : (state []).grad.Fractional (always []).domain := arrayOf_fractional []
  have occupied : (always []).domain.leaves ≠ [] := by decide
  obtain ⟨p, change, env', probes⟩ :=
    State.probes_of_fractional (always_fractional []) hx hgrad occupied ()
  have refused : State.lipschitzOf (Scalar.sqrt p.eps) change (always []).domain.dimension =
      .error .divisionByZero := if_pos Double.moved_zero
  exact ⟨always_fractional [], hx, hgrad, occupied, _,
    probes.estimateGamma_refused refused .off #[]⟩

end Hollow

end ForwardBackward
