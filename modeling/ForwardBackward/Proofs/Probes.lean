/-
# ForwardBackward.Proofs.Probes -- what the first step size is estimated from

An estimate moves the iterate by the root of the machine epsilon in every entry and
looks at the change of the gradient.  What it meets on the way is a *probe*
(`State.Probes`): the machine epsilon, the change, and the number of entries.

With the probe all is said.  The estimate is one quotient (`State.lipschitzOf`), and the
step size is what is left of it, or of `1` where the quotient is of no use
(`State.usableGamma`); the state only counts two products, and the estimate is refused if
and only if the quotient is (`State.Probes.estimateGamma_answers`,
`State.Probes.estimateGamma_refused`).

An operator that gives arrays of fractions for arrays of fractions, whatever numbers they
are, always gets that far (`State.probes_of_fractional`).
-/
import ForwardBackward.Proofs.Directions
import ForwardBackward.Proofs.Effects

namespace ForwardBackward

set_option autoImplicit false

variable {σ R : Type} [Scalar R]

/-! ## Sizes and precisions -/

namespace NDArray

theorem isBare_shift (c : R) (a : NDArray R) : (a.shift c).isBare = a.isBare :=
  Entries.isBare_mapInexact (fun p x => p.add x (p.ofNumber c)) _ a.entries

theorem shift_inexact (c : R) (a : NDArray R) : (a.shift c).Inexact := by
  intro w whole
  unfold shift map kind at whole
  dsimp only at whole
  cases same : a.entries with
  | whole | real | complex =>
      rw [same] at whole
      cases whole

end NDArray

namespace Vec

variable {S : Structure} {x y : Vec R}

theorem OfShape.requireArray (hx : x.OfShape S) (property : String) :
    x.traverse (NDArray.requireArray property) = .ok x := by
  refine Tree.traverse_self fun a inside => ?_
  unfold NDArray.requireArray
  rw [NDArray.bare?_of_firm (hx.solid a inside)]

/-- Arrays have the entries that their structure tells. -/
theorem OfShape.size (hx : x.OfShape S) : x.size = .ok S.dimension := by
  have counts : x.leaves.foldr (fun a n => a.size + n) 0 = S.dimension := by
    have leaves := hx.leaves
    unfold Structure.dimension
    generalize S.leaves = ps at leaves ⊢
    generalize x.leaves = as at leaves ⊢
    induction leaves with
    | nil => rfl
    | cons ofShape _ ih =>
        rw [List.foldr_cons, List.map_cons, List.sum_cons, ih, NDArray.size, ofShape.shape]
  unfold Vec.size
  rw [hx.requireArray]
  exact congrArg Except.ok counts

/-- The first array of fractions has a precision, and with it a machine epsilon. -/
theorem Fractional.machineEps (hx : x.Fractional S) (occupied : S.leaves ≠ []) :
    ∃ p : Precision, x.machineEps = .ok p.eps := by
  obtain ⟨_, leaves⟩ := hx
  unfold Vec.machineEps
  generalize S.leaves = ps at leaves occupied
  generalize x.leaves = as at leaves
  cases leaves with
  | nil => exact absurd rfl occupied
  | @cons _ a _ _ fractional _ =>
      simp only [NDArray.requireArray, NDArray.bare?_of_firm fractional.notBare, bind, Except.bind]
      split
      · next w whole => exact absurd whole (fractional.inexact w)
      · next p _ => exact ⟨p, rfl⟩
      · next p _ => exact ⟨p, rfl⟩

theorem Fractional.shift (hx : x.Fractional S) (c : R) : (x.shift c).Fractional S :=
  hx.map fun _ _ a ha => ⟨⟨ha.shape, (NDArray.isBare_shift c a).trans ha.notBare⟩,
    NDArray.shift_inexact c a⟩

end Vec

/-- An operator that gives arrays of fractions of its structures, whatever numbers they are. -/
structure Operator.Fractional (A : Operator σ R) : Prop where
  apply {x : Vec R} (env : σ) : x.Fractional A.domain →
    ∃ y env', A.apply x env = .ok y env' ∧ y.Fractional A.codomain
  adjoint {y : Vec R} (env : σ) : y.Fractional A.codomain →
    ∃ x env', A.applyAdjoint y env = .ok x env' ∧ x.Fractional A.domain

/-! ## Probes -/

namespace State

variable {A : Operator σ R} {s : State R} {env env' : σ} {eps : R} {change : Vec R} {n : Nat}

/-- The change of the gradient for a move by `delta` in every entry, and the environment behind two
products. -/
def Changes (A : Operator σ R) (s : State R) (delta : R) (env : σ) (change : Vec R) (env' : σ) :
    Prop :=
  ∃ ax env₁ grad r, A.apply (s.x.shift delta) env = .ok ax env₁ ∧
    A.applyAdjoint ax env₁ = .ok grad env' ∧ s.grad.sub grad = .ok r ∧ r.asArrays = .ok change

/-- What an estimate meets: the machine epsilon, the change of the gradient for a move by its root,
and the number of entries. -/
structure Probes (A : Operator σ R) (s : State R) (env : σ) (eps : R) (change : Vec R) (n : Nat)
    (env' : σ) : Prop where
  spacing : s.x.machineEps = .ok eps
  changes : s.Changes A (Scalar.sqrt eps) env change env'
  counts : s.x.size = .ok n

/-- The state behind an estimate. -/
def probed (s : State R) : State R := { s with operatorCalls := s.operatorCalls + 2 }

/-- The estimate of the Lipschitz constant from a move by `delta` in `n` entries; refused if nothing
can be divided by the norm of the move. -/
def lipschitzOf (delta : R) (change : Vec R) (n : Nat) : Except Fault R :=
  Scalar.quotient change.norm (delta * Scalar.sqrt (Scalar.ofInt n))

/-- The step size for an estimate, which counts as `1` where it is of no use. -/
def usableGamma (eps lipschitz : R) : R :=
  if Scalar.isFinite lipschitz && !Scalar.le lipschitz eps then gammaFor lipschitz else gammaFor 1

namespace Probes

theorem estimateLipschitz_eq (probes : s.Probes A env eps change n env') :
    s.estimateLipschitz A env =
      (do pure (← liftM (lipschitzOf (Scalar.sqrt eps) change n), s.probed) :
        Call σ (R × State R)) env' := by
  obtain ⟨spacing, ⟨ax, env₁, grad, r, image, back, difference, arrays⟩, counts⟩ := probes
  have delta : s.x.sqrtEps = .ok (Scalar.sqrt eps) := by
    unfold Vec.sqrtEps
    rw [spacing]
    rfl
  have first : s.callOperator A.apply (s.x.shift (Scalar.sqrt eps)) env =
      .ok (ax, { s with operatorCalls := s.operatorCalls + 1 }) env₁ := bind_of_returns image _
  have second : { s with operatorCalls := s.operatorCalls + 1 : State R }.callOperator
      A.applyAdjoint ax env₁ = .ok (grad, s.probed) env' := bind_of_returns back _
  unfold estimateLipschitz
  rw [delta, lift_ok, pure_bind, bind_of_returns first]
  dsimp only
  rw [bind_of_returns second]
  dsimp only [probed]
  rw [difference, lift_ok, pure_bind, arrays, lift_ok, pure_bind, counts, lift_ok, pure_bind]
  rfl

theorem estimateGamma_answers (probes : s.Probes A env eps change n env') {lipschitz : R}
    (divided : lipschitzOf (Scalar.sqrt eps) change n = .ok lipschitz) (verbosity : Verbosity)
    (notes : Array (Note R)) :
    ∃ notes', s.estimateGamma A verbosity ⟨env, notes⟩ =
      .ok (usableGamma eps lipschitz, s.probed) ⟨env', notes'⟩ := by
  have estimated : Run.call (s.estimateLipschitz A) (⟨env, notes⟩ : World σ R) =
      .ok (lipschitz, s.probed) ⟨env', notes⟩ := by
    refine Run.call_returns.mpr ⟨env', ?_, rfl⟩
    rw [probes.estimateLipschitz_eq, divided]
    rfl
  have spacing : s.probed.x.machineEps = .ok eps := probes.spacing
  unfold estimateGamma
  rw [Run.lift_call, bind_of_returns estimated]
  dsimp only
  rw [spacing, Run.lift_refuse, Run.refuse_ok, pure_bind]
  unfold usableGamma
  split
  · exact ⟨notes, rfl⟩
  · -- The fallback may leave a note, and that is all that the verbosity decides.
    split
    · exact ⟨_, rfl⟩
    · exact ⟨notes, rfl⟩

theorem estimateGamma_refused (probes : s.Probes A env eps change n env') {fault : Fault}
    (refused : lipschitzOf (Scalar.sqrt eps) change n = .error fault) (verbosity : Verbosity)
    (notes : Array (Note R)) :
    s.estimateGamma A verbosity ⟨env, notes⟩ = .error (.fault fault) ⟨env', notes⟩ := by
  have failed : Run.call (s.estimateLipschitz A) (⟨env, notes⟩ : World σ R) =
      .error (.fault fault) ⟨env', notes⟩ := by
    unfold Run.call
    dsimp only
    rw [probes.estimateLipschitz_eq, refused]
    rfl
  unfold estimateGamma
  rw [Run.lift_call]
  exact bind_of_fails failed _

end Probes

/-- Arrays of fractions are all that a probe needs. -/
theorem probes_of_fractional (answers : A.Fractional) (hx : s.x.Fractional A.domain)
    (hgrad : s.grad.Fractional A.domain) (occupied : A.domain.leaves ≠ []) (env : σ) :
    ∃ (p : Precision) (change : Vec R) (env' : σ),
      s.Probes A env p.eps change A.domain.dimension env' := by
  obtain ⟨p, spacing⟩ := hx.machineEps occupied
  obtain ⟨ax, env₁, image, hax⟩ := answers.apply env (hx.shift (Scalar.sqrt p.eps))
  obtain ⟨grad, env', back, hback⟩ := answers.adjoint env₁ hax
  obtain ⟨change, difference, hchange⟩ := hgrad.sub hback.ofShape
  have arrays : change.asArrays = .ok change := Vec.asArrays_of_solid hchange.ofShape.solid
  exact ⟨p, change, env', spacing, ⟨ax, env₁, grad, change, image, back, difference, arrays⟩,
    hx.ofShape.size⟩

end State

end ForwardBackward
