/-
# ForwardBackward.Proofs.Lengths -- what the search along a direction computes

The search computes `L d` and `Lᴴ L d` once.  Then it tries the lengths `1, 0.4, 0.4², …` from
the anchor `xbarPrev`, until the envelope at a trial is at most the level.

A trial overwrites ten fields of the state, and the next one is computed from the state that it
leaves.  None of the ten is read by it: a trial is computed from the `Line` of the state alone,
that is from the anchor with its image and gradient, the direction with its images, and the step
size, and no trial touches those.  So every trial is the `Candidate` of its length on the line
of the state that the search began with (`State.tauTrial_after`), a refusal included.

* `State.tauTrials_advance` -- as long as no candidate is low enough the loop goes from one to
  the next, by induction on their number.
* `State.tauSearch_outcome` -- the search stops at the first candidate that is low enough, or
  with the last one if none is; nothing else is returned, and a refusal is that of `L d`, of
  `Lᴴ L d`, or of a candidate.

Nothing is asked of the arithmetic.  A level or a value that is not a number fails the test, and
where all of them do, the search ends with its last candidate (`State.tauSearch_of_isNaN`).
-/
import ForwardBackward.Proofs.Attempts
import ForwardBackward.Proofs.Comparisons
import ForwardBackward.Proofs.Searches

namespace ForwardBackward

set_option autoImplicit false

variable {σ R : Type} [Scalar R]

/-! ## Candidates -/

/-- What is computed at one length: the point on the line with its image, smooth term and
gradient, and the step from there with its envelope. -/
structure Candidate (R : Type) [Scalar R] where
  x : Vec R
  ax : Vec R
  fx : R
  grad : Vec R
  xbar : Vec R
  gxbar : R
  r : Vec R
  residual : R
  bound : R

namespace Candidate

/-- The envelope at the candidate. -/
def value (c : Candidate R) : R := c.bound + c.gxbar

/-- Whether the envelope is at most the level. -/
def lowers (level : R) (c : Candidate R) : Bool := Scalar.le c.value level

/-- A test with a not-a-number on either side is not met. -/
theorem unmet_of_isNaN [Comparing R] {level : R} {c : Candidate R}
    (undefined : Scalar.isNaN c.value = true ∨ Scalar.isNaN level = true) :
    c.lowers level = false := by
  refine Bool.eq_false_iff.mpr fun met => ?_
  obtain ⟨value, bar⟩ := Comparing.numbers met
  rcases undefined with h | h
  · exact absurd (h.symm.trans value) (by decide)
  · exact absurd (h.symm.trans bar) (by decide)

end Candidate

/-- What the candidates are computed from: a point with its image and gradient, a direction with
its two images, and the step size. -/
structure Line (R : Type) [Scalar R] where
  anchor : Vec R
  image : Vec R
  slope : Vec R
  d : Vec R
  ld : Vec R
  lld : Vec R
  gamma : R

/-- The candidate at the length `tau`. -/
def Line.candidate (l : Line R) (g : Prox σ R) (tau : R) : Call σ (Candidate R) := do
  let x ← Vec.axpy tau l.d l.anchor
  let ax ← Vec.axpy tau l.ld l.image
  let fx := 0.5 * (← ax.sqnorm)
  let grad ← Vec.axpy tau l.lld l.slope
  let (xbar, gxbar) ← forwardBackwardStep g x grad l.gamma
  let e ← envelope x xbar gxbar fx grad l.gamma
  pure ⟨x, ax, fx, grad, xbar, gxbar, e.r, e.residual, e.bound⟩

theorem Line.candidate_of_returns {l : Line R} {g : Prox σ R} {tau square : R} {x ax grad : Vec R}
    {p : Vec R × R} {e : Envelope R} {env env' : σ} (moved : Vec.axpy tau l.d l.anchor = .ok x)
    (image : Vec.axpy tau l.ld l.image = .ok ax) (squared : ax.sqnorm = .ok square)
    (slope : Vec.axpy tau l.lld l.slope = .ok grad)
    (stepped : forwardBackwardStep g x grad l.gamma env = .ok p env')
    (enveloped : envelope x p.1 p.2 (0.5 * square) grad l.gamma = .ok e) :
    l.candidate g tau env =
      .ok ⟨x, ax, 0.5 * square, grad, p.1, p.2, e.r, e.residual, e.bound⟩ env' := by
  simp only [candidate, moved, image, squared, slope, lift_ok, pure_bind, bind_of_returns stepped,
    enveloped]
  rfl

namespace State

variable {A : Operator σ R} {g : Prox σ R} {s : State R} {level : R} {t : Nat → Candidate R}
  {c : Candidate R} {e : Nat → σ} {env env' : σ} {k : Nat}

/-- The `k`-th length, counted from zero. -/
def lengthAt (k : Nat) : R := (· * tauFactor)^[k] 1

/-- `L d` and `Lᴴ L d`, for the direction of the state. -/
def directionImages (s : State R) (A : Operator σ R) : Call σ (Vec R × Vec R) := do
  let ld ← A.linearPart.apply s.d
  let lld ← A.applyAdjoint ld
  pure (ld, lld)

/-- The state with `L d` and `Lᴴ L d`, two calls of the operator later. -/
def withImages (s : State R) (images : Vec R × Vec R) : State R :=
  { s with ld := images.1, lld := images.2, operatorCalls := s.operatorCalls + 2 }

/-- The line of a state. -/
def line (s : State R) : Line R :=
  ⟨s.xbarPrev, s.axbar, s.gradbar, s.d, s.ld, s.lld, s.gamma⟩

/-- The state with its `k`-th candidate: that many proximal steps and one more were made, and
nothing is touched but the length and what belongs to the candidate. -/
def atCandidate (s : State R) (k : Nat) (c : Candidate R) : State R :=
  { s with
    tau := lengthAt k
    x := c.x, ax := c.ax, fx := c.fx, grad := c.grad, xbar := c.xbar, gxbar := c.gxbar, r := c.r
    residual := c.residual, bound := c.bound
    proxCalls := s.proxCalls + (k + 1) }

/-- The state behind the candidates before the `k`-th. -/
def afterCandidates (s : State R) (t : Nat → Candidate R) : Nat → State R
  | 0 => s
  | k + 1 => s.atCandidate k (t k)

/-- The state with one more search along a direction that ran out of candidates. -/
def outOfCandidates (s : State R) : State R := { s with tauFailures := s.tauFailures + 1 }

/-- The candidates `t 0, …, t (k - 1)` of a state and the environments that they were made in,
the first of which is `env`. -/
abbrev Candidates (g : Prox σ R) (s : State R) (env : σ) (k : Nat) (t : Nat → Candidate R)
    (e : Nat → σ) : Prop :=
  Attempts (fun j => s.line.candidate g (lengthAt j)) env k t e

theorem evaluateDirection_eq :
    s.evaluateDirection A = s.withImages <$> s.directionImages A := by
  simp only [evaluateDirection, callOperator, directionImages, bind_assoc, pure_bind, map_bind,
    map_pure]
  rfl

theorem lengthAt_succ (k : Nat) : (lengthAt k : R) * tauFactor = lengthAt (k + 1) :=
  (Function.iterate_succ_apply' (· * tauFactor) k 1).symm

/-- A trial is the next candidate of the state that the search began with. -/
theorem tauTrial_after (t : Nat → Candidate R) : (s.afterCandidates t k).tauTrial g (lengthAt k) =
    s.atCandidate k <$> s.line.candidate g (lengthAt k) := by
  cases k <;>
    simp only [afterCandidates, tauTrial, step, callProx, Line.candidate, line, atCandidate,
      bind_assoc, pure_bind, map_bind, map_pure, Nat.add_assoc]

/-! ## The loop -/

/-- As long as no candidate is low enough, the loop goes from one to the next. -/
theorem tauTrials_advance (candidates : s.Candidates g env k t e)
    (unmet : ∀ j < k, (t j).lowers level = false) (n : Nat) :
    tauTrials g level (n + k) (lengthAt 0) s env =
      tauTrials g level n (lengthAt k) (s.afterCandidates t k) (e k) := by
  induction k generalizing n with
  | zero =>
      rw [candidates.here]
      rfl
  | succ k ih =>
      have tried : (s.afterCandidates t k).tauTrial g (lengthAt k) (e k) =
          .ok (s.afterCandidates t (k + 1)) (e (k + 1)) := by
        rw [tauTrial_after, ← bind_pure_comp,
          bind_of_returns (candidates.made k (Nat.lt_succ_self k))]
        rfl
      have here : Scalar.le (s.afterCandidates t (k + 1)).value level = false :=
        unmet k (Nat.lt_succ_self k)
      rw [← Nat.succ_add_eq_add_succ,
        ih candidates.before (fun j less => unmet j (Nat.lt_succ_of_lt less)) (n + 1), tauTrials,
        bind_of_returns tried, here, lengthAt_succ]
      rfl

/-- The loop stops at the first candidate that is low enough. -/
theorem tauTrials_met {M : Nat} (candidates : s.Candidates g env k t e) (within : k < M)
    (unmet : ∀ j < k, (t j).lowers level = false)
    (next : s.line.candidate g (lengthAt k) (e k) = .ok c env') (met : c.lowers level = true) :
    tauTrials g level M (lengthAt 0) s env = .ok (true, s.atCandidate k c) env' := by
  have tried : (s.afterCandidates t k).tauTrial g (lengthAt k) (e k) =
      .ok (s.atCandidate k c) env' := by
    rw [tauTrial_after, ← bind_pure_comp, bind_of_returns next]
    rfl
  have here : Scalar.le (s.atCandidate k c).value level = true := met
  obtain ⟨n, rfl⟩ := Nat.exists_eq_add_of_le' (Nat.succ_le_of_lt within)
  rw [← Nat.succ_add_eq_add_succ, tauTrials_advance candidates unmet (n + 1), tauTrials,
    bind_of_returns tried, here]
  rfl

/-- The loop stops with its last candidate if none is low enough. -/
theorem tauTrials_unmet {M : Nat} (candidates : s.Candidates g env (M + 1) t e)
    (unmet : ∀ j ≤ M, (t j).lowers level = false) :
    tauTrials g level (M + 1) (lengthAt 0) s env =
      .ok (false, (s.atCandidate M (t M)).outOfCandidates) (e (M + 1)) := by
  have advanced := tauTrials_advance candidates (fun j less => unmet j (Nat.le_of_lt_succ less)) 0
  rw [Nat.zero_add] at advanced
  exact advanced

/-- The loop stops with a candidate that is refused. -/
theorem tauTrials_refused {M : Nat} {fault : Fault} (candidates : s.Candidates g env k t e)
    (within : k < M) (unmet : ∀ j < k, (t j).lowers level = false)
    (refused : s.line.candidate g (lengthAt k) (e k) = .error fault env') :
    tauTrials g level M (lengthAt 0) s env = .error fault env' := by
  have failed : (s.afterCandidates t k).tauTrial g (lengthAt k) (e k) = .error fault env' := by
    rw [tauTrial_after, ← bind_pure_comp, bind_of_fails refused]
  obtain ⟨n, rfl⟩ := Nat.exists_eq_add_of_le' (Nat.succ_le_of_lt within)
  rw [← Nat.succ_add_eq_add_succ, tauTrials_advance candidates unmet (n + 1), tauTrials,
    bind_of_fails failed]

/-! ## The search -/

theorem tauSearch_of_images {images : Vec R × Vec R} {env₁ : σ} {budget : Count R} {M : Nat}
    (counted : budget.toNat = .ok M) (imaged : s.directionImages A env = .ok images env₁) :
    s.tauSearch A g level budget env =
      tauTrials g level M (lengthAt 0) (s.withImages images) env₁ := by
  rw [tauSearch, counted, lift_ok, evaluateDirection_eq, map_eq_pure_bind, bind_assoc,
    bind_of_returns imaged]
  rfl

theorem tauSearch_of_refusal {budget : Count R} {fault : Fault}
    (refused : s.directionImages A env = .error fault env') :
    s.tauSearch A g level budget env = .error fault env' := by
  rw [tauSearch, evaluateDirection_eq, map_eq_pure_bind, bind_assoc, bind_of_fails refused]

/-- A search that meets a not-a-number in all of its tests ends with its last candidate. -/
theorem tauSearch_of_isNaN [Comparing R] {images : Vec R × Vec R} {env₁ : σ} {budget : Count R}
    {M : Nat} (counted : budget.toNat = .ok (M + 1))
    (imaged : s.directionImages A env = .ok images env₁)
    (candidates : (s.withImages images).Candidates g env₁ (M + 1) t e)
    (undefined : ∀ j ≤ M, Scalar.isNaN (t j).value = true ∨ Scalar.isNaN level = true) :
    s.tauSearch A g level budget env =
      .ok (false, ((s.withImages images).atCandidate M (t M)).outOfCandidates) (e (M + 1)) := by
  rw [tauSearch_of_images counted imaged]
  exact tauTrials_unmet candidates fun j le => Candidate.unmet_of_isNaN (undefined j le)

/-- What the search along the direction computes, whatever the arithmetic, the operator, the
proximal step and the level are.  If `L d` or `Lᴴ L d` is refused, so is the search.  Otherwise
they are computed once, and with a budget of `M + 1` candidates:

* if a candidate `k` up to the `M`-th is the first that is low enough, the search has found, and
  leaves that candidate in the state and the environment that it led to;
* if none up to the `M`-th is, it has not, leaves the `M`-th, and counts a failure;
* and these are the only ways in which it returns: otherwise a candidate was refused before, and
  the search is refused with it.

The state that is left differs from the one given as `State.withImages` and `State.atCandidate`
say, and in nothing else. -/
theorem tauSearch_outcome (A : Operator σ R) (g : Prox σ R) (s : State R) (level : R)
    {budget : Count R} {M : Nat} (counted : budget.toNat = .ok (M + 1)) (env : σ) :
    (∀ fault env', s.directionImages A env = .error fault env' →
      s.tauSearch A g level budget env = .error fault env') ∧
    ∀ images env₁, s.directionImages A env = .ok images env₁ →
      let s₁ := s.withImages images
      (∀ k t e c env', k ≤ M → s₁.Candidates g env₁ k t e →
        (∀ j < k, (t j).lowers level = false) →
        s₁.line.candidate g (lengthAt k) (e k) = .ok c env' → c.lowers level = true →
        s.tauSearch A g level budget env = .ok (true, s₁.atCandidate k c) env') ∧
      (∀ t e, s₁.Candidates g env₁ (M + 1) t e → (∀ j ≤ M, (t j).lowers level = false) →
        s.tauSearch A g level budget env =
          .ok (false, (s₁.atCandidate M (t M)).outOfCandidates) (e (M + 1))) ∧
      ∃ k t e, s₁.Candidates g env₁ k t e ∧ (∀ j < k, (t j).lowers level = false) ∧
        (k = M + 1 ∧ s.tauSearch A g level budget env =
            .ok (false, (s₁.atCandidate M (t M)).outOfCandidates) (e (M + 1)) ∨
          k ≤ M ∧ (∃ c env', s₁.line.candidate g (lengthAt k) (e k) = .ok c env' ∧
            c.lowers level = true ∧
            s.tauSearch A g level budget env = .ok (true, s₁.atCandidate k c) env') ∨
          k ≤ M ∧ ∃ fault env', s₁.line.candidate g (lengthAt k) (e k) = .error fault env' ∧
            s.tauSearch A g level budget env = .error fault env') := by
  refine ⟨fun fault env' => tauSearch_of_refusal, fun images env₁ imaged => ?_⟩
  intro s₁
  rw [tauSearch_of_images counted imaged]
  refine ⟨fun k t e c env' within candidates unmet next met =>
      tauTrials_met candidates (Nat.lt_succ_of_le within) unmet next met,
    fun t e => tauTrials_unmet, ?_⟩
  have : Nonempty (Candidate R) :=
    ⟨⟨s.x, s.ax, s.fx, s.grad, s.xbar, s.gxbar, s.r, s.residual, s.bound⟩⟩
  obtain ⟨k, t, e, candidates, unmet, ends⟩ := Attempts.outcome
    (fun j => s₁.line.candidate g (lengthAt j)) (Candidate.lowers level) env₁ (M + 1)
  refine ⟨k, t, e, candidates, unmet, ?_⟩
  rcases ends with rfl | ⟨within, ⟨c, env', next, met⟩ | ⟨fault, env', refused⟩⟩
  · exact .inl ⟨rfl, tauTrials_unmet candidates fun j le => unmet j (Nat.lt_succ_of_le le)⟩
  · exact .inr (.inl ⟨Nat.le_of_lt_succ within, c, env', next, met,
      tauTrials_met candidates within unmet next met⟩)
  · exact .inr (.inr ⟨Nat.le_of_lt_succ within, fault, env', refused,
      tauTrials_refused candidates within unmet refused⟩)

end State

/-! ## A search in the plain problem -/

namespace Plain

/-- A search through zero from the start, with steps of the size `1 / 2`. -/
noncomputable def across : State Exact := { State.start start 0 with
  gamma := .real (1 / 2), xbarPrev := start, axbar := start.scale (.real 1)
  gradbar := (start.scale (.real 1)).scale (.real 1), d := start.scale (.real (-2)) }

/-- The images of its direction. -/
noncomputable def acrossImages : Vec Exact × Vec Exact :=
  (across.d.scale (.real 1), (across.d.scale (.real 1)).scale (.real 1))

theorem across_anchored : ∃ rbar,
    Anchored meaning prox (1 / 2) across.xbarPrev rbar across.axbar across.gradbar := by
  obtain ⟨square, _, evaluated⟩ := meaning.evaluated start_fits
    (show operator.apply start () = .ok across.axbar () from rfl)
    (show operator.applyAdjoint across.axbar () = .ok across.gradbar () from rfl)
  obtain ⟨p, stepped⟩ :=
    evaluated.step_answers (g := .zero) trivial one_half_pos trivial trivial ()
  obtain ⟨v, moved, answered⟩ := forwardBackwardStep_returns.mp stepped
  rw [Exact.neg_real] at moved
  obtain ⟨fits, answers⟩ := Prox.zero_staysIn.answers one_half_pos evaluated.x_fits
    evaluated.grad_fits moved answered
  obtain ⟨rbar, _, fitsR, difference⟩ := start_fits.sub fits
  exact ⟨rbar, start_fits, fitsR, evaluated.ax_fits, evaluated.grad_fits, evaluated.image,
    evaluated.gradient, p, answers, difference⟩

theorem across_directed : Directed meaning across.d acrossImages.1 acrossImages.2 := by
  have fits : across.d.Fits pair := start_fits.scale (-2)
  obtain ⟨fitsL, image⟩ := meaning.applyLinear fits
    (show operator.linearPart.apply across.d () = .ok acrossImages.1 () from rfl)
  obtain ⟨fitsH, gradient⟩ := meaning.applyAdjoint fitsL
    (show operator.applyAdjoint acrossImages.1 () = .ok acrossImages.2 () from rfl)
  exact ⟨fits, fitsL, fitsH, image, gradient⟩

/-- Every candidate of the search is answered, and its envelope is known. -/
theorem across_candidate (τ : ℝ) :
    ∃ c, (across.withImages acrossImages).line.candidate prox (.real τ) () = .ok c () ∧
      c.value = .real (1 / 4 * (1 - 2 * τ) ^ 2 * ‖start.point pair‖ ^ 2) := by
  obtain ⟨rbar, anchored⟩ := across_anchored
  have directed := across_directed
  obtain ⟨x, moved, fitsX, pointX⟩ := directed.d_fits.axpy τ anchored.xbarPrev_fits
  obtain ⟨ax, image, fitsA, _⟩ := directed.ld_fits.axpy τ anchored.axbar_fits
  obtain ⟨grad, slope, fitsG, _⟩ := directed.lld_fits.axpy τ anchored.gradbar_fits
  have evaluated := anchored.evaluated directed moved image slope
  obtain ⟨p, stepped⟩ :=
    evaluated.step_answers (g := .zero) trivial one_half_pos trivial trivial ()
  obtain ⟨e, enveloped, _, steps⟩ :=
    evaluated.step_enveloped (g := .zero) trivial one_half_pos stepped
  refine ⟨_, Line.candidate_of_returns moved image fitsA.sqnorm_eq slope stepped enveloped, ?_⟩
  refine (value_of_stepped evaluated steps).trans ?_
  have point : x.point pair = (1 - 2 * τ) • start.point pair := by
    refine pointX.trans ?_
    change τ • (start.scale (.real (-2))).point pair + start.point pair = _
    rw [start_fits.point_scale]
    module
  rw [point, norm_smul, mul_pow, Real.norm_eq_abs, sq_abs]
  congr 1
  ring

/-- A level between the envelopes at the first candidate and at the second. -/
noncomputable def acrossLevel : Exact := .real (1 / ((10 : ℕ) : ℝ) * ‖start.point pair‖ ^ 2)

end Plain

namespace State

/-- A search through zero: the first candidate is as far on the other side as the start, and the
second one is low enough. -/
theorem plain_tauSearch_shortens : ∃ (t : Nat → Candidate Exact) (c : Candidate Exact),
    (Count.whole 32 : Count Exact).toNat = .ok 32 ∧
    Plain.across.directionImages Plain.operator () = .ok Plain.acrossImages () ∧
    (Plain.across.withImages Plain.acrossImages).Candidates Plain.prox () 1 t (fun _ => ()) ∧
    (∀ j < 1, (t j).lowers Plain.acrossLevel = false) ∧ c.lowers Plain.acrossLevel = true ∧
    Plain.across.tauSearch Plain.operator Plain.prox Plain.acrossLevel (.whole 32) () =
      .ok (true, (Plain.across.withImages Plain.acrossImages).atCandidate 1 c) () := by
  have positive : 0 < ‖Plain.start.point Plain.pair‖ ^ 2 :=
    pow_pos (norm_pos_iff.mpr Plain.start_ne_zero) 2
  obtain ⟨c₀, first, value₀⟩ := Plain.across_candidate 1
  obtain ⟨c₁, second, value₁⟩ := Plain.across_candidate (2 / 5)
  have counted : (Count.whole 32 : Count Exact).toNat = .ok (31 + 1) := rfl
  have imaged : Plain.across.directionImages Plain.operator () = .ok Plain.acrossImages () := rfl
  have length : (lengthAt 1 : Exact) = .real (2 / 5) := by
    change (1 : Exact) * tauFactor = _
    rw [tauFactor_eq, Exact.one_eq, Exact.real_mul, one_mul]
  have candidates : (Plain.across.withImages Plain.acrossImages).Candidates Plain.prox () 1
      (fun _ => c₀) (fun _ => ()) := by
    refine ⟨rfl, fun j less => ?_⟩
    obtain rfl := Nat.lt_one_iff.mp less
    rw [show (lengthAt 0 : Exact) = .real 1 from Exact.one_eq]
    exact first
  have unmet : c₀.lowers Plain.acrossLevel = false := by
    rw [Candidate.lowers, value₀, Plain.acrossLevel, Bool.eq_false_iff, ne_eq, Exact.le_real]
    norm_num
    linarith
  have met : c₁.lowers Plain.acrossLevel = true := by
    rw [Candidate.lowers, value₁, Plain.acrossLevel, Exact.le_real]
    norm_num
    linarith
  obtain ⟨_, searched⟩ := tauSearch_outcome Plain.operator Plain.prox Plain.across
    Plain.acrossLevel counted ()
  obtain ⟨found, _⟩ := searched Plain.acrossImages () imaged
  refine ⟨fun _ => c₀, c₁, counted, imaged, candidates, fun _ _ => unmet, met, ?_⟩
  refine found 1 _ _ c₁ () (by norm_num) candidates (fun _ _ => unmet) ?_ met
  rw [length]
  exact second

end State

end ForwardBackward
