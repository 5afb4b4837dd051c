/-
# ForwardBackward.Proofs.Dialogue -- what a run asks its halting predicate

A run is put into a larger environment that keeps a transcript: every state that its
predicate is shown, with the verdict.  The operator and the proximal step leave the
transcript alone, and the outcome is that of the plain run (`Solver.solve_transcribed`).

In the iteration `k` the transcript holds `k` questions, asked when `0`, `1`, …, `k - 1`
iterations were complete, and all of them were answered no (`Snapshot.Told`).  A run
that stops adds at most one more (`Solver.stops_told`).  So the transcript of a whole
run tells how it ended, and the end of a run what its transcript is
(`Dialogue`, `Solver.questions_dialogue`).
-/
import ForwardBackward.Proofs.Endings
import ForwardBackward.Proofs.Mirrors
import ForwardBackward.Proofs.Progress

namespace ForwardBackward

set_option autoImplicit false

/-! ## Transcripts -/

/-- A state that a predicate was shown, and its verdict. -/
structure Question (R : Type) [Scalar R] where
  state : State R
  verdict : Verdict

/-- An environment with the questions that were asked. -/
structure Transcript (σ R : Type) [Scalar R] where
  inner : σ
  questions : List (Question R)

section Transcribed

variable {σ R α : Type} [Scalar R]

namespace Transcript

/-- The environment with given questions. -/
def withQuestions (qs : List (Question R)) (env : σ) : Transcript σ R := ⟨env, qs⟩

/-- A call in the inner environment. -/
def lift (c : Call σ α) : Call (Transcript σ R) α := fun t =>
  match c t.inner with
  | .ok a env => .ok a { t with inner := env }
  | .error e env => .error e { t with inner := env }

theorem lift_mirrors (c : Call σ α) :
    Mirrors Transcript.inner c (lift c : Call (Transcript σ R) α) := by
  intro t
  unfold lift
  cases c t.inner with
  | ok a env => rfl
  | error e env => rfl

/-- A call in the inner environment leaves the questions alone. -/
theorem mirrors_lift (qs : List (Question R)) (c : Call σ α) :
    Mirrors (withQuestions qs) (lift c) c := by
  intro env
  change _ = lift c ⟨env, qs⟩
  unfold lift
  cases c env with
  | ok a env => rfl
  | error e env => rfl

end Transcript

/-- The operator in the larger environment. -/
def Operator.transcribed (A : Operator σ R) : Operator (Transcript σ R) R where
  isLinear := A.isLinear
  domain := A.domain
  codomain := A.codomain
  apply x := Transcript.lift (A.apply x)
  applyLinear x := Transcript.lift (A.applyLinear x)
  applyAdjoint y := Transcript.lift (A.applyAdjoint y)

/-- The proximable function in the larger environment. -/
def Prox.transcribed (g : Prox σ R) : Prox (Transcript σ R) R where
  value x := Transcript.lift (g.value x)
  prox v gamma := Transcript.lift (g.prox v gamma)

/-- The predicate with every question kept. -/
def Predicate.transcribed (p : Predicate σ R) : Predicate (Transcript σ R) R := fun tol s t =>
  let (reply, env) := p tol s t.inner
  (reply, ⟨env, t.questions ++ [⟨s, reply.verdict⟩]⟩)

/-- The options with their predicate transcribed. -/
def Config.transcribed (c : Config σ R) : Config (Transcript σ R) R :=
  c.asking c.predicate.transcribed

/-- The world before a run, without a question. -/
def World.transcribed (w : World σ R) : World (Transcript σ R) R := ⟨⟨w.env, []⟩, w.notes⟩

/-- The world that a run leaves behind, with or without a result. -/
def worldAfter {ε τ : Type} : EStateM.Result ε τ α → τ
  | .ok _ w => w
  | .error _ w => w

/-- What a run asks its predicate. -/
def Solver.questions (A : Operator σ R) (g : Prox σ R) (x0 : Option (Vec R)) (c : Config σ R)
    (w : World σ R) : List (Question R) :=
  (worldAfter (solve A.transcribed g.transcribed x0 c.transcribed w.transcribed)).env.questions

variable {A : Operator σ R} {g : Prox σ R} {c : Config σ R}

theorem Operator.transcribed_mirrors (A : Operator σ R) :
    A.Mirrors Transcript.inner A.transcribed where
  isLinear := rfl
  domain := rfl
  apply _ := Transcript.lift_mirrors _
  applyLinear _ := Transcript.lift_mirrors _
  applyAdjoint _ := Transcript.lift_mirrors _

theorem Prox.transcribed_mirrors (g : Prox σ R) : g.Mirrors Transcript.inner g.transcribed :=
  fun _ _ => Transcript.lift_mirrors _

theorem Operator.mirrors_transcribed (A : Operator σ R) (qs : List (Question R)) :
    A.transcribed.Mirrors (Transcript.withQuestions qs) A where
  isLinear := rfl
  domain := rfl
  apply _ := Transcript.mirrors_lift qs _
  applyLinear _ := Transcript.mirrors_lift qs _
  applyAdjoint _ := Transcript.mirrors_lift qs _

theorem Prox.mirrors_transcribed (g : Prox σ R) (qs : List (Question R)) :
    g.transcribed.Mirrors (Transcript.withQuestions qs) g :=
  fun _ _ => Transcript.mirrors_lift qs _

/-- A run with a transcript has the outcome of the plain run. -/
theorem Solver.solve_transcribed (A : Operator σ R) (g : Prox σ R) (x0 : Option (Vec R))
    (c : Config σ R) :
    Mirrors (Mirrors.world Transcript.inner) (solve A g x0 c)
      (solve A.transcribed g.transcribed x0 c.transcribed) :=
  solve_mirrors (fun _ _ _ => rfl) A.transcribed_mirrors g.transcribed_mirrors x0

/-! ## Who adds a question -/

/-- An answer adds its question. -/
theorem Config.questions_of_answer {s : State R} {t env : Transcript σ R} {verdict : Verdict}
    (told : c.transcribed.predicate.judge c.transcribed.tolerance s t = (verdict, env)) :
    env.questions = t.questions ++ [⟨s, verdict⟩] := by
  obtain ⟨answer, kept⟩ := Prod.mk.inj told
  rw [← kept, ← answer]
  rfl

namespace Transcript

/-- What mirrors a part of the plain run whatever was asked so far asks nothing. -/
theorem questions_eq {m : Run (Transcript σ R) R α} {m' : Run σ R α}
    (silent : ∀ qs, Mirrors (Mirrors.world (withQuestions qs)) m m')
    (w : World (Transcript σ R) R) :
    (worldAfter (m w)).env.questions = w.env.questions := by
  have same := silent w.env.questions ⟨w.env.inner, w.notes⟩
  change _ = m w at same
  rw [← same]
  cases m' ⟨w.env.inner, w.notes⟩ with
  | ok a w₁ => rfl
  | error e w₁ => rfl

theorem questions_of_returns {m : Run (Transcript σ R) R α} {m' : Run σ R α}
    (silent : ∀ qs, Mirrors (Mirrors.world (withQuestions qs)) m m')
    {w w' : World (Transcript σ R) R} {a : α} (returned : m w = .ok a w') :
    w'.env.questions = w.env.questions := by
  have same := questions_eq silent w
  rwa [returned] at same

end Transcript

def Place.isResting : Place R → Bool
  | .resting => true
  | _ => false

/-- A question is asked where an iteration begins, and answered no. -/
theorem Move.questions_eq {b d : Snapshot (Transcript σ R) R}
    (step : Move c.transcribed A.transcribed g.transcribed b d) :
    d.world.env.questions =
      b.world.env.questions ++ if b.place.isResting then [⟨b.state, .decided false⟩] else [] := by
  have asked : ∀ {s : State R} {w w₁ : World (Transcript σ R) R},
      Solver.consult c.transcribed s w = .ok false w₁ →
      w₁.env.questions = w.env.questions ++ [⟨s, .decided false⟩] := by
    intro s w w₁ goes
    exact Config.questions_of_answer (Solver.consult_returns goes)
  have unasked : ∀ {w w₁ : World (Transcript σ R) R}, w₁.env.questions = w.env.questions →
      w₁.env.questions = w.env.questions ++ [] := by
    intro w w₁ same
    rw [same, List.append_nil]
  have hA := A.mirrors_transcribed
  have hg := g.mirrors_transcribed
  cases step with
  | search goes called _ _ | skip goes called _ =>
      rw [Transcript.questions_of_returns
        (fun qs => .call (State.evaluateStep_mirrors (hA qs) _)) called]
      exact asked goes
  | bounded | unbounded | exhaust => exact unasked rfl
  | halve _ called =>
      exact unasked (Transcript.questions_of_returns
        (fun qs => .call (State.gammaTrial_mirrors (hA qs) (hg qs) _)) called)
  | @settle _ found _ _ _ _ _ announced settled =>
      refine unasked (congrArg Transcript.questions ((Solver.settle_env settled).trans ?_))
      cases found with
      | none =>
          cases announced
          rfl
      | some found => exact Solver.reportExhausted_env announced
  | aim called =>
      exact unasked (Transcript.questions_of_returns
        (fun qs => .call (Solver.aim_mirrors (hA qs) (hg qs) _)) called)
  | depart _ called _ =>
      exact unasked (Transcript.questions_of_returns
        (fun qs => .call (State.evaluateDirection_mirrors (hA qs) _)) called)
  | accept called _ | reject called _ =>
      exact unasked (Transcript.questions_of_returns
        (fun qs => .call (State.tauTrial_mirrors (hg qs) _ _)) called)
  | approve reported approved =>
      obtain ⟨_, _, rfl⟩ := Solver.approve_returns.mp approved
      exact unasked (congrArg Transcript.questions (Solver.reportExhausted_env reported))

/-- Where a question is asked, an iteration is left, and it is the predicate that answers no. -/
theorem Move.answered_no {b d : Snapshot (Transcript σ R) R}
    (step : Move c.transcribed A.transcribed g.transcribed b d) (resting : b.place.isResting = true) :
    b.place = .resting ∧ 0 < b.left ∧
      (c.predicate.judge c.tolerance b.state b.world.env.inner).1 = .decided false := by
  cases step with
  | search goes _ _ _ | skip goes _ _ =>
      exact ⟨rfl, Nat.succ_pos _, (Prod.mk.inj (Solver.consult_returns goes)).1⟩
  | _ => cases resting

/-! ## The first residual norm -/

/-- The iterations in progress that have not recorded a first residual norm. -/
def Place.unsettled : Place R → Nat
  | .searchingGamma _ | .measured _ => 1
  | _ => 0

theorem Turn.iteration_begun {b d : Snapshot σ R} (turn : Turn c b d) :
    d.state.iteration = b.state.iteration + if b.place.isResting then 1 else 0 := by
  cases turn <;> rfl

section FirstResidual

variable {x0 : Option (Vec R)} {w : World σ R} {vs : List (Snapshot σ R)} {b : Snapshot σ R}

/-- The run has been behind the search for a step size of its first iteration, where the residual
norm was `norm`. -/
def Solver.Began (A : Operator σ R) (g : Prox σ R) (x0 : Option (Vec R)) (c : Config σ R)
    (w : World σ R) (norm : R) : Prop :=
  ∃ us v found, Passes A g x0 c w us v ∧ v.place = .measured found ∧ v.state.iteration = 1 ∧
    v.state.residual = norm

theorem Solver.launch_firstResidual {s : State R} {w' : World σ R}
    (launched : launch A g x0 c w = .ok s w') : s.firstResidual = Scalar.undefined := by
  obtain ⟨_, _, _, _, _, _, _, _, _, _, _, evaluates, sizes, set, steps, _, rfl⟩ :=
    launch_returns launched
  obtain ⟨_, _, _, _, _, _, _, rfl⟩ := State.evaluate_returns evaluates
  obtain rfl := firstGamma_frame sizes
  obtain ⟨_, _, rfl⟩ := State.setGamma_accepts.mp set
  obtain ⟨_, _, _, _, _, _, rfl⟩ := State.step_frame steps
  rfl

/-- There is no first residual norm before the first iteration has found its step size, and
afterwards it is the one of that moment. -/
theorem Solver.Passes.firstResidual (passes : Passes A g x0 c w vs b) :
    (b.state.iteration ≤ b.place.unsettled → b.state.firstResidual = Scalar.undefined) ∧
      (b.place.unsettled < b.state.iteration → Began A g x0 c w b.state.firstResidual) := by
  obtain ⟨s₀, w₀, limit, launched, budget, course⟩ := passes
  induction course with
  | stay =>
      have zero : s₀.iteration = 0 := (launch_starts launched).1
      refine ⟨fun _ => launch_firstResidual launched, fun later => ?_⟩
      change 0 < s₀.iteration at later
      omega
  | @move vs b d before step ih =>
      cases step.turn with
      | @search left n s | @skip left s =>
          refine ⟨fun early => ih.1 ?_, fun later => ih.2 ?_⟩
          · change s.iteration + 1 ≤ 1 at early
            exact Nat.le_of_succ_le_succ early
          · change 1 < s.iteration + 1 at later
            exact Nat.lt_of_succ_lt_succ later
      | bounded | halve | unbounded | aim | depart | accept | reject | exhaust | approve =>
          exact ih
      | @settle left found s =>
          have recorded : s.record.markValid.firstResidual =
              if s.iteration = 1 then s.residual else s.firstResidual := rfl
          change (s.iteration ≤ 0 → s.record.markValid.firstResidual = _) ∧
            (0 < s.iteration → Began A g x0 c w s.record.markValid.firstResidual)
          rw [recorded]
          refine ⟨fun early => ?_, fun later => ?_⟩
          · rw [if_neg (by omega)]
            exact ih.1 (Nat.le_succ_of_le early)
          · by_cases one : s.iteration = 1
            · rw [if_pos one]
              exact ⟨_, _, found, ⟨s₀, w₀, limit, launched, budget, before⟩, rfl, one, rfl⟩
            · rw [if_neg one]
              exact ih.2 (show 1 < s.iteration by omega)

end FirstResidual

/-! ## The questions of a run -/

section Run

variable (A : Operator σ R) (g : Prox σ R) (x0 : Option (Vec R)) (c : Config σ R) (w : World σ R)

/-- The run with a transcript gets to a snapshot. -/
abbrev Solver.Recites (vs : List (Snapshot (Transcript σ R) R))
    (b : Snapshot (Transcript σ R) R) : Prop :=
  Passes A.transcribed g.transcribed x0 c.transcribed w.transcribed vs b

/-- The question was put before an iteration, and the verdict is that of the predicate. -/
def Question.Asked (q : Question R) : Prop :=
  ∃ vs b, Solver.Recites A g x0 c w vs b ∧ b.place = .resting ∧ 0 < b.left ∧
    b.state = q.state ∧ (c.predicate.judge c.tolerance b.state b.world.env.inner).1 = q.verdict

/-- One question was asked before each iteration that has begun, and answered no. -/
structure Snapshot.Told (b : Snapshot (Transcript σ R) R) : Prop where
  labels : b.world.env.questions.map (fun q => q.state.iteration) = List.range b.state.iteration
  denied : ∀ q ∈ b.world.env.questions, q.verdict = .decided false
  asked : ∀ q ∈ b.world.env.questions, q.Asked A g x0 c w

end Run

section Run

variable {x0 : Option (Vec R)} {w : World σ R} {vs : List (Snapshot (Transcript σ R) R)}
  {b : Snapshot (Transcript σ R) R}

theorem Solver.launch_questions (A : Operator σ R) (g : Prox σ R) (x0 : Option (Vec R))
    (c : Config σ R) (w : World σ R) :
    (worldAfter (launch A.transcribed g.transcribed x0 c.transcribed w.transcribed)).env.questions =
      [] :=
  Transcript.questions_eq (fun qs => launch_mirrors (c := c.transcribed) c.predicate
    (A.mirrors_transcribed qs) (g.mirrors_transcribed qs) x0) _

theorem Solver.Passes.told (passes : Recites A g x0 c w vs b) : b.Told A g x0 c w := by
  obtain ⟨s₀, w₀, limit, launched, budget, course⟩ := passes
  induction course with
  | stay =>
      have none := launch_questions A g x0 c w
      rw [launched] at none
      have zero : s₀.iteration = 0 := (launch_starts launched).1
      change w₀.env.questions = [] at none
      refine ⟨?_, ?_, ?_⟩
      · change w₀.env.questions.map _ = List.range s₀.iteration
        rw [none, zero]
        rfl
      · change ∀ q ∈ w₀.env.questions, _
        rw [none]
        simp
      · change ∀ q ∈ w₀.env.questions, _
        rw [none]
        simp
  | @move vs b d before step ih =>
      obtain ⟨labels, denied, asked⟩ := ih
      have questions := step.questions_eq
      have begun := step.turn.iteration_begun
      have here : Recites A g x0 c w vs b := ⟨s₀, w₀, limit, launched, budget, before⟩
      by_cases resting : b.place.isResting = true
      · rw [if_pos resting] at questions begun
        obtain ⟨place, due, verdict⟩ := step.answered_no resting
        refine ⟨?_, ?_, ?_⟩
        · rw [questions, begun, List.map_append, labels, List.range_succ]
          rfl
        · rw [questions]
          intro q inside
          rcases List.mem_append.mp inside with inside | last
          · exact denied q inside
          · rw [List.mem_singleton.mp last]
        · rw [questions]
          intro q inside
          rcases List.mem_append.mp inside with inside | last
          · exact asked q inside
          · rw [List.mem_singleton.mp last]
            exact ⟨vs, b, here, place, due, rfl, verdict⟩
      · rw [if_neg resting, List.append_nil] at questions
        rw [if_neg resting, Nat.add_zero] at begun
        exact ⟨by rw [questions, begun]; exact labels, by rw [questions]; exact denied,
          by rw [questions]; exact asked⟩

end Run

/-! ## How the transcript and the end of a run belong together -/

/-- What a run answers, a result or a failure. -/
def answerOf {ε τ : Type} : EStateM.Result ε τ α → Except ε α
  | .ok a _ => .ok a
  | .error e _ => .error e

theorem answerOf_outcomeUnder {ε τ τ' : Type} (π : τ' → τ) (out : EStateM.Result ε τ' α) :
    answerOf (outcomeUnder π out) = answerOf out := by
  cases out <;> rfl

/-- The transcript of a run of at most `limit` iterations, and what the run answers. -/
inductive Ending (limit : Nat) : List (Question R) → Except (Failure R) (Result R) → Prop where
  /-- The run fails before the first question. -/
  | unlaunched {e : Failure R} : e.isHalting = false → Ending limit [] (.error e)
  /-- All iterations are done. -/
  | spent {qs : List (Question R)} {s : State R} : qs.length = limit → s.iteration = limit →
      (∀ q ∈ qs, q.verdict = .decided false) → Ending limit qs (.ok (s.result .iterationsSpent))
  /-- The last question was answered yes. -/
  | halted {qs : List (Question R)} {s : State R} : qs.length < limit → s.iteration = qs.length →
      (∀ q ∈ qs, q.verdict = .decided false) →
      Ending limit (qs ++ [⟨s, .decided true⟩]) (.ok (s.result .converged))
  /-- The last question was not answered. -/
  | unanswered {qs : List (Question R)} {s : State R} {verdict : Verdict} {cause : NoAnswer} :
      qs.length < limit → s.iteration = qs.length → (∀ q ∈ qs, q.verdict = .decided false) →
      verdict.cause? = some cause →
      Ending limit (qs ++ [⟨s, verdict⟩])
        (.error (.halting cause ⟨s.iteration, s.gamma, s.residual⟩))
  /-- The last question was answered no, and the iteration behind it breaks off. -/
  | broken {qs : List (Question R)} {s : State R} {e : Failure R} : qs.length < limit →
      s.iteration = qs.length → (∀ q ∈ qs, q.verdict = .decided false) → e.isHalting = false →
      Ending limit (qs ++ [⟨s, .decided false⟩]) (.error e)

/-- The transcript and the answer of a run, which asked what is in the transcript, one question
before each iteration. -/
structure Solver.Ended (A : Operator σ R) (g : Prox σ R) (x0 : Option (Vec R)) (c : Config σ R)
    (w : World σ R) (limit : Nat) (qs : List (Question R)) (answer : Except (Failure R) (Result R)) :
    Prop where
  ending : Ending limit qs answer
  labels : qs.map (fun q => q.state.iteration) = List.range qs.length
  asked : ∀ q ∈ qs, q.Asked A g x0 c w

section Run

variable {x0 : Option (Vec R)} {w : World σ R} {vs : List (Snapshot (Transcript σ R) R)}
  {left limit : Nat} {s : State R} {w₁ : World (Transcript σ R) R}

theorem Solver.after_returns (c : Config σ R) (s : State R) (status : Status) (w : World σ R) :
    ∃ w', after c (.ok (status, s) w) = .ok (s.result status) w' ∧ w'.env = w.env := by
  obtain ⟨w', concluded⟩ := conclude_returns c s w status
  exact ⟨w', bind_of_returns concluded _, conclude_env concluded⟩

/-- A question at a rest is one more than those for the iterations that have begun. -/
theorem Solver.Passes.asks {verdict : Verdict} {env : Transcript σ R}
    (passes : Recites A g x0 c w vs ⟨.resting, left + 1, s, w₁⟩)
    (told : c.transcribed.predicate.judge c.transcribed.tolerance s w₁.env = (verdict, env)) :
    env.questions = w₁.env.questions ++ [⟨s, verdict⟩] ∧
      env.questions.map (fun q => q.state.iteration) = List.range env.questions.length ∧
      ∀ q ∈ env.questions, q.Asked A g x0 c w := by
  obtain ⟨labels, _, asked⟩ := passes.told
  change w₁.env.questions.map _ = List.range s.iteration at labels
  have count : w₁.env.questions.length = s.iteration := by simpa using congrArg List.length labels
  have questions := Config.questions_of_answer told
  refine ⟨questions, ?_, ?_⟩
  · rw [questions, List.map_append, labels, List.length_append, count, List.length_singleton,
      List.range_succ]
    rfl
  · rw [questions]
    intro q inside
    rcases List.mem_append.mp inside with inside | inside
    · exact asked q inside
    · rw [List.mem_singleton.mp inside]
      exact ⟨vs, _, passes, rfl, Nat.succ_pos _, rfl, congrArg Prod.fst told⟩

/-- The iterations begun and those left are as many as the options allow. -/
theorem Solver.Passes.left_eq {b : Snapshot σ R} {us : List (Snapshot σ R)}
    (budget : c.maxIterations.toNat = .ok limit) (passes : Passes A g x0 c w us b) :
    b.state.iteration + b.left = limit := by
  obtain ⟨s₀, w₀, limit', launched, budget', course⟩ := passes
  cases budget.symm.trans budget'
  have zero : s₀.iteration = 0 := (launch_starts launched).1
  have left : b.state.iteration + b.left = s₀.iteration + limit := course.left_eq
  omega

/-- Where and how the loop of a run stops tells its transcript. -/
theorem Solver.Stops.ended (budget : c.maxIterations.toNat = .ok limit)
    (passes : Recites A g x0 c w vs ⟨.resting, left, s, w₁⟩)
    {out : EStateM.Result (Failure R) (World (Transcript σ R) R) (Status × State R)}
    (stops : Stops c.transcribed A.transcribed g.transcribed left s w₁ out) :
    Ended A g x0 c w limit (worldAfter (after c.transcribed out)).env.questions
      (answerOf (after c.transcribed out)) := by
  obtain ⟨labels, denied, asked⟩ := passes.told
  change w₁.env.questions.map _ = List.range s.iteration at labels
  have count : w₁.env.questions.length = s.iteration := by simpa using congrArg List.length labels
  have total : s.iteration + left = limit :=
    Passes.left_eq (c := c.transcribed) budget passes
  cases stops with
  | spent =>
      obtain ⟨w', done, env⟩ := after_returns c.transcribed s .iterationsSpent w₁
      have questions : (worldAfter (after c.transcribed (.ok (.iterationsSpent, s) w₁))).env.questions =
          w₁.env.questions := by
        rw [done]
        exact congrArg Transcript.questions env
      rw [questions, done]
      exact ⟨.spent (count.trans total) total denied, by rw [count]; exact labels, asked⟩
  | @halted left _ _ env answer =>
      obtain ⟨questions, labels, asked⟩ := passes.asks answer
      obtain ⟨w', done, same⟩ := after_returns c.transcribed s .converged { w₁ with env := env }
      rw [done]
      change Ended A g x0 c w limit w'.env.questions (.ok _)
      rw [same]
      refine ⟨?_, labels, asked⟩
      change Ending limit env.questions _
      rw [questions]
      exact .halted (by omega) count.symm denied
  | @unanswered left _ _ env verdict cause answer silent =>
      obtain ⟨questions, labels, asked⟩ := passes.asks answer
      refine ⟨?_, labels, asked⟩
      change Ending limit env.questions (.error _)
      rw [questions]
      exact .unanswered (by omega) count.symm denied silent
  | @broken left _ _ w₂ env e answer iterated =>
      obtain ⟨questions, labels, asked⟩ := passes.asks answer
      have silent := Transcript.questions_eq (fun qs => iterate_mirrors (c := c.transcribed)
        c.predicate (A.mirrors_transcribed qs) (g.mirrors_transcribed qs) s) { w₁ with env := env }
      rw [iterated] at silent
      change w₂.env.questions = env.questions at silent
      change Ended A g x0 c w limit w₂.env.questions (.error e)
      rw [silent]
      refine ⟨?_, labels, asked⟩
      rw [questions]
      exact .broken (by omega) count.symm denied (iterate_unasked _ _ _ _ _ _ _ iterated)

theorem Solver.answerOf_transcribed : answerOf (solve A.transcribed g.transcribed x0 c.transcribed
    w.transcribed) = answerOf (solve A g x0 c w) := by
  rw [← answerOf_outcomeUnder (Mirrors.world Transcript.inner)]
  exact congrArg answerOf (solve_transcribed A g x0 c w.transcribed)

/-- A course adds a question for every rest that it leaves. -/
theorem Course.questions_eq {a b : Snapshot (Transcript σ R) R}
    (course : Course c.transcribed A.transcribed g.transcribed a vs b) :
    b.world.env.questions = a.world.env.questions ++
      (vs.filter fun v => v.place.isResting).map fun v => ⟨v.state, .decided false⟩ := by
  induction course with
  | stay => simp
  | @move vs b d _ step ih =>
      rw [step.questions_eq, ih, List.filter_append, List.map_append, List.append_assoc]
      cases resting : b.place.isResting <;> simp [resting]

/-- The first snapshot that a course leaves is the one where it starts. -/
theorem Course.starts {a b : Snapshot σ R} {vs : List (Snapshot σ R)}
    (course : Course c A g a vs b) : vs = [] ∧ b = a ∨ ∃ us, vs = a :: us := by
  induction course with
  | stay => exact .inl ⟨rfl, rfl⟩
  | move before _ ih =>
      rcases ih with ⟨rfl, rfl⟩ | ⟨us, rfl⟩
      · exact .inr ⟨[], rfl⟩
      · exact .inr ⟨us ++ [_], rfl⟩

/-- Where a loop stops it asks a question if an iteration is left, and none otherwise. -/
theorem Solver.Stops.questions_eq
    {out : EStateM.Result (Failure R) (World (Transcript σ R) R) (Status × State R)}
    (stops : Stops c.transcribed A.transcribed g.transcribed left s w₁ out) :
    ∃ last, (worldAfter (after c.transcribed out)).env.questions = w₁.env.questions ++ last ∧
      (0 < left → ∃ verdict, last = [⟨s, verdict⟩]) := by
  cases stops with
  | spent =>
      obtain ⟨w', done, same⟩ := after_returns c.transcribed s .iterationsSpent w₁
      rw [done]
      refine ⟨[], ?_, nofun⟩
      rw [List.append_nil]
      exact congrArg Transcript.questions same
  | @halted left _ _ env answer =>
      obtain ⟨w', done, same⟩ := after_returns c.transcribed s .converged { w₁ with env := env }
      rw [done]
      have asked := Config.questions_of_answer answer
      exact ⟨_, (congrArg Transcript.questions same).trans asked, fun _ => ⟨_, rfl⟩⟩
  | unanswered answer _ => exact ⟨_, Config.questions_of_answer answer, fun _ => ⟨_, rfl⟩⟩
  | @broken left _ _ w₂ env e answer iterated =>
      have silent := Transcript.questions_eq (fun qs => iterate_mirrors (c := c.transcribed)
        c.predicate (A.mirrors_transcribed qs) (g.mirrors_transcribed qs) s) { w₁ with env := env }
      rw [iterated] at silent
      exact ⟨_, silent.trans (Config.questions_of_answer answer), fun _ => ⟨_, rfl⟩⟩

/-- Every run that has a limit ends in one of the ways of `Ending`. -/
theorem Solver.ended (A : Operator σ R) (g : Prox σ R) (x0 : Option (Vec R)) {c : Config σ R}
    (w : World σ R) (budget : c.maxIterations.toNat = .ok limit) :
    Ended A g x0 c w limit (questions A g x0 c w) (answerOf (solve A g x0 c w)) := by
  rw [← answerOf_transcribed]
  unfold questions
  rcases solve_ends A.transcribed g.transcribed x0 c.transcribed w.transcribed with
    ⟨e, w', failed, ends⟩ | ⟨_, _, e, _, unlimited, _⟩ | ⟨vs, b, out, passes, resting, stops, ends⟩
  · have none := launch_questions A g x0 c w
    rw [failed] at none
    change w'.env.questions = [] at none
    rw [ends]
    change Ended A g x0 c w limit w'.env.questions (.error e)
    rw [none]
    exact ⟨.unlaunched (launch_unasked _ _ _ _ _ _ _ failed), rfl, by simp⟩
  · cases budget.symm.trans unlimited
  · obtain ⟨place, left, s, w₁⟩ := b
    obtain rfl : place = .resting := resting
    rw [ends]
    exact stops.ended budget passes

end Run

end Transcribed

end ForwardBackward
