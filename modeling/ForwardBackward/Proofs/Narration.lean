/-
# ForwardBackward.Proofs.Narration -- what a run tells of itself

On a course two moves tell anything: the one behind the search for a step size, of a
search that failed and then of the iteration, and the one behind the search along the
direction, of a search that failed (`Snapshot.tells`, `Course.notes_eq`).  So the status
lines on the way are those of the reported iterations, one after the other
(`Turn.rows_eq`, `Course.rows_eq`), and where every iteration is reported each failed
search that is counted is told of (`Turn.failures_told`, `Course.failures_told`).

Before the course there is what the launch tells, and behind it a last status line and
what became of the run.  The notes of a run that returns can therefore be read off its
result (`Solver.Narrates`, `Solver.notes_match_result`), in every arithmetic and for
every operator and proximal step.
-/
import ForwardBackward.Proofs.Dialogue
import ForwardBackward.Proofs.Multiples
import ForwardBackward.Proofs.Notes

namespace ForwardBackward

set_option autoImplicit false

/-! ## The notes of a course -/

section Courses

variable {σ R : Type} [Scalar R] {c : Config σ R} {A : Operator σ R} {g : Prox σ R}
  {a b d : Snapshot σ R} {vs : List (Snapshot σ R)}

/-- What is told between a snapshot and the next. -/
def Snapshot.tells (c : Config σ R) (v : Snapshot σ R) : List (Note R) :=
  match v.place with
  | .measured found =>
      c.failureNotes (found.getD true) (.gammaSearchExhausted v.state.iteration) ++
        c.statusNotes v.state.record
  | .moved found => c.failureNotes found (.tauSearchExhausted v.state.iteration)
  | _ => []

theorem Move.notes_eq (step : Move c A g b d) :
    d.world.notes.toList = b.world.notes.toList ++ b.tells c := by
  have untold : ∀ {w w' : World σ R}, w'.notes = w.notes →
      w'.notes.toList = w.notes.toList ++ [] := by
    intro w w' same
    rw [same, List.append_nil]
  cases step with
  | search goes called | skip goes called =>
      exact untold ((Run.call_notes called).trans (Solver.consult_notes goes))
  | bounded | unbounded | exhaust => exact untold rfl
  | halve _ called | aim called | depart _ called | accept called | reject called =>
      exact untold (Run.call_notes called)
  | @settle _ found _ _ _ _ _ announced settled =>
      rw [Solver.settle_notes settled, Solver.announce_notes announced, List.append_assoc]
      rfl
  | approve reported approved =>
      obtain ⟨_, _, rfl⟩ := Solver.approve_returns.mp approved
      exact Solver.reportExhausted_notes reported

/-- The notes of a course are those of its snapshots, one after the other. -/
theorem Course.notes_eq (course : Course c A g a vs b) :
    b.world.notes.toList = a.world.notes.toList ++ vs.flatMap (Snapshot.tells c) := by
  induction course with
  | stay => simp
  | move _ step ih =>
      rw [step.notes_eq, ih, List.flatMap_append, List.flatMap_singleton, List.append_assoc]

/-- On the way a run tells of failed searches, if every iteration is reported, and of iterations. -/
theorem Snapshot.level_of_tells {v : Snapshot σ R} {n : Note R} (told : n ∈ v.tells c) :
    c.verbosity = .everyIteration ∧ n.level = .debug ∨ c.verbosity ≠ .off ∧ n.level = .info := by
  obtain ⟨place, left, s, w⟩ := v
  cases place with
  | measured found =>
      rcases List.mem_append.mp told with told | told
      · obtain ⟨every, rfl⟩ := Config.mem_failureNotes told
        exact .inl ⟨every, rfl⟩
      · exact .inr (Config.mem_statusNotes told)
  | moved found =>
      obtain ⟨every, rfl⟩ := Config.mem_failureNotes told
      exact .inl ⟨every, rfl⟩
  | _ => cases told

/-- Where nothing is wanted nothing is told on the way. -/
theorem Snapshot.tells_of_off (off : c.verbosity = .off) (vs : List (Snapshot σ R)) :
    vs.flatMap (Snapshot.tells c) = [] := by
  refine List.flatMap_eq_nil_iff.mpr fun v _ => List.eq_nil_iff_forall_not_mem.mpr fun n told => ?_
  rcases level_of_tells told with ⟨every, _⟩ | ⟨wanted, _⟩
  · cases off.symm.trans every
  · exact wanted off

/-- On the way nothing is told of the end. -/
theorem Snapshot.no_verdict_of_tells (vs : List (Snapshot σ R)) :
    (vs.flatMap (Snapshot.tells c)).filter Note.isVerdict = [] := by
  refine List.filter_eq_nil_iff.mpr fun n inside ends => ?_
  obtain ⟨v, _, told⟩ := List.mem_flatMap.mp inside
  rcases level_of_tells told with ⟨_, level⟩ | ⟨_, level⟩ <;> cases n <;> cases level <;> cases ends

/-- Where not every iteration is reported no failed search is told of. -/
theorem Snapshot.count_debug_of_tells (other : c.verbosity ≠ .everyIteration)
    (vs : List (Snapshot σ R)) : Note.count .debug (vs.flatMap (Snapshot.tells c)) = 0 := by
  refine List.countP_eq_zero.mpr fun n inside debug => ?_
  obtain ⟨v, _, told⟩ := List.mem_flatMap.mp inside
  rcases level_of_tells told with ⟨every, _⟩ | ⟨_, info⟩
  · exact other every
  · cases info.symm.trans (of_decide_eq_true debug)

/-! ### Status lines -/

theorem Turn.unsettled_le (turn : Turn c b d) (within : b.place.unsettled ≤ b.state.iteration) :
    d.place.unsettled ≤ d.state.iteration := by
  cases turn with
  | search | skip => exact Nat.succ_le_succ (Nat.zero_le _)
  | bounded | halve | unbounded => exact within
  | settle | aim | depart | accept | reject | exhaust | approve => exact Nat.zero_le _

/-- The iterations that are past their status line. -/
def Snapshot.settled (v : Snapshot σ R) : Nat := v.state.iteration - v.place.unsettled

/-- A move adds the status line of the iteration that it settles. -/
theorem Turn.rows_eq (turn : Turn c b d) (within : b.place.unsettled ≤ b.state.iteration) :
    (c.reported d.settled).map (fun i : Nat => (i : Int)) =
      (c.reported b.settled).map (fun i : Nat => (i : Int)) ++
        (Note.rows (b.tells c)).map StatusRow.iteration := by
  cases turn with
  -- The only move after which one more iteration is past its status line.
  | @settle left found s =>
      change 1 ≤ s.iteration at within
      obtain ⟨n, one⟩ := Nat.exists_eq_add_of_le' within
      change (c.reported s.iteration).map _ = (c.reported (s.iteration - 1)).map _ ++
        (Note.rows (c.failureNotes _ _ ++ c.statusNotes _)).map _
      rw [Note.rows_append, Config.rows_failureNotes rfl, Config.rows_statusNotes]
      change _ = _ ++ (if c.reports s.iteration then [s.record.statusRow] else []).map _
      rw [one, c.reported_succ, Nat.add_sub_cancel, List.map_append]
      congr 1
      split
      · change [((n + 1 : ℕ) : Int)] = [((s.iteration : ℕ) : Int)]
        rw [one]
      · rfl
  | @approve left found =>
      change _ = _ ++ (Note.rows (c.failureNotes _ _)).map _
      rw [Config.rows_failureNotes rfl, List.map_nil, List.append_nil]
      rfl
  | search | skip | bounded | halve | unbounded | aim | depart | accept | reject | exhaust =>
      exact (List.append_nil _).symm

theorem Course.rows_eq (course : Course c A g a vs b) (fresh : a.settled = 0)
    (within : a.place.unsettled ≤ a.state.iteration) :
    (Note.rows (vs.flatMap (Snapshot.tells c))).map StatusRow.iteration =
      (c.reported b.settled).map fun i : Nat => (i : Int) := by
  induction course with
  | stay =>
      rw [fresh]
      rfl
  | @move vs b d before step ih =>
      have here : b.place.unsettled ≤ b.state.iteration := before.invariant
        (P := fun v => v.place.unsettled ≤ v.state.iteration)
        (fun _ _ within step => step.turn.unsettled_le within) within
      rw [List.flatMap_append, List.flatMap_singleton, Note.rows_append, List.map_append, ih,
        step.turn.rows_eq here]

/-! ### Failed searches -/

/-- The failed searches that are counted and not told of yet. -/
def Place.untold : Place R → Nat
  | .measured (some false) | .moved false => 1
  | _ => 0

/-- The searches that have failed so far. -/
def State.failures (s : State R) : Nat := s.gammaFailures + s.tauFailures

/-- Where every iteration is reported, a search that is counted as failed is told of next. -/
theorem Turn.failures_told (turn : Turn c b d) (every : c.verbosity = .everyIteration) :
    b.state.failures + Note.count .debug (b.tells c) + d.place.untold =
      d.state.failures + b.place.untold := by
  cases turn with
  | @settle left found s =>
      change s.failures + Note.count .debug (c.failureNotes _ _ ++ c.statusNotes _) + 0 =
        s.failures + _
      rw [Note.count_append, Config.count_debug_statusNotes, Config.count_debug_failureNotes every rfl]
      rcases found with _ | _ | _ <;> rfl
  | @approve left found s =>
      change s.failures + Note.count .debug (c.failureNotes _ _) + 0 = s.failures + _
      rw [Config.count_debug_failureNotes every rfl]
      cases found <;> rfl
  -- These two count a failure, and leave it to the next move to tell of it.
  | @unbounded left s =>
      change s.gammaFailures + s.tauFailures + 0 + 1 = s.gammaFailures + 1 + s.tauFailures + 0
      omega
  | @exhaust left tau level s =>
      change s.gammaFailures + s.tauFailures + 0 + 1 = s.gammaFailures + (s.tauFailures + 1) + 0
      omega
  | search | skip | bounded | halve | aim | depart | accept | reject => rfl

/-- The failed searches of a course are told of on the way. -/
theorem Course.failures_told (course : Course c A g a vs b)
    (every : c.verbosity = .everyIteration) :
    a.state.failures + Note.count .debug (vs.flatMap (Snapshot.tells c)) + b.place.untold =
      b.state.failures + a.place.untold := by
  induction course with
  | stay => rfl
  | move _ step ih =>
      have turned := step.turn.failures_told every
      rw [List.flatMap_append, List.flatMap_singleton, Note.count_append]
      omega

end Courses

/-! ## The notes of a run -/

namespace Solver

variable {σ R : Type} [Scalar R] {c : Config σ R} {A : Operator σ R} {g : Prox σ R}
  {x0 : Option (Vec R)} {w w' : World σ R} {r : Result R}

/-- The notes of a run that returns: those of its launch, of its course and of its end. -/
theorem notes_of_solve (returned : solve A g x0 c w = .ok r w') :
    ∃ ns vs b status, Passes A g x0 c w vs b ∧ b.place = .resting ∧ r = b.state.result status ∧
      (∀ n ∈ ns, c.Opens n) ∧
      w'.notes.toList = w.notes.toList ++
        (ns ++ vs.flatMap (Snapshot.tells c) ++ c.closing status b.state) := by
  obtain ⟨vs, b, status, w₁, ⟨s₀, w₀, limit, launched, budget, course⟩, resting, rfl, ends, told⟩ :=
    ends_of_solve returned
  obtain ⟨ns, opened, opens⟩ := launch_adds x0 w s₀ w₀ launched
  have asked : w₁.notes = b.world.notes := by
    rcases ends with ⟨_, rfl⟩ | asked
    · rfl
    · exact consult_notes asked
  refine ⟨ns, vs, b, status, ⟨s₀, w₀, limit, launched, budget, course⟩, resting, rfl, opens, ?_⟩
  have way : b.world.notes.toList = w₀.notes.toList ++ _ := course.notes_eq
  rw [conclude_notes told, asked, way, opened]
  simp only [List.append_assoc]

/-- What the notes of a run with the result `r` tell. -/
structure Narrates (c : Config σ R) (r : Result R) (ns : List (Note R)) : Prop where
  /-- Where nothing is wanted nothing is told. -/
  silent : c.verbosity = .off → ns = []
  /-- Each iteration that is reported has its status line, in their order, and the result has the
  last one. -/
  rows : c.verbosity ≠ .off → ∃ lines tau,
    Note.rows ns = lines ++ [⟨r.iterations, r.gamma, r.residual, tau, r.cost, 0⟩] ∧
      lines.map StatusRow.iteration = (c.reported r.iterations).map fun i : Nat => (i : Int)
  infos : c.verbosity ≠ .off → Note.count .info ns = (c.reported r.iterations).length + 1
  everyIteration : c.verbosity = .everyIteration →
    c.reported r.iterations = List.range' 1 r.iterations ∧
      Note.count .info ns = r.iterations + 1
  /-- A whole period reports its multiples. -/
  periodic : c.verbosity = .periodic → ∀ period, c.reportPeriod.toNat = .ok period →
    c.reported r.iterations = List.range' period (r.iterations / period) period ∧
      Note.count .info ns = r.iterations / period + 1
  success : c.verbosity ≠ .off → ((∃ n ∈ ns, n.level = .success) ↔ r.status = .converged)
  spent : c.verbosity ≠ .off →
    (.iterationsSpent c.maxIterations ∈ ns ↔ r.status = .iterationsSpent) ∧
      (.advice ∈ ns ↔ r.status = .iterationsSpent)
  /-- The end is told once. -/
  verdict : c.verbosity ≠ .off → ns.filter Note.isVerdict = c.verdict r.status r.iterations
  /-- Each failed search is told of where every iteration is reported, and none elsewhere. -/
  failures : Note.count .debug ns =
    if c.verbosity = .everyIteration then r.gammaFailures + r.tauFailures else 0

theorem rows_of_opens {ns : List (Note R)} (opens : ∀ n ∈ ns, c.Opens n) :
    Note.rows ns = [] := by
  refine List.filterMap_eq_nil_iff.mpr fun n inside => ?_
  obtain ⟨_, rfl | ⟨_, rfl⟩⟩ := opens n inside <;> rfl

theorem no_verdict_of_opens {ns : List (Note R)} (opens : ∀ n ∈ ns, c.Opens n) :
    ns.filter Note.isVerdict = [] := by
  refine List.filter_eq_nil_iff.mpr fun n inside => ?_
  obtain ⟨_, rfl | ⟨_, rfl⟩⟩ := opens n inside <;> nofun

theorem count_debug_of_opens {ns : List (Note R)} (opens : ∀ n ∈ ns, c.Opens n) :
    Note.count .debug ns = 0 := by
  refine List.countP_eq_zero.mpr fun n inside => ?_
  obtain ⟨_, rfl | ⟨_, rfl⟩⟩ := opens n inside <;> nofun

/-- The status lines of a run that reports. -/
theorem Passes.rows_eq {vs : List (Snapshot σ R)} {b : Snapshot σ R}
    (passes : Passes A g x0 c w vs b) (resting : b.place = .resting) :
    (Note.rows (vs.flatMap (Snapshot.tells c))).map StatusRow.iteration =
      (c.reported b.state.iteration).map fun i : Nat => (i : Int) := by
  obtain ⟨s₀, w₀, limit, launched, _, course⟩ := passes
  have zero : s₀.iteration = 0 := (launch_starts launched).1
  have rows := course.rows_eq (show s₀.iteration - 0 = 0 from zero) (Nat.zero_le _)
  rwa [Snapshot.settled, resting] at rows

theorem Passes.failures_told {vs : List (Snapshot σ R)} {b : Snapshot σ R}
    (passes : Passes A g x0 c w vs b) (resting : b.place = .resting) :
    Note.count .debug (vs.flatMap (Snapshot.tells c)) =
      if c.verbosity = .everyIteration then b.state.gammaFailures + b.state.tauFailures else 0 := by
  obtain ⟨s₀, w₀, limit, launched, _, course⟩ := passes
  split
  · next every =>
      obtain ⟨_, gammaFailures, tauFailures, _⟩ := launch_starts launched
      have told := course.failures_told every
      rw [resting] at told
      change s₀.gammaFailures + s₀.tauFailures + _ + 0 = _ + 0 at told
      rw [gammaFailures, tauFailures] at told
      exact (Nat.zero_add _).symm.trans told
  · next other => exact Snapshot.count_debug_of_tells other vs

/-- What the notes of a run tell of its end is found among those that tell of an end. -/
theorem mem_iff_of_verdict {ns : List (Note R)} {status : Status} {iterations : Nat}
    (verdict : ns.filter Note.isVerdict = c.verdict status iterations) {n : Note R}
    (ends : n.isVerdict = true) : n ∈ ns ↔ n ∈ c.verdict status iterations := by
  rw [← verdict, List.mem_filter]
  exact (and_iff_left ends).symm

theorem success_iff_of_verdict {ns : List (Note R)} {status : Status} {iterations : Nat}
    (verdict : ns.filter Note.isVerdict = c.verdict status iterations) :
    (∃ n ∈ ns, n.level = .success) ↔ status = .converged := by
  constructor
  · rintro ⟨n, inside, success⟩
    have told := (mem_iff_of_verdict verdict (Note.isVerdict_of_success success)).mp inside
    cases status with
    | converged => rfl
    | iterationsSpent =>
        rcases List.mem_cons.mp told with rfl | told
        · cases success
        · obtain rfl := List.mem_singleton.mp told
          cases success
  · rintro rfl
    exact ⟨_, (mem_iff_of_verdict verdict rfl).mpr (List.mem_singleton.mpr rfl), rfl⟩

theorem spent_iff_of_verdict {ns : List (Note R)} {status : Status} {iterations : Nat}
    (verdict : ns.filter Note.isVerdict = c.verdict status iterations) :
    (.iterationsSpent c.maxIterations ∈ ns ↔ status = .iterationsSpent) ∧
      (.advice ∈ ns ↔ status = .iterationsSpent) := by
  constructor <;> rw [mem_iff_of_verdict verdict rfl] <;> cases status <;> simp [Config.verdict]

/-- The notes of a run match its result, whatever the operator, the proximal step, the options and
the arithmetic are. -/
theorem notes_match_result (returned : solve A g x0 c w = .ok r w') :
    ∃ ns, w'.notes.toList = w.notes.toList ++ ns ∧ Narrates c r ns := by
  obtain ⟨ns, vs, b, status, passes, resting, rfl, opens, notes⟩ := notes_of_solve returned
  have lines := passes.rows_eq resting
  have rows : c.verbosity ≠ .off →
      Note.rows (ns ++ vs.flatMap (Snapshot.tells c) ++ c.closing status b.state) =
        Note.rows (vs.flatMap (Snapshot.tells c)) ++ [b.state.statusRow] := by
    intro wanted
    rw [Note.rows_append, Note.rows_append, rows_of_opens opens, Config.rows_closing wanted,
      List.nil_append]
  have infos : c.verbosity ≠ .off →
      Note.count .info (ns ++ vs.flatMap (Snapshot.tells c) ++ c.closing status b.state) =
        (c.reported b.state.iteration).length + 1 := by
    intro wanted
    have lengths := congrArg List.length lines
    rw [List.length_map, List.length_map] at lengths
    rw [Note.count_info, rows wanted, List.length_append, lengths]
    rfl
  have verdict : c.verbosity ≠ .off →
      (ns ++ vs.flatMap (Snapshot.tells c) ++ c.closing status b.state).filter Note.isVerdict =
        c.verdict status b.state.iteration := by
    intro wanted
    rw [List.filter_append, List.filter_append, no_verdict_of_opens opens,
      Snapshot.no_verdict_of_tells, Config.verdict_of_closing wanted]
    rfl
  refine ⟨_, notes, ?silent, ?rows, infos, ?everyIteration, ?periodic, ?success, ?spent, verdict,
    ?failures⟩
  case silent =>
    intro off
    have none : ns = [] := List.eq_nil_iff_forall_not_mem.mpr fun n inside =>
      (opens n inside).1 off
    rw [none, Snapshot.tells_of_off off, Config.closing, if_pos off]
    rfl
  case rows => exact fun wanted => ⟨_, b.state.tau, rows wanted, lines⟩
  case everyIteration =>
    intro every
    have all := Config.reported_everyIteration every b.state.iteration
    have wanted : c.verbosity ≠ .off := ne_of_eq_of_ne every (by decide)
    refine ⟨all, (infos wanted).trans ?_⟩
    rw [all, List.length_range']
    rfl
  case periodic =>
    intro periodic period whole
    have multiples := Config.reported_periodic periodic whole b.state.iteration
    have wanted : c.verbosity ≠ .off := ne_of_eq_of_ne periodic (by decide)
    refine ⟨multiples, (infos wanted).trans ?_⟩
    rw [multiples, List.length_range']
    rfl
  case success => exact fun wanted => success_iff_of_verdict (verdict wanted)
  case spent => exact fun wanted => spent_iff_of_verdict (verdict wanted)
  case failures =>
    rw [Note.count_append, Note.count_append, count_debug_of_opens opens,
      passes.failures_told resting, c.count_debug_closing, Nat.zero_add, Nat.add_zero]
    rfl

end Solver

/-! ## A run that reports every second iteration -/

namespace Plain

/-- Four iterations, of which every second is reported. -/
noncomputable def reporting : Config Unit Exact :=
  { config (1 / 2) with maxIterations := .whole 4, reportPeriod := .whole 2 }

theorem reporting_checked : reporting.Checked := by
  refine ⟨{ Settings.standard with
    tolerance := .fraction (.real 1), maxIterations := .whole 4, memory := .whole 0
    reportPeriod := .whole 2, stepSize := .fraction (.real (1 / 2)) },
    some (.always (.decided false)), ?_⟩
  unfold Config.ofSettings
  rw [Setting.tolerance_of_positive one_pos, Setting.stepSize_of_positive one_half_pos]
  rfl

theorem reporting_returns :
    ∃ r w', Solver.solve operator prox (some start) reporting world = .ok r w' := by
  have served : Solver.Served operator prox reporting 32 :=
    { served (1 / 2) with decides := fun _ _ env => ⟨false, env, rfl⟩ }
  exact Solver.returns meaning served reporting_checked rfl rfl rfl start_finite start_accepted world

end Plain

/-- The plain problem tells of its second and of its fourth iteration, and then of the result. -/
theorem Solver.plain_notes_match_result : ∃ r w',
    solve Plain.operator Plain.prox (some Plain.start) Plain.reporting Plain.world = .ok r w' ∧
      r.iterations = 4 ∧
      (Note.rows w'.notes.toList).map StatusRow.iteration = [2, 4, 4] ∧
      Note.count .info w'.notes.toList = 3 ∧ Note.count .debug w'.notes.toList = 0 ∧
      w'.notes.toList.filter Note.isVerdict = [.iterationsSpent (.whole 4), .advice] := by
  obtain ⟨r, w', returned⟩ := Plain.reporting_returns
  obtain ⟨spent, four⟩ := iterations_of_patient rfl (fun _ _ => rfl) returned
  obtain ⟨ns, notes, narrates⟩ := notes_match_result returned
  obtain rfl : ns = w'.notes.toList := notes.symm
  have wanted : Plain.reporting.verbosity ≠ .off := nofun
  obtain ⟨lines, tau, rows, iterations⟩ := narrates.rows wanted
  obtain ⟨multiples, infos⟩ := narrates.periodic rfl 2 rfl
  rw [multiples, four] at iterations
  refine ⟨r, w', returned, four, ?_, ?_, ?_, ?_⟩
  · rw [rows, List.map_append, iterations, four]
    rfl
  · rw [infos, four]
  · exact narrates.failures
  · rw [narrates.verdict wanted, spent]
    rfl

end ForwardBackward
