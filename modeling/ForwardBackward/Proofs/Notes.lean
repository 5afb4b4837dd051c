/-
# ForwardBackward.Proofs.Notes -- what the parts of a run tell

A run only ever adds notes, and what a part of it adds is known from the options and the
state: a status line if the iteration is reported (`Solver.settle_notes`), a note about
a search that failed (`Solver.announce_notes`, `Solver.reportExhausted_notes`), the last
status line with what became of the run (`Solver.conclude_notes`).  Calls, checks and
questions to the predicate tell nothing.  A launch tells of itself only
(`Solver.launch_adds`).

The iterations that are reported are those that the options want a status line for
(`Config.reported`).  A whole period wants its multiples (`Config.reported_periodic`); a
period that is no whole number wants the iterations that it divides.

A note is printed at its level, and a line without colours shows by its first
characters which level that is (`Level.opens_iff`, `Note.count_eq_lines`).
-/
import ForwardBackward.Proofs.Course

namespace ForwardBackward

set_option autoImplicit false

/-! ## Levels and lines -/

/-- How a line of a level opens where there are no colours. -/
def Level.mark : Level → String
  | banner => "="
  | info => "[INFO] "
  | success => "✓ "
  | warning => "[WARNING] "
  | hint => "[HINT] "
  | debug => "[DEBUG] "

/-- A printed message opens with the mark of its level and with no other. -/
theorem Level.opens_iff (l k : Level) (message : String) :
    k.mark.toList <+: (l.line .plain message).toList ↔ l = k := by
  cases l <;> cases k <;>
    simp [line, mark, Palette.plain, bannerLine, String.toList_append]

namespace Note

variable {R : Type}

/-- The row of a status line. -/
def row? : Note R → Option (StatusRow R)
  | status row => some row
  | _ => none

/-- Whether a note tells how a run ended. -/
def isVerdict : Note R → Bool
  | converged _ _ | iterationsSpent _ | advice => true
  | _ => false

theorem isVerdict_of_success {n : Note R} (success : n.level = .success) : n.isVerdict = true := by
  cases n with
  | converged => rfl
  | _ => cases success

/-- The rows of the status lines among some notes. -/
def rows (ns : List (Note R)) : List (StatusRow R) := ns.filterMap row?

/-- How many of some notes are of a level. -/
def count (l : Level) (ns : List (Note R)) : Nat := ns.countP fun n => n.level = l

theorem rows_append (ns ms : List (Note R)) : rows (ns ++ ms) = rows ns ++ rows ms :=
  List.filterMap_append

theorem count_append (l : Level) (ns ms : List (Note R)) :
    count l (ns ++ ms) = count l ns + count l ms :=
  List.countP_append

/-- The status lines are the lines of their level. -/
theorem count_info (ns : List (Note R)) : count .info ns = (rows ns).length := by
  induction ns with
  | nil => rfl
  | cons n ns ih =>
      rw [← List.singleton_append, count_append, rows_append, List.length_append, ih]
      cases n <;> rfl

/-- The notes of a level are the printed lines that open with its mark. -/
theorem count_eq_lines (l : Level) (ns : List (Note Float)) :
    (ns.map (line .plain)).countP (fun text => l.mark.toList <+: text.toList) = count l ns := by
  rw [List.countP_map]
  refine List.countP_congr fun n _ => ?_
  simp only [Function.comp_apply, decide_eq_true_eq]
  exact n.level.opens_iff l n.message

end Note

/-! ## What is wanted -/

namespace Config

variable {σ R : Type} [Scalar R] (c : Config σ R)

/-- Whether a status line is wanted for an iteration. -/
def reports (iteration : Nat) : Bool :=
  match c.verbosity with
  | .off => false
  | .periodic => c.isDue iteration
  | .everyIteration => true

/-- The iterations up to a number that are reported. -/
def reported (n : Nat) : List Nat := (List.range' 1 n).filter c.reports

theorem reported_succ (n : Nat) :
    c.reported (n + 1) = c.reported n ++ if c.reports (n + 1) then [n + 1] else [] := by
  rw [reported, List.range'_1_concat, List.filter_append, Nat.add_comm 1 n]
  by_cases wanted : c.reports (n + 1) = true <;> simp [reported, wanted]

variable {c}

theorem reported_everyIteration (every : c.verbosity = .everyIteration) (n : Nat) :
    c.reported n = List.range' 1 n := by
  refine List.filter_eq_self.mpr fun i _ => ?_
  rw [reports, every]

theorem reports_periodic (periodic : c.verbosity = .periodic) {period : Nat}
    (whole : c.reportPeriod.toNat = .ok period) (iteration : Nat) :
    c.reports iteration = decide (period ∣ iteration) := by
  rw [reports, periodic]
  simp only [isDue, Nat.dvd_iff_mod_eq_zero]
  cases given : c.reportPeriod with
  | whole n | flag b =>
      rw [given] at whole
      cases whole
      rfl
  | fraction x =>
      rw [given] at whole
      cases whole

/-- A whole period reports its multiples. -/
theorem reported_periodic (periodic : c.verbosity = .periodic) {period : Nat}
    (whole : c.reportPeriod.toNat = .ok period) (n : Nat) :
    c.reported n = List.range' period (n / period) period := by
  induction n with
  | zero => simp [reported]
  | succ n ih =>
      rw [reported_succ, ih, reports_periodic periodic whole, Nat.succ_div]
      by_cases divides : period ∣ n + 1
      · have last : period + period * (n / period) = n + 1 := by
          have whole := Nat.mul_div_cancel' divides
          rw [Nat.succ_div, if_pos divides, Nat.mul_succ, Nat.add_comm] at whole
          exact whole
        simp only [divides, decide_true, if_true, List.range'_concat, last]
      · simp [divides]

end Config

/-- A period of one and a half reports the third iteration, and none before it. -/
example {c : Config Unit Float} (periodic : c.verbosity = .periodic)
    (given : c.reportPeriod = .fraction 1.5) : c.reported 3 = [3] := by
  have due : c.reports = fun i : Nat => Scalar.divides (1.5 : Float) (Scalar.ofInt i) := by
    funext i
    simp only [Config.reports, periodic, Config.isDue, given]
  rw [Config.reported, due]
  decide +kernel

/-! ## What the parts of a run add -/

namespace Config

variable {σ R : Type} [Scalar R] (c : Config σ R)

/-- The status line of a state, if it is wanted. -/
def statusNotes (s : State R) : List (Note R) :=
  if c.reports s.iteration then [.status s.statusRow] else []

/-- The note about a search, if it failed and such notes are wanted. -/
def failureNotes (found : Bool) (n : Note R) : List (Note R) :=
  if !found && c.verbosity = .everyIteration then [n] else []

variable {c}

theorem wanted_of_reports {iteration : Nat} (reports : c.reports iteration = true) :
    c.verbosity ≠ .off := by
  intro off
  rw [Config.reports, off] at reports
  cases reports

theorem mem_statusNotes {s : State R} {n : Note R} (inside : n ∈ c.statusNotes s) :
    c.verbosity ≠ .off ∧ n.level = .info := by
  unfold statusNotes at inside
  split at inside
  · next reports =>
      obtain rfl := List.mem_singleton.mp inside
      exact ⟨wanted_of_reports reports, rfl⟩
  · cases inside

theorem mem_failureNotes {found : Bool} {m n : Note R} (inside : n ∈ c.failureNotes found m) :
    c.verbosity = .everyIteration ∧ n = m := by
  unfold failureNotes at inside
  split at inside
  · next told =>
      simp only [Bool.and_eq_true, decide_eq_true_eq] at told
      exact ⟨told.2, List.mem_singleton.mp inside⟩
  · cases inside

theorem rows_statusNotes (s : State R) :
    Note.rows (c.statusNotes s) = if c.reports s.iteration then [s.statusRow] else [] := by
  unfold statusNotes
  split <;> rfl

theorem count_debug_statusNotes (s : State R) : Note.count .debug (c.statusNotes s) = 0 := by
  unfold statusNotes
  split <;> rfl

theorem rows_failureNotes {n : Note R} (other : n.row? = none) (found : Bool) :
    Note.rows (c.failureNotes found n) = [] := by
  unfold failureNotes
  split <;> simp [Note.rows, other]

theorem count_debug_failureNotes (every : c.verbosity = .everyIteration) {n : Note R}
    (debug : n.level = .debug) (found : Bool) :
    Note.count .debug (c.failureNotes found n) = if found then 0 else 1 := by
  cases found <;> simp [failureNotes, every, Note.count, debug]

variable (c)

/-- How a run ended. -/
def verdict (status : Status) (iterations : Nat) : List (Note R) :=
  match status with
  | .converged => [.converged iterations 0]
  | .iterationsSpent => [.iterationsSpent c.maxIterations, .advice]

/-- The notes of the end, if any are wanted. -/
def closing (status : Status) (s : State R) : List (Note R) :=
  if c.verbosity = .off then [] else .status s.statusRow :: c.verdict status s.iteration

variable {c}

theorem rows_closing (wanted : c.verbosity ≠ .off) (status : Status) (s : State R) :
    Note.rows (c.closing status s) = [s.statusRow] := by
  rw [closing, if_neg wanted]
  cases status <;> rfl

theorem verdict_of_closing (wanted : c.verbosity ≠ .off) (status : Status) (s : State R) :
    (c.closing status s).filter Note.isVerdict = c.verdict status s.iteration := by
  rw [closing, if_neg wanted]
  cases status <;> rfl

variable (c)

theorem count_debug_closing (status : Status) (s : State R) :
    Note.count .debug (c.closing status s) = 0 := by
  unfold closing
  split
  · rfl
  · cases status <;> rfl

/-- A note of a launch: its opening, or that it found no step size to estimate. -/
def Opens (n : Note R) : Prop :=
  c.verbosity ≠ .off ∧ (n = .opening ∨ ∃ lipschitz, n = .degenerateEstimate lipschitz)

end Config

theorem Run.call_notes {σ R α : Type} {m : Call σ α} {a : α} {w w' : World σ R}
    (returned : Run.call m w = .ok a w') : w'.notes = w.notes := by
  obtain ⟨env, _, rfl⟩ := Run.call_returns.mp returned
  rfl

/-- Whatever a part of a run adds, where it returns, is of a kind. -/
def Run.Adds {σ R α : Type} (P : Note R → Prop) (m : Run σ R α) : Prop :=
  ∀ w a w', m w = .ok a w' → ∃ ns, w'.notes.toList = w.notes.toList ++ ns ∧ ∀ n ∈ ns, P n

namespace Run.Adds

variable {σ R α β : Type} {P : Note R → Prop}

theorem of_notes_eq {m : Run σ R α} (same : ∀ w a w', m w = .ok a w' → w'.notes = w.notes) :
    Adds P m := fun w a w' returned =>
  ⟨[], by rw [same w a w' returned, List.append_nil], nofun⟩

protected theorem pure (a : α) : Adds P (pure a : Run σ R α) :=
  of_notes_eq fun _ _ _ returned => by rw [(pure_returns.mp returned).2]

protected theorem bind {m : Run σ R α} {f : α → Run σ R β} (first : Adds P m)
    (rest : ∀ a, Adds P (f a)) : Adds P (m >>= f) := by
  intro w b w' returned
  obtain ⟨a, w₁, before, after⟩ := bind_returns.mp returned
  obtain ⟨ns, added, inside⟩ := first w a w₁ before
  obtain ⟨ms, added', inside'⟩ := rest a w₁ b w' after
  refine ⟨ns ++ ms, by rw [added', added, List.append_assoc], fun n among => ?_⟩
  rcases List.mem_append.mp among with among | among
  · exact inside n among
  · exact inside' n among

protected theorem ite {p : Prop} [Decidable p] {m n : Run σ R α} (yes : p → Adds P m)
    (no : Adds P n) : Adds P (if p then m else n) := by
  by_cases holds : p
  · rw [if_pos holds]
    exact yes holds
  · rw [if_neg holds]
    exact no

theorem call (m : Call σ α) : Adds P (Run.call m : Run σ R α) :=
  of_notes_eq fun _ _ _ => Run.call_notes

theorem refuse (x : Except Fault α) : Adds P (Run.refuse x : Run σ R α) :=
  of_notes_eq fun _ _ _ returned => by rw [(refuse_returns.mp returned).2]

theorem note {n : Note R} (allowed : P n) : Adds P (Run.note n : Run σ R Unit) := by
  intro w a w' returned
  cases returned
  exact ⟨[n], Array.toList_push, by simpa using allowed⟩

end Run.Adds

theorem State.certify_adds {σ R : Type} [Scalar R] {P : Note R → Prop} (s : State R)
    (what : Monitored) (finite : Bool) :
    Run.Adds P (s.certify what finite : Run σ R (State R)) :=
  .of_notes_eq fun _ _ _ returned => by rw [(certify_returns.mp returned).2.2]

namespace Solver

variable {σ R : Type} [Scalar R] {c : Config σ R} {A : Operator σ R} {g : Prox σ R}
  {s s' : State R} {w w' : World σ R}

theorem report_notes (returned : report c s w = .ok () w') :
    w'.notes.toList = w.notes.toList ++ c.statusNotes s := by
  unfold report at returned
  unfold Config.statusNotes Config.reports
  cases wanted : c.verbosity with
  | off =>
      rw [wanted] at returned
      cases returned
      exact (List.append_nil _).symm
  | everyIteration =>
      rw [wanted] at returned
      cases returned
      exact Array.toList_push
  | periodic =>
      rw [wanted] at returned
      cases due : c.isDue s.iteration <;> rw [due] at returned <;> cases returned
      · exact (List.append_nil _).symm
      · exact Array.toList_push

theorem reportExhausted_notes {found : Bool} {n : Note R}
    (returned : reportExhausted c found n w = .ok () w') :
    w'.notes.toList = w.notes.toList ++ c.failureNotes found n := by
  unfold reportExhausted at returned
  unfold Config.failureNotes
  split at returned
  · next told =>
      rw [if_pos told]
      cases returned
      exact Array.toList_push
  · next untold =>
      rw [if_neg untold]
      cases returned
      exact (List.append_nil _).symm

/-- Where there was no search nothing is told of one. -/
theorem announce_notes {found : Option Bool} (returned : announce c found s w = .ok () w') :
    w'.notes.toList = w.notes.toList ++
      c.failureNotes (found.getD true) (.gammaSearchExhausted s.iteration) := by
  cases found with
  | none =>
      cases returned
      exact (List.append_nil _).symm
  | some found => exact reportExhausted_notes returned

theorem consult_notes {halt : Bool} (returned : consult c s w = .ok halt w') :
    w'.notes = w.notes := by
  have again := returned.symm.trans (consult_of_decided (consult_returns returned))
  rw [(EStateM.Result.ok.inj again).2]

theorem settle_notes (returned : settle c s w = .ok s' w') :
    w'.notes.toList = w.notes.toList ++ c.statusNotes s.record := by
  simp only [settle, bind_returns, pure_returns, State.certify_returns] at returned
  obtain ⟨_, _, ⟨_, rfl, rfl⟩, _, _, reported, rfl, rfl⟩ := returned
  exact report_notes reported

theorem conclude_notes {status : Status} (returned : conclude c status s w = .ok () w') :
    w'.notes.toList = w.notes.toList ++ c.closing status s := by
  unfold conclude at returned
  unfold Config.closing
  split at returned
  · next told =>
      rw [if_neg told]
      cases status <;> cases returned <;> simp [Config.verdict]
  · next untold =>
      rw [if_pos (Decidable.not_not.mp untold)]
      cases returned
      exact (List.append_nil _).symm

theorem firstGamma_adds : Run.Adds c.Opens (firstGamma c A s) := by
  unfold firstGamma
  cases c.stepSize with
  | some gamma => exact .pure _
  | none =>
      exact .bind (.call _) fun _ => .bind (.refuse _) fun _ =>
        .ite (fun _ => .pure _)
          (.ite (fun wanted => .bind (.note ⟨wanted, .inr ⟨_, rfl⟩⟩) fun _ => .pure _) (.pure _))

theorem begin_adds : Run.Adds c.Opens (begin c A g s) :=
  .bind (.call _) fun s => .bind (s.certify_adds _ _) fun _ => .bind firstGamma_adds fun _ =>
    .bind (.refuse _) fun _ => .bind (.call _) fun _ => State.certify_adds _ _ _

theorem launch_adds (x0 : Option (Vec R)) : Run.Adds c.Opens (launch A g x0 c) :=
  .bind (.refuse _) fun _ => .bind (.refuse _) fun _ =>
    .ite (fun wanted => .bind (.note ⟨wanted, .inl rfl⟩) fun _ => begin_adds) begin_adds

end Solver

end ForwardBackward
