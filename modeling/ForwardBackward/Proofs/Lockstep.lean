/-
# ForwardBackward.Proofs.Lockstep -- runs over two representations of vectors

A run knows its vectors only by what is done with them.  So let `S` relate the
variables of two problems and `T` their images, let all operations on vectors keep
these relations (`Vec.Congruence`), and let the operators and the proximal steps of
the two problems answer related vectors on related vectors: then the runs are in
lockstep.  Their numbers are the same at every moment, and therefore every test they
make; their vectors are related (`State.Paired`); and in the end both return, or both
fail, and leave the same world behind (`Solver.solve_parallel`).

Which vectors a run knows depends on its place.  A vector that is not known yet is
the same in both runs.  What one run visits, the other one visits in lockstep
(`Solver.Passes.paired`).
-/
import ForwardBackward.Proofs.Course
import ForwardBackward.Proofs.Parallel

namespace ForwardBackward

set_option autoImplicit false

/-! ## Capabilities -/

section Capabilities

variable {σ R : Type} [Scalar R] (S T : Vec R → Vec R → Prop)

/-- Operators that answer related images on related vectors, and back. -/
structure Operator.Paired (A A' : Operator σ R) : Prop where
  apply {x x' : Vec R} : S x x' → Parallel T (A.apply x) (A'.apply x')
  linearPart {x x' : Vec R} : S x x' →
    Parallel T (A.linearPart.apply x) (A'.linearPart.apply x')
  applyAdjoint {y y' : Vec R} : T y y' → Parallel S (A.applyAdjoint y) (A'.applyAdjoint y')

/-- Proximal steps to related points with the same values. -/
def Prox.Paired (g g' : Prox σ R) : Prop :=
  ∀ {v v' : Vec R} (gamma : R), S v v' → Parallel (Prox.Related S) (g.prox v gamma)
    (g'.prox v' gamma)

end Capabilities

/-! ## States -/

section States

variable {R : Type} [Scalar R]

/-- Related vectors, or a vector that is not known yet. -/
def Vec.Kin (rel : Vec R → Vec R → Prop) (x x' : Vec R) : Prop := rel x x' ∨ x' = x

namespace State

/-- The numbers of a state. -/
def numbers (s : State R) : State R :=
  { s with
    x := .empty, ax := .empty, grad := .empty, xbar := .empty, axbar := .empty, gradbar := .empty
    r := .empty, rbar := .empty, xbarPrev := .empty, rbarPrev := .empty, d := .empty, ld := .empty
    lld := .empty, history := ⟨[], 0, 0, 0⟩ }

variable (S T : Vec R → Vec R → Prop)

/-- States of the same numbers, with related vectors where they are known. -/
structure Kin (s s' : State R) : Prop where
  numbers : s'.numbers = s.numbers
  history : History.Paired S s.history s'.history
  x : Vec.Kin S s.x s'.x
  ax : Vec.Kin T s.ax s'.ax
  grad : Vec.Kin S s.grad s'.grad
  xbar : Vec.Kin S s.xbar s'.xbar
  axbar : Vec.Kin T s.axbar s'.axbar
  gradbar : Vec.Kin S s.gradbar s'.gradbar
  r : Vec.Kin S s.r s'.r
  rbar : Vec.Kin S s.rbar s'.rbar
  xbarPrev : Vec.Kin S s.xbarPrev s'.xbarPrev
  rbarPrev : Vec.Kin S s.rbarPrev s'.rbarPrev
  d : Vec.Kin S s.d s'.d
  ld : Vec.Kin T s.ld s'.ld
  lld : Vec.Kin S s.lld s'.lld

/-- The vectors of the iteration before are related. -/
def Remembered (s s' : State R) : Prop :=
  S s.xbarPrev s'.xbarPrev ∧ S s.rbarPrev s'.rbarPrev

/-- The vectors that the search along a direction starts from are related. -/
def Aimed (s s' : State R) : Prop :=
  s.Remembered S s' ∧ T s.axbar s'.axbar ∧ S s.gradbar s'.gradbar ∧ S s.d s'.d

/-- The iterate, its gradient and its step are related. -/
structure Abreast (s s' : State R) : Prop extends Kin S T s s' where
  iterate : S s.x s'.x
  gradient : S s.grad s'.grad
  forward : S s.xbar s'.xbar

/-- Before the first step, the iterate and its gradient are related. -/
structure Ready (s s' : State R) : Prop extends Kin S T s s' where
  iterate : S s.x s'.x
  gradient : S s.grad s'.grad
  begun : s.iteration = 0

/-- What is known at a place besides. -/
def Known (s s' : State R) : Place R → Prop
  | .resting => s.iteration ≠ 0 → s.Remembered S s'
  | .searchingGamma _ | .measured _ | .recorded _ =>
      T s.axbar s'.axbar ∧ (s.iteration ≠ 1 → s.Remembered S s')
  | .aimed => s.Aimed S T s'
  | .searchingTau _ _ _ => s.Aimed S T s' ∧ T s.ld s'.ld ∧ S s.lld s'.lld
  | .moved _ => s.Remembered S s'

/-- States in lockstep at a place. -/
structure Paired (p : Place R) (s s' : State R) : Prop extends Abreast S T s s' where
  known : s.Known S T s' p

variable {S T} {s s' : State R}

namespace Kin

/-- What is read off the numbers is the same. -/
theorem reads {α : Type} (kin : Kin S T s s') (f : State R → α) : f s'.numbers = f s.numbers :=
  congrArg f kin.numbers

theorem gamma (kin : Kin S T s s') : s'.gamma = s.gamma := kin.reads State.gamma

theorem fx (kin : Kin S T s s') : s'.fx = s.fx := kin.reads State.fx

theorem iteration (kin : Kin S T s s') : s'.iteration = s.iteration :=
  kin.reads State.iteration

theorem value (kin : Kin S T s s') : s'.value = s.value := kin.reads State.value

theorem bounded (kin : Kin S T s s') : s'.bounded = s.bounded := kin.reads State.bounded

theorem level (kin : Kin S T s s') : s'.level = s.level := kin.reads State.level

theorem statusRow (kin : Kin S T s s') : s'.statusRow = s.statusRow :=
  kin.reads State.statusRow

end Kin

theorem start_kin (congruence : Vec.Congruence S) {x x' : Vec R} (hx : S x x') (memory : Nat) :
    Kin S T (start x memory) (start x' memory) where
  numbers := rfl
  history := History.empty_paired congruence hx memory
  x := .inl hx
  ax := .inr rfl
  grad := .inr rfl
  xbar := .inr rfl
  axbar := .inr rfl
  gradbar := .inr rfl
  r := .inr rfl
  rbar := .inr rfl
  xbarPrev := .inr rfl
  rbarPrev := .inr rfl
  d := .inr rfl
  ld := .inr rfl
  lld := .inr rfl

end State

end States

/-! ## Parts of an iteration -/

section Parts

variable {σ R : Type} [Scalar R] {S T : Vec R → Vec R → Prop} {A A' : Operator σ R}
  {g g' : Prox σ R} {s s' : State R}

namespace State

theorem callOperator_parallel {rel : Vec R → Vec R → Prop} {f f' : Vec R → Call σ (Vec R)}
    {v v' : Vec R} (same : Parallel rel (f v) (f' v')) :
    Parallel (fun p p' => ∃ y y', rel y y' ∧
        p = (y, { s with operatorCalls := s.operatorCalls + 1 }) ∧
        p' = (y', { s' with operatorCalls := s'.operatorCalls + 1 }))
      (s.callOperator f v) (s'.callOperator f' v') :=
  .bind same fun y y' related => .pure ⟨y, y', related, rfl, rfl⟩

theorem callProx_parallel (congruence : Vec.Congruence S) (hg : Prox.Paired S g g')
    (s s' : State R) (gamma : s'.gamma = s.gamma) {x x' grad grad' : Vec R} (hx : S x x')
    (hgrad : S grad grad') :
    Parallel (fun p p' => ∃ y y' value, S y y' ∧
        p = ((y, value), { s with proxCalls := s.proxCalls + 1 }) ∧
        p' = ((y', value), { s' with proxCalls := s'.proxCalls + 1 }))
      (s.callProx g x grad) (s'.callProx g' x' grad') := by
  unfold callProx forwardBackwardStep
  rw [gamma]
  refine .bind (.bind (.lift (congruence.axpy _ hgrad hx)) fun v v' hv => hg _ hv) ?_
  rintro ⟨y, _⟩ ⟨y', value⟩ ⟨related, rfl⟩
  exact .pure ⟨y, y', value, related, rfl, rfl⟩

theorem envelope_agrees (congruence : Vec.Congruence S) {x x' xbar xbar' grad grad' : Vec R}
    (hx : S x x') (hxbar : S xbar xbar') (hgrad : S grad grad') (gxbar fx gamma : R) :
    Agrees (fun e e' => ∃ r r' residual bound value, S r r' ∧
        e = ⟨r, residual, bound, value⟩ ∧ e' = ⟨r', residual, bound, value⟩)
      (envelope x xbar gxbar fx grad gamma) (envelope x' xbar' gxbar fx grad' gamma) := by
  unfold envelope
  refine .bind (congruence.sub hx hxbar) fun r r' hr =>
    .bind (congruence.asArrays hr) fun a a' ha => ?_
  rw [congruence.norm ha]
  exact .bind_eq (congruence.inner hgrad hr) fun slope => .bind_eq rfl fun square =>
    .bind_eq rfl fun curvature => .pure ⟨r, r', _, _, _, hr, rfl, rfl⟩

theorem evaluate_parallel (additive : Vec.Additive T) (hA : A.Paired S T A')
    (kin : Kin S T s s') (hx : S s.x s'.x) (zero : s.iteration = 0) :
    Parallel (Ready S T) (s.evaluate A) (s'.evaluate A') := by
  refine .bind (callOperator_parallel (hA.apply hx)) ?_
  rintro _ _ ⟨ax, ax', hax, rfl, rfl⟩
  refine .bind_eq (congrArg liftM (additive.sqnorm hax)) fun square =>
    .bind (callOperator_parallel (hA.applyAdjoint hax)) ?_
  rintro _ _ ⟨grad, grad', hgrad, rfl, rfl⟩
  exact .pure { kin with
    numbers := kin.reads fun n => { n with
      fx := 0.5 * square, operatorCalls := n.operatorCalls + 1 + 1 }
    ax := .inl hax
    grad := .inl hgrad
    iterate := hx
    gradient := hgrad
    begun := zero }

theorem evaluateStep_parallel (additive : Vec.Additive T) (hA : A.Paired S T A')
    (s s' : State R) (xbar : S s.xbar s'.xbar) :
    Parallel (fun t t' => ∃ axbar axbar' fxbar, T axbar axbar' ∧
        t = { s with
          axbar := axbar, fxbar := fxbar, operatorCalls := s.operatorCalls + 1 } ∧
        t' = { s' with
          axbar := axbar', fxbar := fxbar, operatorCalls := s'.operatorCalls + 1 })
      (s.evaluateStep A) (s'.evaluateStep A') := by
  refine .bind (callOperator_parallel (hA.apply xbar)) ?_
  rintro _ _ ⟨axbar, axbar', haxbar, rfl, rfl⟩
  exact .bind_eq (congrArg liftM (additive.sqnorm haxbar)) fun square =>
    .pure ⟨axbar, axbar', _, haxbar, rfl, rfl⟩

theorem step_parallel (congruence : Vec.Congruence S) (hg : Prox.Paired S g g')
    (s s' : State R) (gamma : s'.gamma = s.gamma) (fx : s'.fx = s.fx) (hx : S s.x s'.x)
    (hgrad : S s.grad s'.grad) :
    Parallel (fun t t' => ∃ xbar xbar' r r' gxbar residual bound, S xbar xbar' ∧ S r r' ∧
        t = { s with
          xbar := xbar, gxbar := gxbar, r := r, residual := residual, bound := bound
          proxCalls := s.proxCalls + 1 } ∧
        t' = { s' with
          xbar := xbar', gxbar := gxbar, r := r', residual := residual, bound := bound
          proxCalls := s'.proxCalls + 1 })
      (s.step g) (s'.step g') := by
  refine .bind (callProx_parallel congruence hg _ _ gamma hx hgrad) ?_
  rintro _ _ ⟨xbar, xbar', gxbar, hxbar, rfl, rfl⟩
  simp only [gamma, fx]
  refine .bind (.lift (envelope_agrees congruence hx hxbar hgrad gxbar s.fx s.gamma)) ?_
  rintro _ _ ⟨r, r', residual, bound, _, hr, rfl, rfl⟩
  exact .pure ⟨xbar, xbar', r, r', gxbar, residual, bound, hxbar, hr, rfl, rfl⟩

theorem gammaTrial_parallel (congruence : Vec.Congruence S) (additive : Vec.Additive T)
    (hA : A.Paired S T A') (hg : Prox.Paired S g g') {n m : Nat}
    (paired : Paired S T (.searchingGamma n) s s') :
    Parallel (Paired S T (.searchingGamma m)) (s.gammaTrial A g) (s'.gammaTrial A' g') := by
  refine .bind (step_parallel congruence hg _ _ (congrArg (· * 0.5) paired.gamma) paired.fx
    paired.iterate paired.gradient) ?_
  rintro _ _ ⟨xbar, xbar', r, r', gxbar, residual, bound, hxbar, hr, rfl, rfl⟩
  refine (evaluateStep_parallel additive hA _ _ hxbar).imp ?_
  rintro _ _ ⟨axbar, axbar', fxbar, haxbar, rfl, rfl⟩
  exact { paired with
    numbers := paired.reads fun n => { n.shrinkGamma with
      gxbar := gxbar, residual := residual, bound := bound, fxbar := fxbar
      operatorCalls := n.operatorCalls + 1, proxCalls := n.proxCalls + 1 }
    xbar := .inl hxbar
    r := .inl hr
    axbar := .inl haxbar
    forward := hxbar
    known := ⟨haxbar, paired.known.2⟩ }

theorem tauTrial_parallel (congruence : Vec.Congruence S) (additive : Vec.Additive T)
    (hg : Prox.Paired S g g') {n : Nat} {tau level : R}
    (paired : Paired S T (.searchingTau n tau level) s s') :
    Parallel (fun t t' => ∀ m next, Paired S T (.searchingTau m next level) t t')
      (s.tauTrial g tau) (s'.tauTrial g' tau) := by
  obtain ⟨⟨⟨hxbarPrev, hrbarPrev⟩, haxbar, hgradbar, hd⟩, hld, hlld⟩ := paired.known
  refine .bind (.lift (congruence.axpy tau hd hxbarPrev)) fun x x' hx =>
    .bind (.lift (additive.axpy tau hld haxbar)) fun ax ax' hax =>
    .bind_eq (congrArg liftM (additive.sqnorm hax)) fun square =>
    .bind (.lift (congruence.axpy tau hlld hgradbar)) fun grad grad' hgrad =>
    (step_parallel congruence hg { s with tau, x, ax, fx := 0.5 * square, grad }
      { s' with tau, x := x', ax := ax', fx := 0.5 * square, grad := grad' } paired.gamma rfl hx
      hgrad).imp ?_
  rintro _ _ ⟨xbar, xbar', r, r', gxbar, residual, bound, hxbar, hr, rfl, rfl⟩
  exact fun _ _ => { paired with
    numbers := paired.reads fun n => { n with
      tau := tau, fx := 0.5 * square, gxbar := gxbar, residual := residual, bound := bound
      proxCalls := n.proxCalls + 1 }
    x := .inl hx
    ax := .inl hax
    grad := .inl hgrad
    xbar := .inl hxbar
    r := .inl hr
    iterate := hx
    gradient := hgrad
    forward := hxbar
    known := paired.known }

theorem evaluateDirection_parallel (hA : A.Paired S T A') (paired : Paired S T .aimed s s') :
    Parallel (fun t t' => ∀ n tau level, Paired S T (.searchingTau n tau level) t t')
      (s.evaluateDirection A) (s'.evaluateDirection A') := by
  refine .bind (callOperator_parallel (hA.linearPart paired.known.2.2.2)) ?_
  rintro _ _ ⟨ld, ld', hld, rfl, rfl⟩
  refine .bind (callOperator_parallel (hA.applyAdjoint hld)) ?_
  rintro _ _ ⟨lld, lld', hlld, rfl, rfl⟩
  exact .pure fun _ _ _ => { paired with
    numbers := paired.reads fun n => { n with operatorCalls := n.operatorCalls + 1 + 1 }
    ld := .inl hld
    lld := .inl hlld
    known := ⟨paired.known, hld, hlld⟩ }

theorem evaluateResidual_parallel (congruence : Vec.Congruence S) (hA : A.Paired S T A')
    (hg : Prox.Paired S g g') (gamma : s'.gamma = s.gamma) (hxbar : S s.xbar s'.xbar)
    (haxbar : T s.axbar s'.axbar) :
    Parallel (fun t t' => ∃ gradbar gradbar' rbar rbar', S gradbar gradbar' ∧ S rbar rbar' ∧
        t = { s with
          gradbar := gradbar, rbar := rbar
          operatorCalls := s.operatorCalls + 1, proxCalls := s.proxCalls + 1 } ∧
        t' = { s' with
          gradbar := gradbar', rbar := rbar'
          operatorCalls := s'.operatorCalls + 1, proxCalls := s'.proxCalls + 1 })
      (s.evaluateResidual A g) (s'.evaluateResidual A' g') := by
  refine .bind (callOperator_parallel (hA.applyAdjoint haxbar)) ?_
  rintro _ _ ⟨gradbar, gradbar', hgradbar, rfl, rfl⟩
  refine .bind (callProx_parallel congruence hg { s with operatorCalls := s.operatorCalls + 1 }
    { s' with operatorCalls := s'.operatorCalls + 1 } gamma hxbar hgradbar) ?_
  rintro _ _ ⟨p, p', _, hp, rfl, rfl⟩
  exact .bind (.lift (congruence.sub hxbar hp)) fun rbar rbar' hrbar =>
    .pure ⟨gradbar, gradbar', rbar, rbar', hgradbar, hrbar, rfl, rfl⟩

theorem chooseDirection_agrees (congruence : Vec.Congruence S)
    (iteration : s'.iteration = s.iteration) (history : History.Paired S s.history s'.history)
    (hxbar : S s.xbar s'.xbar) (hrbar : S s.rbar s'.rbar)
    (before : s.iteration ≠ 1 → s.Remembered S s') :
    Agrees (fun t t' => ∃ h h' d d', History.Paired S h h' ∧ S d d' ∧
        t = { s with history := h, d := d } ∧ t' = { s' with history := h', d := d' })
      s.chooseDirection s'.chooseDirection := by
  refine .ite (by rw [iteration]) (fun _ => ?_) fun later => ?_
  · exact .pure ⟨_, _, _, _, history, congruence.scale (-1) hrbar, rfl, rfl⟩
  · obtain ⟨hxbarPrev, hrbarPrev⟩ := before later
    have learns : Agrees (fun t t' => ∃ h h', History.Paired S h h' ∧
        t = { s with history := h } ∧ t' = { s' with history := h' }) s.learn s'.learn :=
      .bind (History.update_agrees congruence history hxbar hxbarPrev hrbar hrbarPrev)
        fun h h' learned => .pure ⟨h, h', learned, rfl, rfl⟩
    refine .bind learns ?_
    rintro _ _ ⟨h, h', learned, rfl, rfl⟩
    exact .bind (History.direction_agrees congruence learned hrbar) fun d d' hd =>
      .pure ⟨h, h', d, d', learned, hd, rfl, rfl⟩

theorem Kin.markValid (kin : Kin S T s s') : Kin S T s.markValid s'.markValid :=
  { kin with numbers := kin.reads State.markValid }

theorem Ready.markValid (ready : Ready S T s s') : Ready S T s.markValid s'.markValid :=
  { ready with numbers := ready.reads State.markValid }

theorem Paired.markValid {p : Place R} (paired : Paired S T p s s') :
    Paired S T p s.markValid s'.markValid where
  toKin := paired.toKin.markValid
  iterate := paired.iterate
  gradient := paired.gradient
  forward := paired.forward
  known := by cases p <;> exact paired.known

theorem certify_parallel (kin : Kin S T s s') (what : Monitored) {finite finite' : Bool}
    (same : finite' = finite) {P : State R → State R → Prop} (holds : P s.markValid s'.markValid) :
    Parallel P (s.certify what finite : Run σ R (State R)) (s'.certify what finite') := by
  have now : (⟨s'.iteration, s'.validGamma, s'.validResidual⟩ : Diagnostics R) =
      ⟨s.iteration, s.validGamma, s.validResidual⟩ :=
    kin.reads fun n => (⟨n.iteration, n.validGamma, n.validResidual⟩ : Diagnostics R)
  subst same
  unfold certify
  rw [now]
  exact .ite Iff.rfl (fun _ => .pure holds) fun _ => .throw _

end State

end Parts

/-! ## Runs -/

section Runs

variable {σ R : Type} [Scalar R]

/-- Results of the same numbers, and related points. -/
def Result.Paired (S : Vec R → Vec R → Prop) (r r' : Result R) : Prop :=
  S r.x r'.x ∧ r' = { r with x := r'.x }

/-- Two problems over related vectors, with options that cannot tell them apart. -/
structure Solver.Lockstep (S T : Vec R → Vec R → Prop) (A A' : Operator σ R) (g g' : Prox σ R)
    (c : Config σ R) : Prop where
  congruence : Vec.Congruence S
  additive : Vec.Additive T
  operator : A.Paired S T A'
  prox : Prox.Paired S g g'
  asked {s s' : State R} : s.Paired S T .resting s' → ∀ env,
    c.predicate.judge c.tolerance s' env = c.predicate.judge c.tolerance s env

namespace Solver

variable {S T : Vec R → Vec R → Prop} {A A' : Operator σ R} {g g' : Prox σ R} {c : Config σ R}
  {s s' : State R}

theorem report_eq (kin : s.Kin S T s') : report c s' = report c s := by
  unfold report
  rw [kin.iteration, kin.statusRow]

theorem consult_eq (lockstep : Lockstep S T A A' g g' c) (paired : s.Paired S T .resting s') :
    consult c s' = consult c s := by
  have now : (⟨s'.iteration, s'.gamma, s'.residual⟩ : Diagnostics R) =
      ⟨s.iteration, s.gamma, s.residual⟩ :=
    paired.reads fun n => (⟨n.iteration, n.gamma, n.residual⟩ : Diagnostics R)
  unfold consult
  simp only [lockstep.asked paired, now]

theorem settle_parallel {found : Option Bool} (paired : s.Paired S T (.measured found) s') :
    Parallel (State.Paired S T (.recorded found)) (settle c s) (settle c s') := by
  have recorded : s.record.Paired S T (.recorded found) s'.record :=
    { paired with
      numbers := paired.reads State.record
      known := paired.known }
  refine .bind (State.certify_parallel recorded.toKin _ ?_ recorded.markValid) fun t t' paired =>
    .bind_eq (report_eq paired.toKin) fun _ => .pure paired
  exact recorded.reads fun n => Scalar.isFinite n.fxbar && Scalar.isFinite n.recorded

theorem approve_parallel (lockstep : Lockstep S T A A' g g' c) {found : Bool}
    (paired : s.Paired S T (.moved found) s') :
    Parallel (State.Paired S T .resting) (approve s : Run σ R (State R)) (approve s') := by
  have rests : s.Paired S T .resting s' := { paired with known := fun _ => paired.known }
  refine State.certify_parallel rests.toKin _ ?_ rests.markValid
  rw [lockstep.congruence.allFinite rests.gradient, rests.fx, rests.value]

theorem aim_parallel (lockstep : Lockstep S T A A' g g' c) {found : Option Bool}
    (paired : s.Paired S T (.recorded found) s') :
    Parallel (State.Paired S T .aimed) (aim A g s) (aim A' g' s') := by
  obtain ⟨haxbar, before⟩ := paired.known
  refine .bind (State.evaluateResidual_parallel lockstep.congruence lockstep.operator lockstep.prox
    paired.gamma paired.forward haxbar) ?_
  rintro _ _ ⟨gradbar, gradbar', rbar, rbar', hgradbar, hrbar, rfl, rfl⟩
  refine .bind (.lift (State.chooseDirection_agrees lockstep.congruence paired.iteration
    paired.history paired.forward hrbar before)) ?_
  rintro _ _ ⟨h, h', d, d', history, hd, rfl, rfl⟩
  exact .pure { paired with
    numbers := paired.reads fun n => { n with
      operatorCalls := n.operatorCalls + 1, proxCalls := n.proxCalls + 1 }
    history := history
    gradbar := .inl hgradbar
    rbar := .inl hrbar
    xbarPrev := .inl paired.forward
    rbarPrev := .inl hrbar
    d := .inl hd
    known := ⟨⟨paired.forward, hrbar⟩, haxbar, hgradbar, hd⟩ }

/-- An iteration begins. -/
theorem enter_parallel (lockstep : Lockstep S T A A' g g' c)
    (paired : s.Paired S T .resting s') :
    Parallel (fun t t' => ∀ halvings, t.Paired S T (.searchingGamma halvings) t')
      (s.nextIteration.evaluateStep A) (s'.nextIteration.evaluateStep A') := by
  refine (State.evaluateStep_parallel lockstep.additive lockstep.operator s.nextIteration
    s'.nextIteration paired.forward).imp ?_
  rintro _ _ ⟨axbar, axbar', fxbar, haxbar, rfl, rfl⟩ halvings
  exact { paired with
    numbers := paired.reads fun n => { n.nextIteration with
      fxbar := fxbar, operatorCalls := n.operatorCalls + 1 }
    axbar := .inl haxbar
    known := ⟨haxbar, fun later => paired.known fun zero => later (congrArg Nat.succ zero)⟩ }

theorem exhaust_gamma (paired : s.Paired S T (.searchingGamma 0) s') :
    State.Paired S T (.measured (some false)) { s with gammaFailures := s.gammaFailures + 1 }
      { s' with gammaFailures := s'.gammaFailures + 1 } :=
  { paired with
    numbers := paired.reads fun n => { n with gammaFailures := n.gammaFailures + 1 }
    known := paired.known }

theorem exhaust_tau {tau level : R} (paired : s.Paired S T (.searchingTau 0 tau level) s') :
    State.Paired S T (.moved false) { s with tauFailures := s.tauFailures + 1 }
      { s' with tauFailures := s'.tauFailures + 1 } :=
  { paired with
    numbers := paired.reads fun n => { n with tauFailures := n.tauFailures + 1 }
    known := paired.known.1.1 }

theorem gammaTrials_parallel (lockstep : Lockstep S T A A' g g' c) {n : Nat}
    (paired : s.Paired S T (.searchingGamma n) s') :
    Parallel (fun p p' => ∃ found t t', t.Paired S T (.measured (some found)) t' ∧
        p = (found, t) ∧ p' = (found, t'))
      (State.gammaTrials A g n s) (State.gammaTrials A' g' n s') := by
  have bounded : s.Paired S T (.measured (some true)) s' := { paired with known := paired.known }
  induction n generalizing s s' with
  | zero =>
      exact .ite (by rw [paired.bounded]) (fun _ => .pure ⟨true, s, s', bounded, rfl, rfl⟩)
        fun _ => .pure ⟨false, _, _, exhaust_gamma paired, rfl, rfl⟩
  | succ n ih =>
      exact .ite (by rw [paired.bounded]) (fun _ => .pure ⟨true, s, s', bounded, rfl, rfl⟩)
        fun _ => .bind (State.gammaTrial_parallel lockstep.congruence lockstep.additive
          lockstep.operator lockstep.prox paired) fun t t' paired =>
            ih paired { paired with known := paired.known }

theorem tauTrials_parallel (lockstep : Lockstep S T A A' g g' c) {n : Nat} {tau level : R}
    (paired : s.Paired S T (.searchingTau n tau level) s') :
    Parallel (fun p p' => ∃ found t t', t.Paired S T (.moved found) t' ∧
        p = (found, t) ∧ p' = (found, t'))
      (State.tauTrials g level n tau s) (State.tauTrials g' level n tau s') := by
  induction n generalizing tau s s' with
  | zero => exact .pure ⟨false, _, _, exhaust_tau paired, rfl, rfl⟩
  | succ n ih =>
      refine .bind (State.tauTrial_parallel lockstep.congruence lockstep.additive lockstep.prox
        paired) fun t t' related => .ite (by rw [(related n tau).value]) (fun _ => ?_) fun _ =>
          ih (related n _)
      exact .pure ⟨true, t, t', { related n tau with known := (related n tau).known.1.1 }, rfl, rfl⟩

theorem searchGamma_parallel (lockstep : Lockstep S T A A' g g' c)
    (paired : ∀ n, s.Paired S T (.searchingGamma n) s') :
    Parallel (State.Paired S T (.measured none)) (searchGamma c A g s)
      (searchGamma c A' g' s') := by
  refine .ite Iff.rfl (fun _ => ?_) fun _ => .pure { paired 0 with known := (paired 0).known }
  refine .bind (.call (.bind_eq rfl fun n => gammaTrials_parallel lockstep (paired n))) ?_
  rintro _ _ ⟨found, t, t', measured, rfl, rfl⟩
  refine .bind_eq ?_ fun _ => .pure { measured with known := measured.known }
  rw [measured.iteration]

theorem searchTau_parallel (lockstep : Lockstep S T A A' g g' c)
    (paired : s.Paired S T .aimed s') :
    Parallel (State.Paired S T (.moved true)) (searchTau c A g s) (searchTau c A' g' s') := by
  refine .bind_eq (congrArg Run.refuse paired.level) fun level => .bind (.call (.bind
    (State.evaluateDirection_parallel lockstep.operator paired) fun t t' paired =>
    .bind_eq rfl fun n => tauTrials_parallel lockstep (paired n 1 level))) ?_
  rintro _ _ ⟨found, t, t', moved, rfl, rfl⟩
  refine .bind_eq ?_ fun _ => .pure { moved with known := moved.known }
  rw [moved.iteration]

theorem iterate_parallel (lockstep : Lockstep S T A A' g g' c)
    (paired : s.Paired S T .resting s') :
    Parallel (State.Paired S T .resting) (iterate c A g s) (iterate c A' g' s') :=
  .bind (.call (enter_parallel lockstep paired)) fun _ _ paired =>
  .bind (searchGamma_parallel lockstep paired) fun _ _ paired =>
  .bind (settle_parallel paired) fun _ _ paired =>
  .bind (.call (aim_parallel lockstep paired)) fun _ _ paired =>
  .bind (searchTau_parallel lockstep paired) fun _ _ paired => approve_parallel lockstep paired

theorem loop_parallel (lockstep : Lockstep S T A A' g g' c) (budget : Nat)
    (paired : s.Paired S T .resting s') :
    Parallel (fun p p' => ∃ status t t', t.Paired S T .resting t' ∧ p = (status, t) ∧
        p' = (status, t'))
      (loop c A g budget s) (loop c A' g' budget s') := by
  induction budget generalizing s s' with
  | zero => exact .pure ⟨.iterationsSpent, s, s', paired, rfl, rfl⟩
  | succ budget ih =>
      exact .bind_eq (consult_eq lockstep paired) fun halt =>
        .ite Iff.rfl (fun _ => .pure ⟨.converged, s, s', paired, rfl, rfl⟩) fun _ =>
        .bind (iterate_parallel lockstep paired) fun _ _ paired => ih paired

theorem estimateLipschitz_parallel (lockstep : Lockstep S T A A' g g' c) (hx : S s.x s'.x)
    (hgrad : S s.grad s'.grad) :
    Parallel (fun p p' => ∃ lipschitz,
        p = (lipschitz, { s with operatorCalls := s.operatorCalls + 1 + 1 }) ∧
        p' = (lipschitz, { s' with operatorCalls := s'.operatorCalls + 1 + 1 }))
      (s.estimateLipschitz A) (s'.estimateLipschitz A') := by
  have congruence := lockstep.congruence
  refine .bind_eq (congrArg liftM (congruence.sqrtEps hx)) fun delta =>
    .bind (State.callOperator_parallel (lockstep.operator.apply (congruence.shift delta hx))) ?_
  rintro _ _ ⟨ax, ax', hax, rfl, rfl⟩
  refine .bind (State.callOperator_parallel (lockstep.operator.applyAdjoint hax)) ?_
  rintro _ _ ⟨grad, grad', hgrad', rfl, rfl⟩
  refine .bind (.lift (congruence.sub hgrad hgrad')) fun e e' he =>
    .bind (.lift (congruence.asArrays he)) fun a a' ha =>
    .bind_eq (congrArg liftM (congruence.size hx)) fun size => ?_
  rw [congruence.norm ha]
  exact .bind_eq rfl fun lipschitz => .pure ⟨lipschitz, rfl, rfl⟩

theorem firstGamma_parallel (lockstep : Lockstep S T A A' g g' c) (ready : s.Ready S T s') :
    Parallel (fun p p' => ∃ gamma t t', t.Ready S T t' ∧ p = (gamma, t) ∧ p' = (gamma, t'))
      (firstGamma c A s) (firstGamma c A' s') := by
  unfold firstGamma
  cases c.stepSize with
  | some gamma => exact .pure ⟨gamma, s, s', ready, rfl, rfl⟩
  | none =>
      refine .bind (.call (estimateLipschitz_parallel lockstep ready.iterate ready.gradient)) ?_
      rintro _ _ ⟨lipschitz, rfl, rfl⟩
      have counted : State.Ready S T { s with operatorCalls := s.operatorCalls + 1 + 1 }
          { s' with operatorCalls := s'.operatorCalls + 1 + 1 } :=
        { ready with
          numbers := ready.reads fun n => { n with operatorCalls := n.operatorCalls + 1 + 1 } }
      exact .bind_eq (congrArg Run.refuse (lockstep.congruence.machineEps ready.iterate)) fun eps =>
        .ite Iff.rfl (fun _ => .pure ⟨_, _, _, counted, rfl, rfl⟩) fun _ =>
        .ite Iff.rfl (fun _ => .bind_eq rfl fun _ => .pure ⟨_, _, _, counted, rfl, rfl⟩)
          fun _ => .pure ⟨_, _, _, counted, rfl, rfl⟩

theorem setGamma_agrees (ready : s.Ready S T s') (gamma : R) :
    Agrees (State.Ready S T) (s.setGamma gamma) (s'.setGamma gamma) :=
  .bind_eq rfl fun sigma => .pure { ready with
    numbers := ready.reads fun n => { n with gamma := gamma, sigma := sigma } }

theorem begin_parallel (lockstep : Lockstep S T A A' g g' c) (kin : s.Kin S T s')
    (hx : S s.x s'.x) (zero : s.iteration = 0) :
    Parallel (State.Paired S T .resting) (begin c A g s) (begin c A' g' s') := by
  have congruence := lockstep.congruence
  refine .bind (.call (State.evaluate_parallel lockstep.additive lockstep.operator kin hx zero))
    fun t t' ready => .bind (State.certify_parallel ready.toKin _ ?_ ready.markValid)
    fun t t' ready => .bind (firstGamma_parallel lockstep ready) ?_
  · rw [congruence.allFinite ready.gradient, ready.fx]
  rintro _ _ ⟨gamma, u, u', ready, rfl, rfl⟩
  refine .bind (.refuse (setGamma_agrees ready gamma)) fun u u' ready =>
    .bind (.call (State.step_parallel congruence lockstep.prox u u' ready.gamma ready.fx
      ready.iterate ready.gradient)) ?_
  rintro _ _ ⟨xbar, xbar', r, r', gxbar, residual, bound, hxbar, hr, rfl, rfl⟩
  have stepped : State.Kin S T
      { u with
        xbar := xbar, gxbar := gxbar, r := r, residual := residual, bound := bound
        proxCalls := u.proxCalls + 1, recorded := bound + gxbar }
      { u' with
        xbar := xbar', gxbar := gxbar, r := r', residual := residual, bound := bound
        proxCalls := u'.proxCalls + 1, recorded := bound + gxbar } :=
    { ready with
      numbers := ready.reads fun n => { n with
        gxbar := gxbar, residual := residual, bound := bound
        proxCalls := n.proxCalls + 1, recorded := bound + gxbar }
      xbar := .inl hxbar
      r := .inl hr }
  exact State.certify_parallel stepped _ rfl { stepped.markValid with
    iterate := ready.iterate
    gradient := ready.gradient
    forward := hxbar
    known := fun later => absurd ready.begun later }

theorem launch_parallel (lockstep : Lockstep S T A A' g g' c) {x0 x0' : Option (Vec R)}
    (started : Agrees S (startingPoint A x0) (startingPoint A' x0')) :
    Parallel (State.Paired S T .resting) (launch A g x0 c) (launch A' g' x0' c) := by
  refine .bind (.refuse started) fun x x' hx => .bind_eq rfl fun memory => ?_
  have begins : Parallel (State.Paired S T .resting)
      (begin c A g (State.start x memory)) (begin c A' g' (State.start x' memory)) :=
    begin_parallel lockstep (State.start_kin lockstep.congruence hx memory) hx rfl
  exact .ite Iff.rfl (fun _ => .bind_eq rfl fun _ => begins) fun _ => begins

theorem conclude_eq (kin : s.Kin S T s') (status : Status) :
    conclude c status s' = conclude c status s := by
  unfold conclude
  rw [kin.iteration, kin.statusRow]

/-- Two runs in lockstep end alike. -/
theorem solve_parallel (lockstep : Lockstep S T A A' g g' c) {x0 x0' : Option (Vec R)}
    (started : Agrees S (startingPoint A x0) (startingPoint A' x0')) :
    Parallel (Result.Paired S) (solve A g x0 c) (solve A' g' x0' c) := by
  refine .bind (launch_parallel lockstep started) fun s s' paired => .bind_eq rfl fun limit =>
    .bind (loop_parallel lockstep limit paired) ?_
  rintro _ _ ⟨status, t, t', paired, rfl, rfl⟩
  refine .bind_eq (conclude_eq paired.toKin status) fun _ => .pure ⟨paired.forward, ?_⟩
  exact paired.reads fun n => { n.result status with x := t'.xbar }

end Solver

/-! ## Courses -/

/-- Snapshots in lockstep: at the same place of the same world. -/
structure Snapshot.Paired (S T : Vec R → Vec R → Prop) (v v' : Snapshot σ R) : Prop where
  place : v'.place = v.place
  left : v'.left = v.left
  world : v'.world = v.world
  state : v.state.Paired S T v.place v'.state

section Courses

variable {S T : Vec R → Vec R → Prop} {A A' : Operator σ R} {g g' : Prox σ R} {c : Config σ R}
  {a a' b : Snapshot σ R} {vs : List (Snapshot σ R)}

/-- What one run does, the other one does. -/
theorem Move.paired (lockstep : Solver.Lockstep S T A A' g g' c) (step : Move c A g a b)
    (paired : a.Paired S T a') : ∃ b', Move c A' g' a' b' ∧ b.Paired S T b' := by
  obtain ⟨place, left, s', world⟩ := a'
  obtain ⟨rfl, rfl, rfl, paired⟩ := paired
  cases step with
  | search goes evaluated wanted budget =>
      obtain ⟨t', evaluated', related⟩ :=
        (Parallel.call (Solver.enter_parallel lockstep paired)).returns evaluated
      rw [← Solver.consult_eq lockstep paired] at goes
      exact ⟨_, .search goes evaluated' wanted budget, rfl, rfl, rfl, related _⟩
  | skip goes evaluated unwanted =>
      obtain ⟨t', evaluated', related⟩ :=
        (Parallel.call (Solver.enter_parallel lockstep paired)).returns evaluated
      rw [← Solver.consult_eq lockstep paired] at goes
      exact ⟨_, .skip goes evaluated' unwanted, rfl, rfl, rfl,
        { related 0 with known := (related 0).known }⟩
  | bounded met =>
      exact ⟨_, .bounded (paired.bounded.trans met), rfl, rfl, rfl,
        { paired with known := paired.known }⟩
  | halve unmet tried =>
      obtain ⟨t', tried', related⟩ := (Parallel.call (State.gammaTrial_parallel lockstep.congruence
        lockstep.additive lockstep.operator lockstep.prox paired)).returns tried
      exact ⟨_, .halve (paired.bounded.trans unmet) tried', rfl, rfl, rfl, related⟩
  | unbounded unmet =>
      exact ⟨_, .unbounded (paired.bounded.trans unmet), rfl, rfl, rfl,
        Solver.exhaust_gamma paired⟩
  | @settle left found s s₁ w w₁ w₂ announced settled =>
      obtain ⟨t', settled', related⟩ := (Solver.settle_parallel paired).returns settled
      have announced' : Solver.announce c found s' w = .ok () w₁ := by
        unfold Solver.announce at announced ⊢
        rw [paired.iteration]
        exact announced
      exact ⟨_, .settle announced' settled', rfl, rfl, rfl, related⟩
  | aim aimed =>
      obtain ⟨t', aimed', related⟩ :=
        (Parallel.call (Solver.aim_parallel lockstep paired)).returns aimed
      exact ⟨_, .aim aimed', rfl, rfl, rfl, related⟩
  | depart level evaluated budget =>
      obtain ⟨t', evaluated', related⟩ := (Parallel.call
        (State.evaluateDirection_parallel lockstep.operator paired)).returns evaluated
      exact ⟨_, .depart (paired.level.trans level) evaluated' budget, rfl, rfl, rfl, related _ _ _⟩
  | accept tried met =>
      obtain ⟨t', tried', related⟩ := (Parallel.call (State.tauTrial_parallel lockstep.congruence
        lockstep.additive lockstep.prox paired)).returns tried
      exact ⟨_, .accept tried' (by rw [(related 0 1).value, met]), rfl, rfl, rfl,
        { related 0 1 with known := (related 0 1).known.1.1 }⟩
  | reject tried unmet =>
      obtain ⟨t', tried', related⟩ := (Parallel.call (State.tauTrial_parallel lockstep.congruence
        lockstep.additive lockstep.prox paired)).returns tried
      exact ⟨_, .reject tried' (by rw [(related 0 1).value, unmet]), rfl, rfl, rfl, related _ _⟩
  | exhaust => exact ⟨_, .exhaust, rfl, rfl, rfl, Solver.exhaust_tau paired⟩
  | approve reported approved =>
      obtain ⟨t', approved', related⟩ :=
        (Solver.approve_parallel lockstep paired).returns approved
      rw [← paired.iteration] at reported
      exact ⟨_, .approve reported approved', rfl, rfl, rfl, related⟩

/-- The other run takes the same course. -/
theorem Course.paired (lockstep : Solver.Lockstep S T A A' g g' c) (course : Course c A g a vs b)
    (start : a.Paired S T a') :
    ∃ vs' b', Course c A' g' a' vs' b' ∧ List.Forall₂ (Snapshot.Paired S T) vs vs' ∧
      b.Paired S T b' := by
  induction course with
  | stay => exact ⟨[], a', .stay, .nil, start⟩
  | move _ step ih =>
      obtain ⟨vs', b', before, visited, paired⟩ := ih
      obtain ⟨d', step', related⟩ := step.paired lockstep paired
      exact ⟨_, d', before.move step', List.rel_append visited (.cons paired .nil), related⟩

/-- What one run visits, the other one visits in lockstep. -/
theorem Solver.Passes.paired (lockstep : Solver.Lockstep S T A A' g g' c)
    {x0 x0' : Option (Vec R)} (started : Agrees S (startingPoint A x0) (startingPoint A' x0'))
    {w : World σ R} (passes : Passes A g x0 c w vs b) :
    ∃ vs' b', Passes A' g' x0' c w vs' b' ∧ List.Forall₂ (Snapshot.Paired S T) vs vs' ∧
      b.Paired S T b' := by
  obtain ⟨s₀, w₀, limit, launched, budget, course⟩ := passes
  obtain ⟨s₀', launched', related⟩ := (launch_parallel lockstep started).returns launched
  have first : Snapshot.Paired S T (.first limit s₀ w₀) (.first limit s₀' w₀) :=
    ⟨rfl, rfl, rfl, related⟩
  obtain ⟨vs', b', course', visited, paired⟩ := course.paired lockstep first
  exact ⟨vs', b', ⟨s₀', w₀, limit, launched', budget, course'⟩, visited, paired⟩

end Courses

end Runs

end ForwardBackward
