/-
# ForwardBackward.Proofs.Launch -- how a run begins

A starting point of finite numbers that a run accepts is a vector of the domain
(`startingPoint_fits`), and the first step size is a positive number, whether the
checked options name one or it is estimated (`firstGamma_positive`).  So the
buffers are what their names say at the first snapshot (`launch_kept`).
-/
import ForwardBackward.Proofs.Buffers

namespace ForwardBackward

set_option autoImplicit false

variable {σ : Type}

/-! ## The starting point -/

theorem Exact.real_toReal {x : Exact} (finite : Scalar.isFinite x = true) :
    real x.toReal = x := by
  obtain ⟨a, rfl⟩ := (isFinite_iff x).mp finite
  rfl

namespace Entries

theorem denotes_of_allFinite {e : Entries Exact} (finite : e.allFinite = true)
    (inexact : ∀ w, e.kind ≠ .whole w) : ∃ us, e.Denotes us := by
  cases e with
  | whole w xs => exact absurd rfl (inexact w)
  | real p xs =>
      have each : ∀ x ∈ xs, x = Exact.real x.toReal := fun x inside =>
        (Exact.real_toReal (List.all_eq_true.mp finite x inside)).symm
      refine ⟨_, Denotes.real_iff.mpr ⟨xs.map Exact.toReal, ?_, rfl⟩⟩
      rw [List.map_map]
      exact (List.map_id xs).symm.trans (List.map_congr_left each)
  | complex p zs =>
      have each : ∀ z ∈ zs, z = Cartesian.ofComplex ⟨z.re.toReal, z.im.toReal⟩ := by
        intro z inside
        have parts := List.all_eq_true.mp finite z inside
        rw [Cartesian.isFinite, Bool.and_eq_true] at parts
        unfold Cartesian.ofComplex
        rw [Exact.real_toReal parts.1, Exact.real_toReal parts.2]
      refine ⟨zs.map fun z => ⟨z.re.toReal, z.im.toReal⟩, Denotes.complex_iff.mpr ?_⟩
      rw [List.map_map]
      exact (List.map_id zs).symm.trans (List.map_congr_left each)

theorem allFinite_of_whole {R : Type} [Scalar R] {e : Entries R} {w : Width}
    (whole : e.kind = .whole w) : e.allFinite = true := by
  cases e with
  | whole => rfl
  | real => cases whole
  | complex => cases whole

/-- Whole numbers stored as fractions. -/
theorem cast_real_denotes {e : Entries Exact} {w : Width} (whole : e.kind = .whole w)
    (p : Precision) : ∃ us, (e.cast (.real p)).Denotes us := by
  cases e with
  | whole v xs => exact ⟨_, Denotes.ofReal p (fun n : ℤ => (n : ℝ)) xs (fun _ => rfl) fun _ => rfl⟩
  | real => cases whole
  | complex => cases whole

end Entries

namespace NDArray

variable {a b : NDArray Exact}

theorem enter_allFinite (finite : a.allFinite = true) : a.enter.allFinite = true := by
  cases kind : a.kind with
  | whole w =>
      have whole : ∃ v, a.enter.kind = .whole v := by
        unfold enter NDArray.kind at *
        split
        · exact ⟨w.enter, by rw [Entries.kind_cast, kind]; rfl⟩
        · exact ⟨w, kind⟩
      obtain ⟨v, whole⟩ := whole
      exact Entries.allFinite_of_whole whole
  | real p | complex p =>
      have inexact : ∀ w, a.entries.kind ≠ .whole w := fun w whole => by
        cases kind.symm.trans whole
      obtain ⟨us, denotes⟩ := Entries.denotes_of_allFinite finite inexact
      exact (denotes_enter denotes).allFinite

theorem zeros_allFinite (p : Spec) : (zeros p : NDArray Exact).allFinite = true := by
  change (Entries.zeros (volume p.shape) p.kind : Entries Exact).allFinite = true
  cases kind : p.kind with
  | whole w => rfl
  | real q | complex q => exact (Entries.zeros_denotes _ (by simp)).allFinite

theorem toFractional_firm {p : Precision} (firm : p ≠ .bare) (notBare : a.isBare = false) :
    (a.toFractional p).isBare = false := by
  unfold toFractional
  split
  · have stored : (a.cast (.real p)).kind = .real p := Entries.kind_cast (.real p) a.entries
    rw [isBare, stored]
    exact decide_eq_false firm
  · exact notBare

/-- Finite numbers, made fractions if they are whole. -/
theorem toFractional_denotes (finite : a.allFinite = true) (p : Precision) :
    ∃ us, (a.toFractional p).entries.Denotes us := by
  unfold toFractional
  split
  · next w whole => exact Entries.cast_real_denotes whole p
  · next inexact => exact Entries.denotes_of_allFinite finite inexact

end NDArray

theorem shapes_of_firstShapeDifference {ss ts : List Spec} (count : ss.length = ts.length)
    (same : firstShapeDifference ss ts = none) : ss.map Spec.shape = ts.map Spec.shape := by
  induction ss generalizing ts with
  | nil =>
      obtain rfl := List.length_eq_zero_iff.mp count.symm
      rfl
  | cons s ss ih =>
      cases ts with
      | nil => cases count
      | cons t ts =>
          unfold firstShapeDifference at same
          split at same
          · next shape =>
              rw [List.map_cons, List.map_cons, shape, ih (Nat.succ.inj count) same]
          · cases same

namespace Vec

section

variable {R : Type} [Scalar R] {x y : Vec R}

theorem asArrays_accepts (accepted : x.asArrays = .ok y) :
    y.skeleton = x.skeleton ∧ y.leaves = x.leaves.map NDArray.enter := by
  obtain ⟨skeleton, each⟩ := Tree.forall_of_traverse accepted
  refine ⟨skeleton, ?_⟩
  have entered : List.Forall₂ (fun a b => a = b) (x.leaves.map NDArray.enter) y.leaves := by
    rw [List.forall₂_map_left_iff]
    exact each.imp fun _ _ entered => (NDArray.asArray_accepts entered).symm
  exact (List.forall₂_eq_eq_eq ▸ entered : x.leaves.map NDArray.enter = y.leaves).symm

/-- A vector that is accepted has the skeleton and the shapes that are expected. -/
theorem check_accepts {name : String} {s : Structure} (accepted : x.check name s = .ok ()) :
    x.skeleton = s.skeleton ∧ x.leaves.map NDArray.shape = s.leaves.map Spec.shape := by
  simp only [check, toStructure, bind_accepts, pure_accepts] at accepted
  obtain ⟨_, ⟨y, arrays, rfl⟩, accepted⟩ := accepted
  obtain ⟨skeleton, leaves⟩ := asArrays_accepts arrays
  unfold checkStructure at accepted
  split at accepted
  · next same =>
      split at accepted
      · next equal =>
          have count : y.spec.leaves.length = s.leaves.length := by
            rw [y.spec.fits, s.fits, same]
          have shapes := shapes_of_firstShapeDifference count equal
          refine ⟨skeleton.symm.trans same, ?_⟩
          rw [← shapes]
          change _ = (y.leaves.map NDArray.spec).map Spec.shape
          rw [leaves, List.map_map, List.map_map]
          rfl
      · cases accepted
  · cases accepted

end

theorem zeros_allFinite (s : Structure) : (zeros s : Vec Exact).allFinite = true := by
  refine List.all_eq_true.mpr fun a inside => ?_
  obtain ⟨p, _, rfl⟩ := List.mem_map.mp inside
  exact NDArray.zeros_allFinite p

end Vec

/-- A starting point of finite numbers that is accepted is a vector of the domain. -/
theorem startingPoint_fits {A : Operator σ Exact} {x0 : Option (Vec Exact)} {x : Vec Exact}
    (finite : ∀ v, x0 = some v → v.allFinite = true)
    (accepted : Solver.startingPoint A x0 = .ok x) : x.Fits A.domain := by
  simp only [Solver.startingPoint, Vec.toInexact, bind_accepts, pure_accepts] at accepted
  obtain ⟨_, ⟨y, arrays, rfl⟩, _, checked, rfl⟩ := accepted
  obtain ⟨skeleton, shapes⟩ := Vec.check_accepts checked
  refine Vec.fits_of_leaves skeleton shapes fun a inside => ?_
  obtain ⟨b, among, rfl⟩ := List.mem_map.mp inside
  rw [(Vec.asArrays_accepts arrays).2] at among
  obtain ⟨a, given, rfl⟩ := List.mem_map.mp among
  have finite : (x0.getD (Vec.zeros A.domain)).allFinite = true := by
    cases x0 with
    | some v => exact finite v rfl
    | none => exact Vec.zeros_allFinite A.domain
  exact NDArray.toFractional_denotes
    (NDArray.enter_allFinite (List.all_eq_true.mp finite a given)) .double

/-! ## The first step size -/

/-- The options come out of the checks. -/
def Config.Checked (c : Config σ Exact) : Prop := ∃ o halt, ofSettings o halt = .ok c

/-- The predicate is not checked. -/
theorem Config.Checked.withHalt {σ : Type} {c : Config σ Exact} (checked : c.Checked)
    (halt : Option (Predicate σ Exact)) : Checked { c with halt := halt } := by
  obtain ⟨o, halt', made⟩ := checked
  refine ⟨o, halt, ?_⟩
  unfold ofSettings at made ⊢
  simp only [bind_accepts, pure_accepts] at made ⊢
  obtain ⟨_, h₁, _, h₂, _, h₃, _, h₄, _, h₅, _, h₆, _, h₇, _, h₈, rfl⟩ := made
  exact ⟨_, h₁, _, h₂, _, h₃, _, h₄, _, h₅, _, h₆, _, h₇, _, h₈, rfl⟩

/-- A ring may have any number of slots. -/
theorem Config.Checked.withMemory {σ : Type} {c : Config σ Exact} (checked : c.Checked)
    (n : Nat) : Checked { c with memory := .whole n } := by
  obtain ⟨o, halt, made⟩ := checked
  refine ⟨{ o with memory := .whole n }, halt, ?_⟩
  have counted : ∀ fault, (Setting.whole (R := Exact) n).count 0 fault = .ok (.whole n) := by
    intro fault
    rw [Setting.count, if_neg (by omega), Int.toNat_natCast]
  unfold ofSettings at made ⊢
  simp only [bind_accepts, pure_accepts] at made ⊢
  obtain ⟨_, h₁, _, h₂, _, h₃, _, h₄, _, h₅, _, h₆, _, h₇, _, h₈, rfl⟩ := made
  exact ⟨_, h₁, _, h₂, _, counted _, _, h₄, _, h₅, _, h₆, _, h₇, _, h₈, rfl⟩

/-- A positive real number is a tolerance and a step size. -/
theorem Setting.tolerance_of_positive {ε : ℝ} (positive : 0 < ε) :
    (fraction (Exact.real ε)).tolerance = .ok (.real ε) := by
  have above : Scalar.lt 0 (Exact.real ε) = true := by
    rw [Exact.zero_eq, Exact.lt_real]
    exact positive
  exact if_pos above

theorem Setting.stepSize_of_positive {γ : ℝ} (positive : 0 < γ) :
    (fraction (Exact.real γ)).stepSize = .ok (some (.real γ)) := by
  have accepted : (Scalar.lt 0 (Exact.real γ) && Scalar.isFinite (Exact.real γ)) = true := by
    rw [Exact.zero_eq, Bool.and_eq_true, Exact.lt_real]
    exact ⟨positive, rfl⟩
  exact if_pos accepted

/-- A step size that is accepted is finite and above zero. -/
theorem Setting.stepSize_accepts {R : Type} [Scalar R] {o : Setting R} {gamma : R}
    (accepted : o.stepSize = .ok (some gamma)) :
    Scalar.lt 0 gamma = true ∧ Scalar.isFinite gamma = true := by
  rw [← Bool.and_eq_true]
  unfold Setting.stepSize at accepted
  split at accepted
  · cases accepted
  · split at accepted
    · cases accepted
    · next x _ =>
        split at accepted
        · next holds =>
            cases accepted
            exact holds
        · cases accepted

theorem Config.stepSize_accepts {R : Type} [Scalar R] {o : Settings R}
    {halt : Option (Predicate σ R)} {c : Config σ R} (accepted : ofSettings o halt = .ok c)
    {gamma : R} (given : c.stepSize = some gamma) :
    Scalar.lt 0 gamma = true ∧ Scalar.isFinite gamma = true := by
  simp only [ofSettings, bind_accepts, pure_accepts] at accepted
  obtain ⟨_, _, _, _, _, _, _, _, stepSize, sized, _, _, _, _, _, _, rfl⟩ := accepted
  cases given
  exact Setting.stepSize_accepts sized

theorem Config.Checked.stepSize_positive {c : Config σ Exact} (checked : c.Checked) {gamma : Exact}
    (given : c.stepSize = some gamma) : ∃ γ, 0 < γ ∧ gamma = .real γ := by
  obtain ⟨o, halt, accepted⟩ := checked
  obtain ⟨positive, finite⟩ := Config.stepSize_accepts accepted given
  obtain ⟨γ, rfl⟩ := (Exact.isFinite_iff gamma).mp finite
  rw [Exact.zero_eq, Exact.lt_real] at positive
  exact ⟨γ, positive, rfl⟩

/-- A count that is accepted is in range. -/
theorem Setting.count_ge {R : Type} [Scalar R] {s : Setting R} {least n : Nat} {tooSmall : Fault}
    {k : Count R} (accepted : s.count least tooSmall = .ok k) (whole : k.toNat = .ok n) :
    least ≤ n := by
  unfold Setting.count at accepted
  cases s with
  | flag b =>
      simp only at accepted
      split at accepted
      · cases accepted
      · next large =>
          cases accepted
          cases whole
          omega
  | whole m =>
      simp only at accepted
      split at accepted
      · cases accepted
      · next large =>
          cases accepted
          cases whole
          omega
  | fraction x =>
      simp only at accepted
      split at accepted
      · cases accepted
      · cases accepted
        cases whole
  | nothing | text | other => cases accepted

/-- A search has a trial at least. -/
theorem Config.searchBudget_ge {R : Type} [Scalar R] {o : Settings R}
    {halt : Option (Predicate σ R)} {c : Config σ R} (accepted : ofSettings o halt = .ok c)
    {n : Nat} (budget : c.searchBudget.toNat = .ok n) : 1 ≤ n := by
  simp only [ofSettings, bind_accepts, pure_accepts] at accepted
  obtain ⟨_, _, _, _, _, _, _, _, _, _, searchBudget, counted, _, _, _, _, rfl⟩ := accepted
  exact Setting.count_ge counted budget

theorem Config.Checked.searchBudget_positive {c : Config σ Exact} (checked : c.Checked) {n : Nat}
    (budget : c.searchBudget.toNat = .ok n) : 0 < n := by
  obtain ⟨o, halt, accepted⟩ := checked
  exact searchBudget_ge accepted budget

theorem safety_eq : (safety : Exact) = .real (1 / 20) := by
  change Exact.real (((5 : ℕ) : ℝ) / 10 ^ 2) = _
  norm_num

theorem State.gammaFor_positive {l : ℝ} (positive : 0 < l) :
    ∃ γ, 0 < γ ∧ (gammaFor (.real l) : Exact) = .real γ := by
  refine ⟨(1 - 1 / 20) / l, by positivity, ?_⟩
  unfold gammaFor
  rw [safety_eq, Exact.one_eq, Exact.real_sub, Exact.real_div _ _ positive.ne']

theorem Precision.eps_positive (p : Precision) : ∃ e, 0 < e ∧ (p.eps : Exact) = .real e := by
  have inverse : ∀ n : ℕ, 0 < n → ∃ e : ℝ, 0 < e ∧
      (1 / Scalar.ofInt (n : ℤ) : Exact) = .real e := by
    intro n positive
    have nonzero : (((n : ℕ) : ℤ) : ℝ) ≠ 0 := by
      rw [Int.cast_natCast]
      exact (Nat.cast_pos.mpr positive).ne'
    refine ⟨1 / n, by positivity, ?_⟩
    rw [Exact.one_eq, Exact.ofInt_eq, Exact.real_div _ _ nonzero, Int.cast_natCast]
  cases p <;> exact inverse _ (Nat.pow_pos (by norm_num))

/-- The spacing of numbers in a vector is that of some precision. -/
theorem Vec.machineEps_accepts {R : Type} [Scalar R] {x : Vec R} {eps : R}
    (spacing : x.machineEps = .ok eps) : ∃ p : Precision, eps = p.eps := by
  unfold Vec.machineEps at spacing
  split at spacing
  · cases spacing
  · rw [bind_accepts] at spacing
    obtain ⟨a, _, spacing⟩ := spacing
    split at spacing
    · cases spacing
    · cases spacing
      exact ⟨_, rfl⟩
    · cases spacing
      exact ⟨_, rfl⟩

/-- The first step size is a positive number. -/
theorem firstGamma_positive {c : Config σ Exact} {A : Operator σ Exact} {s s' : State Exact}
    {w w' : World σ Exact} {gamma : Exact} (checked : c.Checked)
    (returned : Solver.firstGamma c A s w = .ok (gamma, s') w') :
    ∃ γ, 0 < γ ∧ gamma = .real γ := by
  rcases Solver.firstGamma_returns returned with
    ⟨given, _⟩ | ⟨_, _, _, rfl | ⟨lipschitz, eps, spacing, finite, above, rfl⟩⟩
  · exact checked.stepSize_positive given
  · rw [Exact.one_eq]
    exact State.gammaFor_positive one_pos
  · obtain ⟨l, rfl⟩ := (Exact.isFinite_iff lipschitz).mp finite
    obtain ⟨p, rfl⟩ := Vec.machineEps_accepts spacing
    obtain ⟨e, positive, eps⟩ := p.eps_positive
    have larger : ¬ l ≤ e := by
      rw [← Exact.le_real, ← eps, above]
      simp
    exact State.gammaFor_positive (by linarith)

/-- A positive step size and the slope that belongs to it. -/
theorem State.setGamma_sized {s s' : State Exact} {γ : ℝ} (positive : 0 < γ)
    (set : s.setGamma (.real γ) = .ok s') :
    ∃ sigma, Sized γ (.real γ) sigma ∧ s' = { s with gamma := .real γ, sigma := sigma } := by
  obtain ⟨sigma, divided, rfl⟩ := setGamma_accepts.mp set
  rw [safety_eq, Exact.four_eq, Exact.real_mul, Exact.quotient_real] at divided
  exact ⟨sigma, ⟨positive, rfl, divided.2⟩, rfl⟩

/-! ## The first snapshot -/

/-- A run begins with a positive step size, the given one if there is one. -/
theorem launch_sized {c : Config σ Exact} {A : Operator σ Exact} {g : Prox σ Exact}
    (checked : c.Checked) {x0 : Option (Vec Exact)} {s : State Exact} {w w' : World σ Exact}
    (launched : Solver.launch A g x0 c w = .ok s w') :
    ∃ γ, Sized γ s.gamma s.sigma ∧ ∀ gamma, c.stepSize = some gamma → gamma = .real γ := by
  obtain ⟨x, memory, s₁, w₁, gamma, s₂, w₂, s₃, s₄, _, _, _, sizes, set, steps, _, rfl⟩ :=
    Solver.launch_returns launched
  obtain ⟨γ, positive, rfl⟩ := firstGamma_positive checked sizes
  obtain ⟨sigma, sized, rfl⟩ := State.setGamma_sized positive set
  obtain ⟨_, _, _, _, _, _, rfl⟩ := State.step_frame steps
  refine ⟨γ, sized, fun gamma given => ?_⟩
  rw [Solver.firstGamma, given, pure_returns] at sizes
  exact (congrArg Prod.fst sizes.1).symm

/-- A run that is given a step size begins with it. -/
theorem launch_given {c : Config σ Exact} {A : Operator σ Exact} {g : Prox σ Exact} {γ : ℝ}
    (checked : c.Checked) (given : c.stepSize = some (.real γ)) {x0 : Option (Vec Exact)}
    {s : State Exact} {w w' : World σ Exact}
    (launched : Solver.launch A g x0 c w = .ok s w') : Sized γ s.gamma s.sigma := by
  obtain ⟨γ₀, sized, same⟩ := launch_sized checked launched
  obtain rfl : γ = γ₀ := Exact.real.inj (same _ given)
  exact sized

/-- The buffers are what their names say when the first step is taken. -/
theorem launch_kept {c : Config σ Exact} {A : Operator σ Exact} (M : A.Meaning)
    {g : Prox σ Exact} (stays : g.StaysIn A.domain) (checked : c.Checked)
    {x0 : Option (Vec Exact)} (finite : ∀ v, x0 = some v → v.allFinite = true)
    {s : State Exact} {w w' : World σ Exact} (launched : Solver.launch A g x0 c w = .ok s w')
    (limit : Nat) : (Snapshot.first limit s w').Kept M g := by
  obtain ⟨x, memory, s₁, w₁, gamma, s₂, w₂, s₃, s₄, started, _, evaluates, sizes, set, steps, _,
    rfl⟩ := Solver.launch_returns launched
  have fits := startingPoint_fits finite started
  obtain ⟨ax, fx, grad, evaluated, rfl⟩ := State.evaluate_evaluated (M := M) evaluates fits
  obtain ⟨γ, positive, rfl⟩ := firstGamma_positive checked sizes
  obtain rfl := Solver.firstGamma_frame sizes
  obtain ⟨sigma, sized, rfl⟩ := State.setGamma_sized positive set
  obtain ⟨xbar, gxbar, r, residual, bound, stepped, rfl⟩ :=
    State.step_stepped (M := M) stays sized evaluated steps
  exact ⟨γ, ⟨sized, evaluated, stepped, History.empty_fits fits memory⟩,
    fun begun => absurd rfl begun⟩

end ForwardBackward
