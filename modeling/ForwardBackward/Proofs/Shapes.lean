/-
# ForwardBackward.Proofs.Shapes -- shapes stay what they are

A vector is `Shaped` like a structure if it has its skeleton and the shapes of its
leaves, whatever the kinds.  Every operation on vectors keeps that
(`Vec.shaped_congruence`), in every arithmetic: where two arrays have one shape,
nothing is repeated, and a slot of a history keeps its own.

So if the operator and the proximal step keep to the structures that the operator
declares, all vectors of a run do (`Solver.Passes.shaped`): the run is in lockstep
with itself.
-/
import ForwardBackward.Proofs.Launch
import ForwardBackward.Proofs.Lockstep

namespace ForwardBackward

set_option autoImplicit false

variable {σ R : Type} [Scalar R]

/-! ## Arrays -/

namespace NDArray

variable {a b c slot : NDArray R} {f : Rule R}

/-- An array of the shape of a leaf. -/
def Shaped (p : Spec) (a : NDArray R) : Prop := a.shape = p.shape

theorem asArray_shape (accepted : a.asArray = .ok b) : b.shape = a.shape := by
  rw [asArray_accepts accepted]
  rfl

/-- Arrays of one shape are combined entry by entry: as they are, or as arrays. -/
theorem zipWith_same (same : a.shape = b.shape) (made : zipWith f a b = .ok c) :
    c.shape = a.shape ∧ ∃ u v : NDArray R, (u = a ∨ u = a.enter) ∧ (v = b ∨ v = b.enter) ∧
      c.entries = u.entries.zipWith f v.entries := by
  obtain ⟨⟨u, v⟩, met, zipped⟩ := bind_accepts.mp made
  have sides : (u = a ∨ u = a.enter) ∧ (v = b ∨ v = b.enter) := by
    unfold meet at met
    split at met
    · cases met
      exact ⟨.inl rfl, .inl rfl⟩
    · simp only [bind_accepts, pure_accepts] at met
      obtain ⟨a', left, b', right, answer⟩ := met
      obtain ⟨rfl, rfl⟩ := Prod.mk.inj answer
      exact ⟨.inr (asArray_accepts left), .inr (asArray_accepts right)⟩
  have shapeU : u.shape = a.shape := by rcases sides.1 with rfl | rfl <;> rfl
  have shapeV : v.shape = b.shape := by rcases sides.2 with rfl | rfl <;> rfl
  change zipArrays f u v = .ok c at zipped
  unfold zipArrays at zipped
  rw [dif_pos (shapeU.trans (same.trans shapeV.symm))] at zipped
  cases zipped
  exact ⟨shapeU, u, v, sides.1, sides.2, rfl⟩

theorem sub_zips (difference : a.sub b = .ok c) : zipWith .sub a b = .ok c := by
  unfold sub at difference
  split at difference
  · cases difference
  · exact difference

theorem storedIn_shape (stored : slot.storedIn a = .ok c) : c.shape = slot.shape := by
  unfold storedIn at stored
  split at stored
  · cases stored
    rfl
  · split at stored
    · cases stored
      change NDArray.shape (if a.shape = slot.shape then a else a.expandTo slot.shape) = _
      split
      · assumption
      · rfl
    · cases stored

end NDArray

/-! ## Vectors -/

namespace Vec

variable {S : Structure} {x y z slot : Vec R}

/-- A vector of the skeleton and the shapes of a structure. -/
def Shaped (S : Structure) (x : Vec R) : Prop := Tree.Leafwise NDArray.Shaped S x

theorem Shaped.map {f : NDArray R → NDArray R} (keeps : ∀ a, (f a).shape = a.shape)
    (hx : x.Shaped S) : Shaped S (x.map f) := by
  refine ⟨hx.skeleton, ?_⟩
  change List.Forall₂ _ _ (x.leaves.map f)
  rw [List.forall₂_map_right_iff]
  exact hx.leaves.imp fun _ a shape => (keeps a).trans shape

theorem Shaped.traverse {f : NDArray R → Except Fault (NDArray R)}
    (keeps : ∀ a b, f a = .ok b → b.shape = a.shape) (hx : x.Shaped S)
    (made : Tree.traverse f x = .ok z) : z.Shaped S := by
  obtain ⟨skeleton, each⟩ := Tree.forall_of_traverse made
  refine ⟨skeleton.trans hx.skeleton, ?_⟩
  have shapes : List.Forall₂ (fun a p => NDArray.Shaped p a) x.leaves S.leaves := hx.leaves.flip
  exact forall_of_common shapes each fun a p b shape made => (keeps a b made).trans shape

theorem Shaped.zip {f : Rule R} {op : NDArray R → NDArray R → Except Fault (NDArray R)}
    (zips : ∀ {a b c}, op a b = .ok c → NDArray.zipWith f a b = .ok c) (hx : x.Shaped S)
    (hy : y.Shaped S) (made : Tree.combine op x y = .ok z) : z.Shaped S :=
  hx.of_combine hy made fun _ _ _ _ ha hb made =>
    (NDArray.zipWith_same (ha.trans hb.symm) (zips made)).1.trans ha

/-- A property of vectors as a relation of every vector to itself. -/
def Stays (P : Vec R → Prop) (x x' : Vec R) : Prop := x' = x ∧ P x

/-- What gives a vector with a property agrees with itself. -/
theorem stays_agrees {P : Vec R → Prop} {e : Except Fault (Vec R)}
    (holds : ∀ z, e = .ok z → P z) : Agrees (Stays P) e e := by
  cases e with
  | ok z => exact .ok ⟨rfl, holds z rfl⟩
  | error => exact .error

theorem stays_parallel {P : Vec R → Prop} {m : Call σ (Vec R)}
    (holds : ∀ env z env', m env = .ok z env' → P z) : Parallel (Stays P) m m := by
  intro env
  cases answered : m env with
  | ok z env' => exact .ok ⟨rfl, holds env z env' answered⟩
  | error => exact .error

theorem shaped_additive (S : Structure) : Additive (Stays (Shaped (R := R) S)) where
  scale := by
    rintro x _ c ⟨rfl, hx⟩
    exact ⟨rfl, hx.map fun _ => rfl⟩
  add := by
    rintro x _ y _ ⟨rfl, hx⟩ ⟨rfl, hy⟩
    exact stays_agrees fun _ => hx.zip id hy
  asArrays := by
    rintro x _ ⟨rfl, hx⟩
    exact stays_agrees fun _ => hx.traverse fun _ _ => NDArray.asArray_shape
  norm := by
    rintro x _ ⟨rfl, _⟩
    rfl

theorem shaped_congruence (S : Structure) : Congruence (Stays (Shaped (R := R) S)) where
  toAdditive := shaped_additive S
  shift := by
    rintro x _ c ⟨rfl, hx⟩
    exact ⟨rfl, hx.map fun _ => rfl⟩
  sub := by
    rintro x _ y _ ⟨rfl, hx⟩ ⟨rfl, hy⟩
    exact stays_agrees fun _ => hx.zip NDArray.sub_zips hy
  inner := by
    rintro x _ y _ ⟨rfl, _⟩ ⟨rfl, _⟩
    rfl
  size := by
    rintro x _ ⟨rfl, _⟩
    rfl
  machineEps := by
    rintro x _ ⟨rfl, _⟩
    rfl
  allFinite := by
    rintro x _ ⟨rfl, _⟩
    rfl
  isFinite := by
    rintro x _ ⟨rfl, _⟩
    rfl
  zeros := by
    rintro _ x ⟨rfl, hx⟩
    refine ⟨rfl, hx.skeleton, ?_⟩
    change List.Forall₂ _ _ ((x.leaves.map NDArray.spec).map NDArray.zeros)
    rw [List.map_map, List.forall₂_map_right_iff]
    exact hx.leaves
  fill := by
    rintro slot _ x _ ⟨rfl, hslot⟩ ⟨rfl, _⟩
    refine stays_agrees fun z stored => hslot.kept stored fun p a w c shape stored => ?_
    obtain ⟨b, _, stored⟩ := bind_accepts.mp stored
    exact (NDArray.storedIn_shape stored).trans shape

end Vec

/-! ## Runs -/

/-- An operator that keeps to the structures it declares, as far as their shapes go. -/
structure Operator.Shaped (A : Operator σ R) : Prop where
  apply {x y : Vec R} {env env' : σ} : x.Shaped A.domain → A.apply x env = .ok y env' →
    y.Shaped A.codomain
  applyLinear {x y : Vec R} {env env' : σ} : x.Shaped A.domain → A.applyLinear x env = .ok y env' →
    y.Shaped A.codomain
  applyAdjoint {y x : Vec R} {env env' : σ} : y.Shaped A.codomain →
    A.applyAdjoint y env = .ok x env' → x.Shaped A.domain

/-- Proximal steps lead to vectors of the same shapes. -/
def Prox.Shaped (S : Structure) (g : Prox σ R) : Prop :=
  ∀ {v : Vec R} {gamma : R} {p : Vec R × R} {env env' : σ}, v.Shaped S →
    g.prox v gamma env = .ok p env' → p.1.Shaped S

section Runs

open Vec (Stays)

variable {A : Operator σ R} {g : Prox σ R} {c : Config σ R}

theorem Operator.Shaped.linearPart (shaped : A.Shaped) {x y : Vec R} {env env' : σ}
    (hx : x.Shaped A.domain) (answered : A.linearPart.apply x env = .ok y env') :
    y.Shaped A.codomain := by
  unfold Operator.linearPart at answered
  split at answered
  · exact shaped.apply hx answered
  · exact shaped.applyLinear hx answered

theorem History.Paired.eq {P : Vec R → Prop} {h h' : History R}
    (paired : History.Paired (Stays P) h h') : h' = h := by
  obtain ⟨slots, head, size, rejected⟩ := h
  obtain ⟨slots', head', size', rejected'⟩ := h'
  obtain ⟨pairs, rfl, rfl, rfl⟩ := paired
  have same : List.Forall₂ (fun p p' => p = p') slots slots' := by
    refine pairs.imp fun p p' pair => ?_
    obtain ⟨s, y, rho⟩ := p
    obtain ⟨s', y', rho'⟩ := p'
    obtain ⟨⟨rfl, _⟩, ⟨rfl, _⟩, rfl⟩ := pair
    rfl
  rw [List.forall₂_eq_eq_eq] at same
  rw [same]

/-- A state in lockstep with another one for a property is that state. -/
theorem State.Kin.eq {P Q : Vec R → Prop} {s s' : State R} (kin : s.Kin (Stays P) (Stays Q) s') :
    s' = s := by
  have same : ∀ {P : Vec R → Prop} {x x' : Vec R}, Vec.Kin (Stays P) x x' → x' = x :=
    fun kin => kin.elim And.left id
  calc
    s' = { s'.numbers with
        x := s'.x, ax := s'.ax, grad := s'.grad, xbar := s'.xbar, axbar := s'.axbar
        gradbar := s'.gradbar, r := s'.r, rbar := s'.rbar, xbarPrev := s'.xbarPrev
        rbarPrev := s'.rbarPrev, d := s'.d, ld := s'.ld, lld := s'.lld
        history := s'.history } := rfl
    _ = { s.numbers with
        x := s.x, ax := s.ax, grad := s.grad, xbar := s.xbar, axbar := s.axbar
        gradbar := s.gradbar, r := s.r, rbar := s.rbar, xbarPrev := s.xbarPrev
        rbarPrev := s.rbarPrev, d := s.d, ld := s.ld, lld := s.lld
        history := s.history } := by
      rw [kin.numbers, same kin.x, same kin.ax, same kin.grad, same kin.xbar, same kin.axbar,
        same kin.gradbar, same kin.r, same kin.rbar, same kin.xbarPrev, same kin.rbarPrev,
        same kin.d, same kin.ld, same kin.lld, kin.history.eq]
    _ = s := rfl

/-- A run of capabilities that keep shapes is in lockstep with itself. -/
theorem Solver.lockstep_of_shaped (hA : A.Shaped) (hg : Prox.Shaped A.domain g) :
    Lockstep (Stays (Vec.Shaped A.domain)) (Stays (Vec.Shaped A.codomain)) A A g g c where
  congruence := Vec.shaped_congruence A.domain
  additive := Vec.shaped_additive A.codomain
  operator := {
    apply := by
      rintro x _ ⟨rfl, hx⟩
      exact Vec.stays_parallel fun _ _ _ => hA.apply hx
    linearPart := by
      rintro x _ ⟨rfl, hx⟩
      exact Vec.stays_parallel fun _ _ _ => hA.linearPart hx
    applyAdjoint := by
      rintro y _ ⟨rfl, hy⟩
      exact Vec.stays_parallel fun _ _ _ => hA.applyAdjoint hy }
  prox := by
    rintro _ v gamma ⟨rfl, hv⟩ env
    cases answered : g.prox v gamma env with
    | ok p env' => exact .ok ⟨⟨rfl, hg hv answered⟩, rfl⟩
    | error => exact .error
  asked paired env := by rw [paired.toKin.eq]

theorem Solver.startingPoint_shaped {x0 : Option (Vec R)} {x : Vec R}
    (accepted : startingPoint A x0 = .ok x) : x.Shaped A.domain := by
  simp only [startingPoint, bind_accepts, pure_accepts] at accepted
  obtain ⟨y, _, _, checked, rfl⟩ := accepted
  obtain ⟨skeleton, shapes⟩ := Vec.check_accepts checked
  refine ⟨skeleton, ?_⟩
  rw [← List.forall₂_eq_eq_eq, List.forall₂_map_left_iff, List.forall₂_map_right_iff] at shapes
  exact shapes.flip

/-- At every snapshot the vectors that a run knows have the shapes of the domain. -/
theorem Solver.Passes.shaped (hA : A.Shaped) (hg : Prox.Shaped A.domain g)
    {x0 : Option (Vec R)} {w : World σ R} {vs : List (Snapshot σ R)} {b : Snapshot σ R}
    (passes : Passes A g x0 c w vs b) :
    b.state.x.Shaped A.domain ∧ b.state.grad.Shaped A.domain ∧ b.state.xbar.Shaped A.domain := by
  obtain ⟨_, _, _, _, paired⟩ := passes.paired (lockstep_of_shaped hA hg)
    (Vec.stays_agrees fun _ => startingPoint_shaped)
  exact ⟨paired.state.iterate.2, paired.state.gradient.2, paired.state.forward.2⟩

end Runs

end ForwardBackward
