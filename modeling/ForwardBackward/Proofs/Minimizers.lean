/-
# ForwardBackward.Proofs.Minimizers -- every step of the catalogue is taken, to a global minimiser

`Regularizer.prox_minimizes` speaks of what a step answers.  Here the step is also
shown to answer: no vector of finite numbers is refused (`Regularizer.prox_total`), so
a step of size `γ` from `v` yields a point `p` of the same structure, the value `g(p)`,
and

    g(p) + ‖p - v‖² / (2 γ) ≤ g(u) + ‖u - v‖² / (2 γ)

for every vector `u` of arrays of the structure (`Regularizer.prox_attains`).

Only a box asks something of the vector: it moves real numbers between its bounds, and
complex ones have no nearest bound (`Regularizer.Takes`).  The bounds may be bare numbers,
infinite on their own side, or arrays that are repeated to the shape of every leaf.
-/
import ForwardBackward.Proofs.Proximal

namespace ForwardBackward

set_option autoImplicit false

/-- Bounds in order move every array of real numbers of their shape. -/
theorem NDArray.clip_total {s : List Nat} {a lower upper : NDArray Exact} {zs : List ℂ}
    (box : Box s lower upper) (ha : a.entries.Denotes zs) (shape : a.shape = s)
    (real : a.kind.isComplex = false) : ∃ p, a.clip lower upper = .ok p := by
  have firm : a.enter.isBare = false := isBare_enter
  have entered : a.enter.shape = s := shape
  obtain ⟨q, xs, entries, rfl⟩ := real_of_kind (denotes_enter ha) (isComplex_enter.trans real)
  have fraction : q ≠ .bare := by
    rintro rfl
    simp [isBare, kind, entries, Entries.kind, Kind.isBare] at firm
  obtain ⟨m, raised, shapeM, _⟩ := zipWith_expands (f := .max) (c := a.enter) box.below.array
    (by rw [entered]; exact box.below.meets) firm
  -- the array raised to its lower bounds is again one of fractions
  obtain ⟨r, fractionM, joined⟩ := join_real (isComplex_enter.trans box.below.real) fraction
  obtain ⟨_, entriesM⟩ := zipWith_bound box.below entries entered fraction joined raised
  obtain ⟨p, lowered, _⟩ := zipWith_expands (f := .min) (c := m) box.above.array
    (by rw [shapeM, entered]; exact box.above.meets) (isBare_of_real entriesM fractionM)
  refine ⟨p, ?_⟩
  unfold clip
  rw [asArray_of_denotes ha]
  simp only [bind, Except.bind, isComplex_enter, real, box.below.real, box.above.real, raised,
    Bool.or_self, Bool.false_eq_true, if_false]
  exact lowered

namespace Regularizer

variable {g : Regularizer Exact} {S : Structure} {γ : ℝ} {v : Vec Exact}

/-- What the step of a regularizer takes: a box has no step for complex numbers. -/
def Takes (v : Vec Exact) : Regularizer Exact → Prop
  | .box _ _ => ∀ a ∈ v.leaves, a.kind.isComplex = false
  | _ => True

theorem clipAll_total {lower upper : NDArray Exact} {as : List (NDArray Exact)} {ps : List Spec}
    {zs : List ℂ} (boxes : ∀ p ∈ ps, NDArray.Box p.shape lower upper)
    (leaves : LeavesDenote as ps zs) (real : ∀ a ∈ as, a.kind.isComplex = false) :
    ∃ cs, List.Forall₂ (fun a c => a.clip lower upper = .ok c) as cs := by
  induction leaves with
  | nil => exact ⟨[], .nil⟩
  | cons shape denotes _ ih =>
      obtain ⟨c, clipped⟩ := NDArray.clip_total (boxes _ List.mem_cons_self) denotes shape
        (real _ List.mem_cons_self)
      obtain ⟨cs, others⟩ := ih (fun p inside => boxes p (List.mem_cons_of_mem _ inside))
        fun a inside => real a (List.mem_cons_of_mem _ inside)
      exact ⟨c :: cs, .cons clipped others⟩

/-- A regularizer is a sum over the entries unless it is a box. -/
theorem Proper.entrywise_or_box (proper : g.Proper S) (positive : 0 < γ) :
    (∃ cost move, g.Entrywise S γ cost move) ∨ ∃ lower upper, g = .box lower upper := by
  cases g with
  | zero => exact .inl ⟨_, _, entrywise_zero positive⟩
  | l1 weight =>
      obtain ⟨l, nonneg, rfl⟩ := proper
      exact .inl ⟨_, _, entrywise_l1 positive nonneg⟩
  | l0 weight =>
      obtain ⟨⟨l, nonneg, rfl⟩, few⟩ := proper
      exact .inl ⟨_, _, entrywise_l0 positive nonneg few⟩
  | l2 weight =>
      obtain ⟨l, nonneg, rfl⟩ := proper
      exact .inl ⟨_, _, entrywise_l2 positive nonneg⟩
  | box lower upper => exact .inr ⟨lower, upper, rfl⟩

/-- A step is taken where its point and the value there are known. -/
theorem prox_answers {p : Vec Exact} {gamma G : Exact} (found : g.point v gamma = .ok p)
    (valued : g.value p = .ok G) : ∃ G', g.prox v gamma = .ok (p, G') := by
  unfold prox
  rw [found]
  cases g with
  | box lower upper => exact ⟨0, rfl⟩
  | _ => exact ⟨G, congrArg (fun value => do pure (p, ← value)) valued⟩

/-- A step from a vector of finite numbers is not refused. -/
theorem prox_total (proper : g.Proper S) (positive : 0 < γ) (fits : v.Fits S)
    (takes : g.Takes v) : ∃ p G, g.prox v (.real γ) = .ok (p, G) := by
  obtain ⟨zs, hv⟩ := fits
  rcases proper.entrywise_or_box positive with ⟨cost, move, entrywise⟩ | ⟨lower, upper, rfl⟩
  · obtain ⟨p, found, hp⟩ := entrywise.point hv
    exact ⟨p, prox_answers found (entrywise.value hp)⟩
  · obtain ⟨cs, clipped⟩ := clipAll_total proper hv.leaves takes
    obtain ⟨_, found⟩ := Tree.traverse_of_forall clipped
    have pointed : ∃ p, (box lower upper).point v (.real γ) = .ok p := ⟨_, found⟩
    obtain ⟨p, pointed⟩ := pointed
    refine ⟨p, 0, ?_⟩
    unfold prox
    rw [pointed]
    rfl

/-- Every step of the catalogue answers a global minimiser and the value there. -/
theorem prox_attains (proper : g.Proper S) (positive : 0 < γ) (fits : v.Fits S)
    (takes : g.Takes v) :
    ∃ p G, g.prox v (.real γ) = .ok (p, .real G) ∧ p.Fits S ∧ g.value p = .ok (.real G) ∧
      ∀ u : Vec Exact, u.Fits S → u.OfArrays → ∃ U, g.value u = .ok U ∧
        Scalar.le (.real (G + ‖p.point S - v.point S‖ ^ 2 / (2 * γ)))
          (U + .real (‖u.point S - v.point S‖ ^ 2 / (2 * γ))) = true := by
  obtain ⟨p, _, stepped⟩ := prox_total proper positive fits takes
  obtain ⟨G, rfl, minimizes⟩ := prox_minimizes proper positive fits stepped
  refine ⟨p, G, stepped, minimizes.fits, minimizes.value, fun u fitsU arrays => ?_⟩
  obtain ⟨U, valued⟩ := value_total proper fitsU arrays
  exact ⟨U, valued, minimizes.least fitsU arrays valued⟩

/-- Where the value of a regularizer is known: a box compares arrays, and no bare numbers. -/
def Sees (u : Vec Exact) : Regularizer Exact → Prop
  | .box _ _ => u.OfArrays
  | _ => True

theorem sees_of_arrays {u : Vec Exact} (arrays : u.OfArrays) : g.Sees u := by
  cases g with
  | box lower upper => exact arrays
  | _ => trivial

theorem value_seen {u : Vec Exact} (proper : g.Proper S) (hu : u.Fits S) (sees : g.Sees u) :
    ∃ U, g.value u = .ok U := by
  rcases proper.entrywise_or_box one_pos with ⟨_, _, entrywise⟩ | ⟨_, _, rfl⟩
  · obtain ⟨us, hu⟩ := hu
    exact ⟨_, entrywise.value hu⟩
  · exact value_total proper hu sees

/-- The point of a step is a minimiser among the vectors at which the value is known. -/
theorem prox_le {p u : Vec Exact} {G : ℝ} {U : Exact} (proper : g.Proper S) (positive : 0 < γ)
    (fits : v.Fits S) (stepped : g.prox v (.real γ) = .ok (p, .real G)) (hu : u.Fits S)
    (sees : g.Sees u) (valued : g.value u = .ok U) :
    Scalar.le (.real (G + ‖p.point S - v.point S‖ ^ 2 / (2 * γ)))
      (U + .real (‖u.point S - v.point S‖ ^ 2 / (2 * γ))) = true := by
  obtain ⟨_, same, minimizes⟩ := prox_minimizes proper positive fits stepped
  cases same
  rcases proper.entrywise_or_box positive with ⟨_, _, entrywise⟩ | ⟨_, _, rfl⟩
  · obtain ⟨_, same, least⟩ :=
      entrywise.le fits (prox_accepts stepped).1 minimizes.value hu valued
    cases same
    exact least
  · exact minimizes.least hu sees valued

/-- Bare bounds, the upper one infinite, are repeated along the two numbers `3` and `-1`. -/
theorem halfLine_prox_attains :
    let S : Structure := .leaf ⟨[2], .real .double⟩
    let v : Vec Exact := .leaf ⟨[2], .real .double [.real 3, .real (-1)], rfl⟩
    let g : Regularizer Exact := .box (.ofNumber (.real 0)) (.ofNumber (.infinite false))
    g.Proper S ∧ (0 : ℝ) < 2 ∧ v.Fits S ∧ g.Takes v ∧
      ∃ p G, g.prox v (.real 2) = .ok (p, .real G) ∧ p.Fits S ∧ g.value p = .ok (.real G) ∧
        ∀ u : Vec Exact, u.Fits S → u.OfArrays → ∃ U, g.value u = .ok U ∧
          Scalar.le (.real (G + ‖p.point S - v.point S‖ ^ 2 / (2 * 2)))
            (U + .real (‖u.point S - v.point S‖ ^ 2 / (2 * 2))) = true := by
  intro S v g
  have proper : g.Proper S := by
    rintro p inside
    obtain rfl : p = ⟨[2], .real .double⟩ := List.mem_singleton.mp inside
    refine ⟨⟨⟨_, rfl⟩, rfl, rfl⟩, ⟨⟨_, rfl⟩, rfl, rfl⟩, ?_⟩
    have bounds : ((NDArray.ofNumber (.real 0)).boundsOn [2]).zip
        ((NDArray.ofNumber (.infinite false)).boundsOn [2]) =
        [((.real 0 : Exact), .infinite false), (.real 0, .infinite false)] := rfl
    intro b inside
    rw [bounds] at inside
    obtain rfl : b = (.real 0, .infinite false) := by simpa using inside
    exact ⟨Exact.le_top _, by simp, by simp⟩
  have fits : v.Fits S := by
    refine Vec.fits_of_leaves rfl rfl fun a inside => ?_
    obtain rfl := List.mem_singleton.mp inside
    exact ⟨_, .real .double [3, -1]⟩
  have takes : g.Takes v := by
    intro a inside
    obtain rfl := List.mem_singleton.mp inside
    rfl
  exact ⟨proper, two_pos, fits, takes, prox_attains proper two_pos fits takes⟩

end Regularizer

end ForwardBackward
