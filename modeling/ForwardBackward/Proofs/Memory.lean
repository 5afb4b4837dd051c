/-
# ForwardBackward.Proofs.Memory -- what the history of a run holds

A run begins with an empty ring shaped after its starting point, and every pair that
it offers is one of vectors of the domain (`Course.offers_fit`, `Solver.Passes.remembers`).
So what the theorems about rings say of offers that fit holds at every moment of every
run: the factors are positive, and the next pair can be offered
(`History.Fits.update_answers`).

The shapes of the ring are those of the domain, its kinds are not: they are the kinds of
the starting point.  `History.Lost` is the case in which that shows, a newest pair whose
change of residual was accepted and then stored as zero.  It is the only one in which a
residual of zero has no direction (`History.direction_of_zero`), and it takes a ring of
real numbers (`History.Lost.real_slots`).
-/
import ForwardBackward.Proofs.Launch
import ForwardBackward.Proofs.Tally
import ForwardBackward.Proofs.TwoLoop

namespace ForwardBackward

set_option autoImplicit false

variable {σ : Type}

/-! ## Structures of the same shapes -/

theorem pointOf_eq_zero_iff {m n : Nat} (same : m = n) (us : List ℂ) :
    pointOf m us = 0 ↔ pointOf n us = 0 := by
  subst same
  exact Iff.rfl

namespace Vec

variable {S : Structure} {x y : Vec Exact}

/-- What fits a structure has a structure of the same shapes. -/
theorem Fits.shapes (hx : x.Fits S) : x.leaves.map NDArray.shape = S.leaves.map Spec.shape := by
  obtain ⟨us, hx⟩ := hx
  have each : ∀ {as : List (NDArray Exact)} {ps : List Spec} {us : List ℂ},
      LeavesDenote as ps us → as.map NDArray.shape = ps.map Spec.shape := by
    intro as ps us leaves
    induction leaves with
    | nil => rfl
    | cons shape _ _ ih => rw [List.map_cons, List.map_cons, shape, ih]
  exact each hx.leaves

theorem spec_shapes (x : Vec Exact) :
    x.spec.leaves.map Spec.shape = x.leaves.map NDArray.shape := by
  change (x.leaves.map NDArray.spec).map Spec.shape = _
  rw [List.map_map]
  rfl

/-- Vectors of one structure fit the shapes of one another. -/
theorem Fits.spec (hx : x.Fits S) (hy : y.Fits S) : y.Fits x.spec := by
  obtain ⟨us, denotes⟩ := hy
  refine fits_of_leaves (denotes.skeleton.trans ?_) ?_ fun a inside => ?_
  · obtain ⟨_, denotes'⟩ := hx
    exact denotes'.skeleton.symm
  · rw [spec_shapes, hx.shapes, denotes.fits.shapes]
  · obtain ⟨_, _, zs, _, entries⟩ := denotes.leaves.member inside
    exact ⟨zs, entries⟩

theorem Fits.spec_inexact (hx : x.Fits S) : x.spec.Inexact := by
  intro p inside
  obtain ⟨a, among, rfl⟩ := List.mem_map.mp inside
  obtain ⟨us, denotes⟩ := hx
  obtain ⟨_, _, zs, _, entries⟩ := denotes.leaves.member among
  exact NDArray.spec_inexact entries

/-- Where all kinds are complex there is no imaginary part to lose. -/
theorem Fits.suits_of_complex (hx : x.Fits S)
    (complex : ∀ p ∈ S.leaves, p.kind.isComplex = true) : x.Suits S := by
  obtain ⟨us, hx⟩ := hx
  have each : ∀ {as : List (NDArray Exact)} {ps : List Spec} {us : List ℂ},
      LeavesDenote as ps us → (∀ p ∈ ps, p.kind.isComplex = true) →
      List.Forall₂ NDArray.Suits ps as := by
    intro as ps us leaves all
    induction leaves with
    | nil => exact .nil
    | cons shape denotes _ ih =>
        obtain ⟨here, there⟩ := List.forall_mem_cons.mp all
        exact .cons ⟨shape, _, denotes, .inl here⟩ (ih there)
  exact ⟨hx.skeleton, each hx.leaves complex⟩

/-- A vector that is zero in a structure is zero in the shapes of any other vector of it. -/
theorem Fits.spec_point_eq_zero (hx : x.Fits S) (y : Vec Exact) :
    y.point x.spec = 0 ↔ y.point S = 0 := by
  have volumes : ∀ ps : List Spec,
      (ps.map fun p => volume p.shape) = (ps.map Spec.shape).map volume :=
    fun ps => (List.map_map ..).symm
  refine pointOf_eq_zero_iff ?_ y.numbers
  unfold Structure.dimension
  rw [volumes, volumes, spec_shapes, hx.shapes]

end Vec

theorem Offer.Fits.spec {S : Structure} {x : Vec Exact} {o : Offer Exact} (hx : x.Fits S)
    (fits : o.Fits S) : o.Fits x.spec :=
  ⟨hx.spec fits.xbar, hx.spec fits.xbarPrev, hx.spec fits.r, hx.spec fits.rPrev⟩

/-! ## Offers of a run -/

/-- A history of vectors of a structure can be offered any pair of such vectors. -/
theorem History.Fits.update_answers {S : Structure} {h : History Exact}
    {xbar xbarPrev r rPrev : Vec Exact} (hh : h.Fits S) (hx : xbar.Fits S)
    (hx' : xbarPrev.Fits S) (hr : r.Fits S) (hr' : rPrev.Fits S) :
    ∃ h', h.update xbar xbarPrev r rPrev = .ok h' := by
  obtain ⟨s, moved, hs, _⟩ := hx.sub hx'
  obtain ⟨y, turned, hy, _⟩ := hr.sub hr'
  unfold History.update
  split
  · exact ⟨h, rfl⟩
  · simp only [moved, turned, hs.inner_eq hy, bind, Except.bind]
    split
    · unfold History.store
      split
      · exact ⟨h, rfl⟩
      · next slot found =>
          have old := hh slot (List.mem_of_getElem? found)
          obtain ⟨s', filled⟩ := old.step.fill_answers hs
          obtain ⟨y', filled'⟩ := old.change.fill_answers hy
          simp only [filled, filled', bind, Except.bind]
          exact ⟨_, rfl⟩
    · exact ⟨_, rfl⟩

section Offers

variable {A : Operator σ Exact} {M : A.Meaning} {g : Prox σ Exact} {c : Config σ Exact}
  {a b d : Snapshot σ Exact} {vs : List (Snapshot σ Exact)}

/-- What a move offers to the history is made of vectors of the domain. -/
theorem Turn.offer_fits (before : b.Kept M g) (after : d.Kept M g) (turn : Turn c b d) :
    ∀ o ∈ (b.offer? d).toList, o.Fits A.domain := by
  intro o inside
  cases turn with
  | aim =>
      obtain ⟨γ, sound, holds⟩ := before
      obtain ⟨_, _, anchored, _⟩ := after
      rw [Snapshot.offer?_of_recorded rfl] at inside
      split at inside
      · cases inside
      · next later =>
          obtain rfl := List.mem_singleton.mp inside
          obtain ⟨hx, hr⟩ := holds.2.2 later
          exact ⟨sound.stepped.xbar_fits, hx, anchored.rbarPrev_fits, hr⟩
  | search | skip | bounded | halve | unbounded | settle | depart | accept | reject | exhaust
  | approve =>
      rw [Snapshot.offer?_of_not_recorded rfl] at inside
      cases inside

theorem Course.offers_fit (stays : g.StaysIn A.domain) (course : Course c A g a vs b)
    (start : a.Kept M g) : ∀ o ∈ Snapshot.offers (vs ++ [b]), o.Fits A.domain := by
  induction course with
  | stay =>
      intro o inside
      cases inside
  | move course step ih =>
      have before := course.kept stays start
      intro o inside
      rw [Snapshot.offers_concat] at inside
      rcases List.mem_append.mp inside with earlier | last
      · exact ih o earlier
      · exact step.turn.offer_fits before (step.kept stays before) o last

/-- The history of a run is what its offers have made of a ring shaped after the starting point,
and all of them fit. -/
theorem Solver.Passes.remembers (M : A.Meaning) (stays : g.StaysIn A.domain) (checked : c.Checked)
    {x0 : Option (Vec Exact)} {w : World σ Exact}
    (finite : ∀ v, x0 = some v → v.allFinite = true) (passes : Passes A g x0 c w vs b) :
    ∃ x m, startingPoint A x0 = .ok x ∧ c.memory.slots = .ok m ∧ x.Fits A.domain ∧
      (History.empty x m).offerAll (Snapshot.offers (vs ++ [b])) = .ok b.state.history ∧
      ∀ o ∈ Snapshot.offers (vs ++ [b]), o.Fits A.domain := by
  obtain ⟨s₀, w₀, limit, launched, _, course⟩ := passes
  have kept := launch_kept M stays checked finite launched limit
  obtain ⟨x, m, s₁, w₁, gamma, s₂, w₂, s₃, s₄, started, slots, evaluates, sizes, set, steps, _,
    rfl⟩ := launch_returns launched
  have history : s₄.history = History.empty x m := by
    obtain ⟨_, _, _, _, _, _, _, rfl⟩ := State.evaluate_returns evaluates
    obtain rfl := firstGamma_frame sizes
    obtain ⟨_, _, rfl⟩ := State.setGamma_accepts.mp set
    obtain ⟨_, _, _, _, _, _, rfl⟩ := State.step_returns steps
    rfl
  have offered := course.offerAll
  refine ⟨x, m, started, slots, startingPoint_fits finite started, ?_,
    course.offers_fit stays kept⟩
  rw [← history]
  exact offered

end Offers

/-! ## What is lost as it is stored -/

namespace History

variable {x r : Vec Exact} {h : History Exact} {M : Nat} {os : List (Offer Exact)}

/-- The newest pair was accepted for a change of residual that is zero in its slot: it had an
imaginary part where the slot, shaped after `x`, holds real numbers. -/
def Lost (x : Vec Exact) (h : History Exact) : Prop :=
  ∃ (raw newest : SecantPair Exact) (older : List (SecantPair Exact)),
    h.recent = newest :: older ∧ raw.StoredAs x.spec newest ∧ raw.y.Fits x.spec ∧
    raw.y.point x.spec ≠ 0 ∧ newest.y.point x.spec = 0 ∧ ¬ raw.y.Suits x.spec

/-- A ring of complex numbers loses nothing. -/
theorem Lost.real_slots (lost : h.Lost x) : ∃ p ∈ x.spec.leaves, p.kind.isComplex = false := by
  obtain ⟨raw, _, _, _, _, fits, _, _, unsuited⟩ := lost
  by_contra! complex
  exact unsuited (fits.suits_of_complex fun p inside => Bool.of_not_eq_false (complex p inside))

/-- Where the newest change of residual is zero, it was lost. -/
theorem lost_of_zero {newest : SecantPair Exact} {older : List (SecantPair Exact)}
    (inexact : x.spec.Inexact) (fits : ∀ o ∈ os, o.Fits x.spec)
    (offered : (empty x M).offerAll os = .ok h) (recent : h.recent = newest :: older)
    (zero : newest.y.point x.spec = 0) : h.Lost x := by
  have inside : newest ∈ h.recent := by rw [recent]; exact List.mem_cons_self
  obtain ⟨raw, _, ⟨o, member, pair⟩, stored⟩ := exists_of_mem_right (recent_offered offered) inside
  obtain ⟨_, hy, positive, _⟩ := accepted_pair (fits o member) pair
  have some : raw.y.point x.spec ≠ 0 := by
    intro none
    rw [none, inner_zero_right] at positive
    exact lt_irrefl _ positive
  refine ⟨raw, newest, older, recent, stored, hy, some, zero, fun suits => some ?_⟩
  have keeps : (Vec.zeros x.spec : Vec Exact).Keeps x.spec := Vec.zeros_keeps _
  rw [← suits.fill_point keeps inexact stored.y, zero]

/-- The direction for zero is zero, unless the newest change of residual is lost: then the
scaling between the loops divides by zero. -/
theorem direction_of_zero (inexact : x.spec.Inexact) (fits : ∀ o ∈ os, o.Fits x.spec)
    (offered : (empty x M).offerAll os = .ok h) (hr : r.Fits x.spec) (zero : r.point x.spec = 0) :
    (∃ d, h.direction r = .ok d ∧ d.point x.spec = 0) ∨
      (h.Lost x ∧ h.direction r = .error .divisionByZero) := by
  have curved := recent_curved inexact fits offered
  cases recent : h.recent with
  | nil =>
      obtain ⟨d, asked, _, point⟩ := direction_of_no_pairs recent hr
      exact .inl ⟨d, asked, by rw [point, zero, neg_zero]⟩
  | cons newest older =>
      by_cases lost : newest.y.point x.spec = 0
      · exact .inr ⟨lost_of_zero inexact fits offered recent lost,
          direction_divides_by_zero recent curved lost hr⟩
      · obtain ⟨d, asked, _, point⟩ := direction_point recent curved lost hr
        refine .inl ⟨d, asked, ?_⟩
        rw [point, zero, (slotProduct_symmetric _ _).linear.map_zero, neg_zero]

end History

end ForwardBackward
