/-
# ForwardBackward.Proofs.TwoLoop -- the two loops multiply by an inverse Hessian

In exact arithmetic the two loops over the filled slots compute a product with the
inverse Hessian of the pairs in them, each corrected with the factor beside it
(`slotProduct`, `twoLoop_point`), and the direction is minus this product
(`direction_point`).  The scaling between the loops divides by `ρ ‖y‖²` of the
newest pair; if that `y` vanishes, the division is refused
(`direction_divides_by_zero`).

Where the slots hold the accepted pairs, the factors are those of the pairs and
the product is the one of `inverseHessian`: `direction_eq_inverseHessian`.  All
stored factors are positive, so every direction goes down: `direction_descends`.
-/
import ForwardBackward.Proofs.InverseHessian
import ForwardBackward.Proofs.Reached

namespace ForwardBackward

set_option autoImplicit false

open scoped InnerProductSpace

variable {S : Structure}

/-! ## The product that the loops compute -/

/-- The product of a point with the inverse Hessian of the pairs in some slots, the newest
first, each with the factor in the slot. -/
noncomputable def slotProduct (S : Structure) (c : ℝ) : List (SecantPair Exact) → S.Space → S.Space
  | [], v => c • v
  | p :: older, v =>
      correction p.rho.toReal (p.s.point S) (p.y.point S) (slotProduct S c older) v

theorem slotProduct_symmetric (c : ℝ) (ps : List (SecantPair Exact)) :
    Symmetric (slotProduct S c ps) := by
  induction ps with
  | nil => exact symmetric_smul c
  | cons p older ih => exact ih.correction

theorem slotProduct_definite {c : ℝ} (positive : 0 < c) {ps : List (SecantPair Exact)}
    (curved : ∀ p ∈ ps, p.Curved S) : Definite (slotProduct S c ps) := by
  induction ps with
  | nil => exact definite_smul positive
  | cons p older ih =>
      have rest := ih fun p inside => curved p (List.mem_cons_of_mem _ inside)
      exact rest.correction (curved p List.mem_cons_self).positive

/-- With the factors of the pairs themselves it is the inverse Hessian of the pairs. -/
theorem slotProduct_eq (c : ℝ) {ps : List (SecantPair Exact)}
    (factors : ∀ p ∈ ps, p.rho = .real (1 / ⟪p.s.point S, p.y.point S⟫_ℝ)) :
    slotProduct S c ps = inverseHessian c (ps.map (SecantPair.points S)) := by
  induction ps with
  | nil => rfl
  | cons p older ih =>
      have rest := ih fun p inside => factors p (List.mem_cons_of_mem _ inside)
      funext v
      rw [slotProduct, rest, factors p List.mem_cons_self]
      rfl

namespace History

variable {c : ℝ} {newest p : SecantPair Exact} {ps older : List (SecantPair Exact)}
  {q r : Vec Exact} {start : Vec Exact → Except Fault (Vec Exact)}

theorem twoLoop_point
    (scaled : ∀ q, q.Fits S → ∃ z, start q = .ok z ∧ z.Fits S ∧ z.point S = c • q.point S)
    (each : ∀ p ∈ ps, p.Fits S) (hq : q.Fits S) :
    ∃ z, twoLoop start ps q = .ok z ∧ z.Fits S ∧ z.point S = slotProduct S c ps (q.point S) := by
  induction ps generalizing q with
  | nil => exact scaled q hq
  | cons p older ih =>
      obtain ⟨hs, hy, ρ, factor⟩ := each p List.mem_cons_self
      have rest := fun p inside => each p (List.mem_cons_of_mem _ inside)
      obtain ⟨q', lowered, hq', pointQ⟩ := hq.sub (hy.scale (ρ * ⟪p.s.point S, q.point S⟫_ℝ))
      obtain ⟨w, looped, hw, pointW⟩ := ih rest hq'
      obtain ⟨z, raised, hz, pointZ⟩ := hw.add (hs.scale
        (ρ * ⟪p.s.point S, q.point S⟫_ℝ - ρ * ⟪p.y.point S, w.point S⟫_ℝ))
      refine ⟨z, ?_, hz, ?_⟩
      · simp only [twoLoop, hs.inner_eq hq, factor, bind, Except.bind, Exact.real_mul, lowered,
          looped, hy.inner_eq hw, Exact.real_sub, raised]
      · rw [pointZ, pointW, pointQ, hs.point_scale, hy.point_scale, slotProduct, factor,
          Exact.toReal_real, correction]
        module

/-- What the scaling refuses, the loops refuse. -/
theorem twoLoop_error {e : Fault} (refused : ∀ q, q.Fits S → start q = .error e)
    (each : ∀ p ∈ ps, p.Fits S) (hq : q.Fits S) : twoLoop start ps q = .error e := by
  induction ps generalizing q with
  | nil => exact refused q hq
  | cons p older ih =>
      obtain ⟨hs, hy, ρ, factor⟩ := each p List.mem_cons_self
      have rest := fun p inside => each p (List.mem_cons_of_mem _ inside)
      obtain ⟨q', lowered, hq', _⟩ := hq.sub (hy.scale (ρ * ⟪p.s.point S, q.point S⟫_ℝ))
      simp only [twoLoop, hs.inner_eq hq, factor, bind, Except.bind, Exact.real_mul, lowered,
        ih rest hq']

/-- A newest pair whose change of residual does not vanish sets the scaling. -/
theorem scaling_point (hp : p.Curved S) (nonzero : p.y.point S ≠ 0) (hq : q.Fits S) :
    ∃ z, scaling p q = .ok z ∧ z.Fits S ∧
      z.point S = (1 / (p.rho.toReal * ‖p.y.point S‖ ^ 2)) • q.point S := by
  obtain ⟨⟨_, hy, ρ, factor⟩, positive⟩ := hp
  have divisor : ρ * ‖p.y.point S‖ ^ 2 ≠ 0 := by
    rw [factor, Exact.toReal_real] at positive
    have length : 0 < ‖p.y.point S‖ := norm_pos_iff.mpr nonzero
    positivity
  refine ⟨q.scale (.real (1 / (ρ * ‖p.y.point S‖ ^ 2))), ?_, hq.scale _, ?_⟩
  · simp only [scaling, hy.sqnorm_eq, factor, bind, Except.bind, Exact.one_eq, Exact.real_mul,
      Exact.quotient_real.mpr ⟨divisor, rfl⟩]
    rfl
  · rw [hq.point_scale, factor, Exact.toReal_real]

theorem scaling_divides_by_zero (hp : p.Fits S) (zero : p.y.point S = 0) (q : Vec Exact) :
    scaling p q = .error .divisionByZero := by
  obtain ⟨_, hy, ρ, factor⟩ := hp
  have square : ‖p.y.point S‖ ^ 2 = 0 := by rw [zero, norm_zero]; norm_num
  have equal : Scalar.eq (Exact.real 0) 0 = true := by
    rw [Exact.zero_eq, Exact.eq_real]
  simp only [scaling, hy.sqnorm_eq, factor, bind, Except.bind, square, Exact.real_mul, mul_zero,
    Scalar.quotient, equal, if_true]

section Direction

variable {h : History Exact}

/-- The scaling that goes with a newest slot. -/
noncomputable def slotScaling (S : Structure) (newest : SecantPair Exact) : ℝ :=
  1 / (newest.rho.toReal * ‖newest.y.point S‖ ^ 2)

theorem slotScaling_pos (curved : newest.Curved S) (nonzero : newest.y.point S ≠ 0) :
    0 < slotScaling S newest := by
  have factor := curved.positive
  have length : 0 < ‖newest.y.point S‖ := norm_pos_iff.mpr nonzero
  unfold slotScaling
  positivity

theorem slotScaling_eq {s y : S.Space} (points : newest.points S = (s, y))
    (factor : newest.rho = .real (1 / ⟪s, y⟫_ℝ)) : slotScaling S newest = ⟪s, y⟫_ℝ / ‖y‖ ^ 2 := by
  have change : newest.y.point S = y := congrArg Prod.snd points
  rw [slotScaling, factor, change, Exact.toReal_real, one_div_mul_eq_div, one_div_div]

/-- The direction is minus the product with the inverse Hessian of the filled slots. -/
theorem direction_point (recent : h.recent = newest :: older)
    (curved : ∀ p ∈ h.recent, p.Curved S) (nonzero : newest.y.point S ≠ 0) (hr : r.Fits S) :
    ∃ d, h.direction r = .ok d ∧ d.Fits S ∧
      d.point S = -slotProduct S (slotScaling S newest) h.recent (r.point S) := by
  have first := curved newest (by rw [recent]; exact List.mem_cons_self)
  obtain ⟨z, looped, hz, point⟩ := twoLoop_point
    (fun q hq => scaling_point first nonzero hq) (fun p inside => (curved p inside).toFits) hr
  have negated : (z.scale (-1)).Fits S := by
    rw [Exact.one_eq, Exact.neg_real]
    exact hz.scale _
  rw [recent] at looped
  refine ⟨z.scale (-1), ?_, negated, ?_⟩
  · rw [direction_eq, recent]
    simp only [directionAlong, hr.isFinite_eq, bind, Except.bind, if_true, looped,
      negated.allFinite]
    rfl
  · rw [Exact.one_eq, Exact.neg_real, hz.point_scale, neg_one_smul, point]
    rfl

/-- Where the newest change of residual vanished as it was stored, there is no direction. -/
theorem direction_divides_by_zero (recent : h.recent = newest :: older)
    (curved : ∀ p ∈ h.recent, p.Curved S) (zero : newest.y.point S = 0) (hr : r.Fits S) :
    h.direction r = .error .divisionByZero := by
  have fits : ∀ p ∈ newest :: older, p.Fits S := by
    intro p inside
    exact (curved p (by rwa [recent])).toFits
  have looped := twoLoop_error
    (fun q _ => scaling_divides_by_zero (fits newest List.mem_cons_self) zero q) fits hr
  rw [direction_eq, recent]
  simp only [directionAlong, hr.isFinite_eq, bind, Except.bind, if_true, looped]

theorem direction_of_no_pairs (recent : h.recent = []) (hr : r.Fits S) :
    ∃ d, h.direction r = .ok d ∧ d.Fits S ∧ d.point S = -r.point S := by
  refine ⟨r.scale (-1), by rw [direction_eq, recent]; rfl, ?_, ?_⟩
  · rw [Exact.one_eq, Exact.neg_real]
    exact hr.scale _
  · rw [Exact.one_eq, Exact.neg_real, hr.point_scale, neg_one_smul]

end Direction

/-! ## A pair of one number -/

section Single

variable {k : Kind} {z : ℂ}

/-- The structure of an array of one number. -/
def oneOf (k : Kind) : Structure := .leaf ⟨[1], k⟩

/-- An array of one complex number. -/
def complexSingle (z : ℂ) : Vec Exact := .leaf ⟨[1], .complex .double [.ofComplex z], rfl⟩

/-- An offer whose step and change of residual are complex numbers. -/
def complexOffer (z w : ℂ) : Offer Exact :=
  ⟨complexSingle z, complexSingle 0, complexSingle w, complexSingle 0⟩

/-- An offer whose step and change of residual are one complex number. -/
def diagonalOffer (z : ℂ) : Offer Exact := complexOffer z z

theorem complexSingle_denotes (z : ℂ) : (complexSingle z).Denotes (oneOf k) [z] :=
  ⟨rfl, LeavesDenote.cons (a := ⟨[1], .complex .double [.ofComplex z], rfl⟩) (p := ⟨[1], k⟩) rfl
    (.complex .double [z]) .nil⟩

theorem single_denotes (a : ℝ) : (single (.real a)).Denotes (oneOf k) [(a : ℂ)] :=
  ⟨rfl, LeavesDenote.cons (a := ⟨[1], .real .double [.real a], rfl⟩) (p := ⟨[1], k⟩) rfl
    (.real .double [a]) .nil⟩

theorem norm_point_of_denotes {x : Vec Exact} (denotes : x.Denotes (oneOf k) [z]) :
    ‖x.point (oneOf k)‖ = ‖z‖ := by
  rw [denotes.point_eq, norm_pointOf denotes.length_eq]
  simp

theorem norm_single_one : ‖(single (.real 1)).point (oneOf k)‖ = 1 := by
  rw [norm_point_of_denotes (single_denotes 1)]
  simp

theorem single_one_ne_zero : (single (.real 1)).point (oneOf k) ≠ 0 := by
  rw [← norm_ne_zero_iff, norm_single_one]
  exact one_ne_zero

theorem square_norm : ‖(⟨1, 2⟩ : ℂ)‖ ^ 2 = 5 := by
  rw [← Complex.normSq_eq_norm_sq, Complex.normSq_mk]
  norm_num

theorem one_le_norm : 1 ≤ ‖(⟨1, 2⟩ : ℂ)‖ := by
  simpa using Complex.abs_re_le_norm ⟨1, 2⟩

theorem complexSingle_suits (z : ℂ) : (complexSingle z).Suits (oneOf (.complex .double)) :=
  ⟨rfl, .cons ⟨rfl, [z], .complex .double [z], .inl rfl⟩ .nil⟩

theorem complexOffer_suits (z w : ℂ) : (complexOffer z w).Suits (oneOf (.complex .double)) :=
  ⟨complexSingle_suits z, complexSingle_suits 0, complexSingle_suits w, complexSingle_suits 0⟩

theorem diagonalOffer_suits (z : ℂ) : (diagonalOffer z).Suits (oneOf (.complex .double)) :=
  complexOffer_suits z z

theorem diagonalOffer_fits (z : ℂ) : (diagonalOffer z).Fits (oneOf k) :=
  ⟨(complexSingle_denotes z).fits, (complexSingle_denotes 0).fits, (complexSingle_denotes z).fits,
    (complexSingle_denotes 0).fits⟩

theorem complexSingle_sub (z w : ℂ) :
    (complexSingle z).sub (complexSingle w) = .ok (complexSingle (z - w)) := by
  have difference := Cartesian.sub_ofComplex .double z w
  rw [← Cartesian.convert_exact .double .double (.ofComplex z),
    ← Cartesian.convert_exact .double .double (.ofComplex w)] at difference
  rw [complexSingle, complexSingle, complexSingle, ← difference]
  rfl

/-- A step and a change of residual of norm one or more that point the same way are accepted. -/
theorem accepts_curved {s y : Vec Exact} {c : ℝ} (hs : s.Fits S) (hy : y.Fits S)
    (large : 1 ≤ ‖s.point S‖) (large' : 1 ≤ ‖y.point S‖)
    (curved : ‖s.point S‖ * ‖y.point S‖ ≤ 2 * c) : accepts s y (.real c) = true := by
  have above : ∀ {a b : ℝ}, b < a → Scalar.le (Exact.real a) (.real b) = false := by
    intro a b less
    rw [Bool.eq_false_iff, ne_eq, Exact.le_real, not_le]
    exact less
  obtain ⟨t, below, tiny⟩ : ∃ t : ℝ, t < 1 ∧ (Scalar.tiny : Exact) = .real t := by
    have power : ∀ n, n ≠ 0 → 1 < Nat.pow 2 n := fun n some => Nat.one_lt_two_pow some
    have many : (1 : ℝ) < ((Nat.pow 2 1022 : ℕ) : ℝ) := Nat.one_lt_cast.mpr (power 1022 (by decide))
    refine ⟨1 / ((Nat.pow 2 1022 : ℕ) : ℝ), (div_lt_one (by linarith)).mpr many, ?_⟩
    rw [Scalar.tiny, Exact.one_eq, Exact.ofInt_eq, Int.cast_natCast,
      Exact.real_div _ _ (by linarith)]
  have flat : (flatness : Exact) = .real (1 / 10 ^ 10) := by
    change Exact.real (((1 : ℕ) : ℝ) / 10 ^ 10) = _
    norm_num
  have lengths : 1 ≤ ‖s.point S‖ * ‖y.point S‖ := one_le_mul_of_one_le_of_one_le large large'
  have steep : 1 / 10 ^ 10 * ‖s.point S‖ * ‖y.point S‖ < c := by
    rw [mul_assoc]
    linarith
  simp only [accepts, hs.norm_eq, hy.norm_eq, hs.allFinite, hy.allFinite, tiny, flat,
    Exact.real_mul, Exact.isFinite_real, above (below.trans_le large),
    above (below.trans_le large'), above steep, Bool.and_self, Bool.or_self, Bool.not_false]

theorem complexOffer_pair {w : ℂ} {c : ℝ} (large : 1 ≤ ‖z‖ ^ 2) (large' : 1 ≤ ‖w‖ ^ 2)
    (product : z.re * w.re + z.im * w.im = c) (curved : ‖z‖ ^ 2 + ‖w‖ ^ 2 ≤ 4 * c) :
    (complexOffer z w).pair? = some ⟨complexSingle z, complexSingle w, .real (1 / c)⟩ := by
  have denotes (u : ℂ) := complexSingle_denotes (k := .real .double) u
  have norm (u : ℂ) : ‖(complexSingle u).point (oneOf (.real .double))‖ = ‖u‖ :=
    norm_point_of_denotes (denotes u)
  have moved (u : ℂ) : (complexSingle u).sub (complexSingle 0) = .ok (complexSingle u) := by
    rw [complexSingle_sub, sub_zero]
  have curvature : (complexSingle z).inner (complexSingle w) = .ok (.real c) := by
    rw [(denotes z).inner_eq (denotes w), ← product]
    simp
  have nonzero : c ≠ 0 := by
    rintro rfl
    linarith
  refine Offer.pair?_eq_some.mpr ⟨moved z, moved w, _, curvature, ?_, ?_⟩
  · refine accepts_curved (denotes z).fits (denotes w).fits ?_ ?_ ?_
    · rwa [norm, ← one_le_sq_iff₀ (norm_nonneg z)]
    · rwa [norm, ← one_le_sq_iff₀ (norm_nonneg w)]
    · have mean := two_mul_le_add_sq ‖z‖ ‖w‖
      rw [norm, norm]
      linarith
  · rw [Exact.one_eq, Exact.real_div _ _ nonzero]

theorem diagonalOffer_pair (large : 1 ≤ ‖z‖) : (diagonalOffer z).pair? =
    some ⟨complexSingle z, complexSingle z, .real (1 / ‖z‖ ^ 2)⟩ := by
  have square : 1 ≤ ‖z‖ ^ 2 := one_le_pow₀ large
  refine complexOffer_pair square square ?_ (by linarith)
  rw [Complex.sq_norm, Complex.normSq_apply]

theorem accepted_diagonal (large : 1 ≤ ‖z‖) :
    accepted [diagonalOffer z] = [⟨complexSingle z, complexSingle z, .real (1 / ‖z‖ ^ 2)⟩] := by
  rw [accepted, List.filterMap_cons_some (diagonalOffer_pair large), List.filterMap_nil]

theorem fill_single (z : ℂ) :
    fill (Vec.zeros (oneOf (.real .double))) (complexSingle z) = .ok (single (.real z.re)) := rfl

theorem oneOf_inexact (inexact : k = .real .double ∨ k = .complex .double) :
    (oneOf k).Inexact := by
  intro p inside w
  obtain rfl := List.mem_singleton.mp inside
  rcases inexact with rfl | rfl <;> simp

/-- Two offers whose steps have different directions, and each change of residual has another one
than its step. -/
def curvedOffers : List (Offer Exact) := [complexOffer ⟨1, 2⟩ ⟨2, 1⟩, complexOffer 1 ⟨1, 1⟩]

theorem curvedOffers_suits : ∀ o ∈ curvedOffers, o.Suits (oneOf (.complex .double)) := by
  intro o inside
  simp only [curvedOffers, List.mem_cons, List.not_mem_nil, or_false] at inside
  rcases inside with rfl | rfl <;> exact complexOffer_suits _ _

theorem accepted_curvedOffers : accepted curvedOffers =
    [⟨complexSingle ⟨1, 2⟩, complexSingle ⟨2, 1⟩, .real (1 / 4)⟩,
      ⟨complexSingle 1, complexSingle ⟨1, 1⟩, .real (1 / 1)⟩] := by
  have first : (complexOffer ⟨1, 2⟩ ⟨2, 1⟩).pair? = _ := complexOffer_pair (c := 4)
    (by norm_num [Complex.sq_norm]) (by norm_num [Complex.sq_norm]) (by norm_num)
    (by norm_num [Complex.sq_norm])
  have second : (complexOffer 1 ⟨1, 1⟩).pair? = _ := complexOffer_pair (c := 1)
    (by norm_num [Complex.sq_norm]) (by norm_num [Complex.sq_norm]) (by norm_num)
    (by norm_num [Complex.sq_norm])
  rw [accepted, curvedOffers, List.filterMap_cons_some first, List.filterMap_cons_some second,
    List.filterMap_nil]

/-- Two slots hold both pairs. -/
theorem curvedOffers_fill : ∃ h,
    (empty (complexSingle 0) 2).offerAll curvedOffers = .ok h ∧ h.size = 2 := by
  obtain ⟨h, offered⟩ := empty_answers (complexSingle 0) 2 fun o inside =>
    answered_of_fits (oneOf_inexact (.inr rfl)) (curvedOffers_suits o inside).fits
  refine ⟨h, offered, ?_⟩
  have length := (recent_stored offered).length_eq
  rw [accepted_curvedOffers] at length
  exact (length_recent offered).symm.trans length.symm

/-- A ring of real numbers keeps the real part of a complex one. -/
theorem recent_of_diagonal {h : History Exact} {os : List (Offer Exact)}
    (pairs : accepted os = [⟨complexSingle z, complexSingle z, .real (1 / ‖z‖ ^ 2)⟩])
    (offered : (empty (single (0 : Exact)) 1).offerAll os = .ok h) :
    h.recent = [⟨single (.real z.re), single (.real z.re), .real (1 / ‖z‖ ^ 2)⟩] := by
  have recent := recent_stored offered
  rw [pairs, List.reverse_singleton, List.take_succ_cons, List.take_nil,
    List.forall₂_cons_left_iff] at recent
  obtain ⟨⟨s, y, rho⟩, rest, stored, none, recent⟩ := recent
  obtain rfl := List.forall₂_nil_left_iff.mp none
  obtain rfl : s = single (.real z.re) := Except.ok.inj (stored.s.symm.trans (fill_single z))
  obtain rfl : y = single (.real z.re) := Except.ok.inj (stored.y.symm.trans (fill_single z))
  obtain rfl : rho = .real (1 / ‖z‖ ^ 2) := stored.rho
  exact recent

/-- Where the pair that it keeps is offered alone, it is curved. -/
theorem real_recent (large : 1 ≤ ‖z‖) : ∃ h,
    (empty (single (0 : Exact)) 1).offerAll [diagonalOffer z] = .ok h ∧
      h.recent = [⟨single (.real z.re), single (.real z.re), .real (1 / ‖z‖ ^ 2)⟩] ∧
      ∀ p ∈ h.recent, p.Curved (oneOf (.real .double)) := by
  have fits : ∀ o ∈ [diagonalOffer z], o.Fits (oneOf (.real .double)) := by
    intro o inside
    obtain rfl := List.mem_singleton.mp inside
    exact diagonalOffer_fits z
  obtain ⟨h, offered⟩ := empty_answers (single (0 : Exact)) 1 fun o inside =>
    answered_of_fits (oneOf_inexact (.inl rfl)) (fits o inside)
  exact ⟨h, offered, recent_of_diagonal (accepted_diagonal large) offered,
    recent_curved (x := single (0 : Exact)) (oneOf_inexact (.inl rfl)) fits offered⟩

end Single

/-! ## Histories that are reached -/

section Reached

variable {x : Vec Exact} {M : Nat} {h₀ h : History Exact} {os : List (Offer Exact)}

/-- The last accepted pairs as points, the newest first. -/
noncomputable def lastPairs (S : Structure) (M : Nat) (os : List (Offer Exact)) :
    List (S.Space × S.Space) :=
  ((accepted os).reverse.take M).map (SecantPair.points S)

/-- Where the slots hold the accepted pairs, the factors are those of the pairs. -/
theorem recent_factor (fits : ∀ o ∈ os, o.Fits x.spec)
    (offered : (empty x M).offerAll os = .ok h)
    (held : h.recent.map (SecantPair.points x.spec) = lastPairs x.spec M os) :
    ∀ p ∈ h.recent, p.rho = .real (1 / ⟪p.s.point x.spec, p.y.point x.spec⟫_ℝ) := by
  have points : List.Forall₂ (fun raw p => p.points x.spec = SecantPair.points x.spec raw)
      ((accepted os).reverse.take M) h.recent := by
    rw [eq_comm, lastPairs, ← List.forall₂_eq_eq_eq, List.forall₂_map_left_iff,
      List.forall₂_map_right_iff] at held
    exact held.imp fun _ _ same => same.symm
  have each := points.mp (fun _ _ same related => And.intro same related)
    (recent_offered offered)
  intro p inside
  obtain ⟨raw, _, same, ⟨o, member, pair⟩, stored⟩ := exists_of_mem_right each inside
  obtain ⟨_, _, _, rho⟩ := accepted_pair (fits o member) pair
  have s := congrArg Prod.fst same
  have y := congrArg Prod.snd same
  simp only [SecantPair.points] at s y
  rw [stored.rho, rho, s, y]

/-- What is stored without loss has a change of residual that does not vanish. -/
theorem change_ne_zero (inexact : x.spec.Inexact) (fits : ∀ o ∈ os, o.Fits x.spec)
    (offered : (empty x M).offerAll os = .ok h)
    (held : h.recent.map (SecantPair.points x.spec) = lastPairs x.spec M os) :
    ∀ p ∈ h.recent, p.y.point x.spec ≠ 0 := by
  intro p inside zero
  have factor := recent_factor fits offered held p inside
  have positive := (recent_curved inexact fits offered p inside).positive
  rw [factor, Exact.toReal_real, zero, inner_zero_right, div_zero] at positive
  exact lt_irrefl _ positive

/-- For a history that holds the pairs it accepted last, the direction for a vector is minus
its product with the inverse Hessian of these pairs, a symmetric linear map.  A history that
is offered no imaginary parts in the place of real numbers holds them. -/
theorem direction_eq_inverseHessian (begun : ofCapacity x (.whole M) = .ok h₀)
    (inexact : x.spec.Inexact) (fits : ∀ o ∈ os, o.Fits x.spec)
    (offered : h₀.offerAll os = .ok h) (filled : 0 < h.size) :
    ((∀ o ∈ os, o.Suits x.spec) →
      h.recent.map (SecantPair.points x.spec) = lastPairs x.spec M os) ∧
    (h.recent.map (SecantPair.points x.spec) = lastPairs x.spec M os →
      (∀ r, r.Fits x.spec → ∃ d, h.direction r = .ok d ∧ d.Fits x.spec ∧
        d.point x.spec = -inverseHessian (scalingOf (lastPairs x.spec M os))
          (lastPairs x.spec M os) (r.point x.spec)) ∧
      Symmetric (inverseHessian (scalingOf (lastPairs x.spec M os)) (lastPairs x.spec M os))) := by
  obtain rfl := ofCapacity_accepts begun
  refine ⟨fun suits => recent_points inexact suits offered, fun held => ⟨?_, ?_⟩⟩
  · have curved := recent_curved inexact fits offered
    have factors := recent_factor fits offered held
    cases recent : h.recent with
    | nil =>
        have length := length_recent offered
        rw [recent, List.length_nil] at length
        omega
    | cons newest older =>
        have inside : newest ∈ h.recent := by rw [recent]; exact List.mem_cons_self
        have nonzero := change_ne_zero inexact fits offered held newest inside
        have scaling : slotScaling x.spec newest = scalingOf (lastPairs x.spec M os) := by
          rw [← held, recent, List.map_cons]
          exact slotScaling_eq rfl (factors newest inside)
        intro r hr
        obtain ⟨d, asked, hd, point⟩ := direction_point recent curved nonzero hr
        rw [slotProduct_eq _ factors, scaling, held] at point
        exact ⟨d, asked, hd, point⟩
  · exact inverseHessian_symmetric _ _

/-- Two pairs in a ring of two slots for complex numbers. -/
theorem unit_direction_eq : ∃ h : History Exact,
    ofCapacity (complexSingle 0) (.whole 2) = .ok (empty (complexSingle 0) 2) ∧
      (empty (complexSingle 0) 2).offerAll curvedOffers = .ok h ∧ h.size = 2 ∧
      (lastPairs (oneOf (.complex .double)) 2 curvedOffers).length = 2 ∧
      ∀ r, r.Fits (oneOf (.complex .double)) → ∃ d, h.direction r = .ok d ∧
        d.point (oneOf (.complex .double)) =
          -inverseHessian (scalingOf (lastPairs (oneOf (.complex .double)) 2 curvedOffers))
            (lastPairs (oneOf (.complex .double)) 2 curvedOffers)
            (r.point (oneOf (.complex .double))) := by
  have fits := fun o inside => (curvedOffers_suits o inside).fits
  have begun : ofCapacity (complexSingle 0) (.whole 2) = .ok (empty (complexSingle 0) 2) := rfl
  have inexact := oneOf_inexact (k := .complex .double) (.inr rfl)
  obtain ⟨h, offered, size⟩ := curvedOffers_fill
  obtain ⟨holds, product⟩ :=
    direction_eq_inverseHessian begun inexact fits offered (size ▸ Nat.two_pos)
  refine ⟨h, begun, offered, size, ?_, fun r hr => ?_⟩
  · rw [lastPairs, accepted_curvedOffers]
    rfl
  · obtain ⟨d, asked, _, point⟩ := (product (holds curvedOffers_suits)).1 r hr
    exact ⟨d, asked, point⟩

/-- In the place of real numbers a complex pair is not the pair that is stored: with the step
and the change of residual both `1 + 2 i` in a ring of real numbers, the direction is `17 / 5` times
the one of the pairs, of those accepted as well as of those in the slots. -/
theorem real_slots_change_product : ∃ h : History Exact, ∃ o : Offer Exact, ∃ r d : Vec Exact,
    ofCapacity (single (0 : Exact)) (.whole 1) = .ok (empty (single (0 : Exact)) 1) ∧
      (empty (single (0 : Exact)) 1).offerAll [o] = .ok h ∧ 0 < h.size ∧
      o.Fits (oneOf (.real .double)) ∧ r.Fits (oneOf (.real .double)) ∧
      h.direction r = .ok d ∧
      ∀ pairs, pairs = lastPairs (oneOf (.real .double)) 1 [o] ∨
        pairs = h.recent.map (SecantPair.points (oneOf (.real .double))) →
        d.point (oneOf (.real .double)) ≠
          -inverseHessian (scalingOf pairs) pairs (r.point (oneOf (.real .double))) := by
  obtain ⟨h, offered, recent, curved⟩ := real_recent one_le_norm
  have hr := (single_denotes (k := .real .double) 1).fits
  have unit := norm_single_one (k := .real .double)
  obtain ⟨d, asked, _, point⟩ := direction_point recent curved single_one_ne_zero hr
  have product : d.point (oneOf (.real .double)) =
      -((17 / 5 : ℝ) • (single (.real 1)).point (oneOf (.real .double))) := by
    rw [point, recent]
    refine congrArg Neg.neg ((correction_unit unit _ _).trans ?_)
    simp only [slotScaling, square_norm, unit, Exact.toReal_real]
    norm_num
  have filled : 0 < h.size := by
    rw [← length_recent offered, recent]
    exact Nat.one_pos
  refine ⟨h, _, _, d, rfl, offered, filled, diagonalOffer_fits _, hr, asked, ?_⟩
  have changed : ∀ {v : (oneOf (.real .double)).Space}, v ≠ 0 →
      d.point (oneOf (.real .double)) ≠ -inverseHessian (scalingOf [(v, v)]) [(v, v)]
        ((single (.real 1)).point (oneOf (.real .double))) := by
    intro v some same
    rw [inverseHessian_self some, product, neg_inj] at same
    have length := congrArg norm same
    rw [norm_smul, unit] at length
    norm_num at length
  rintro pairs (rfl | rfl)
  · have some : (complexSingle ⟨1, 2⟩).point (oneOf (.real .double)) ≠ 0 := by
      rw [← norm_pos_iff, norm_point_of_denotes (complexSingle_denotes _)]
      exact one_pos.trans_le one_le_norm
    rw [lastPairs, accepted_diagonal one_le_norm]
    exact changed some
  · rw [recent]
    exact changed single_one_ne_zero

/-- A history that is offered finite vectors of its structure answers, and its factors are
positive.  If the newest change of residual does not vanish as it is stored, every direction
goes down, and the one for zero is zero; if it does, no direction is found.  It does not
vanish where no imaginary parts are offered in the place of real numbers. -/
theorem direction_descends (begun : ofCapacity x (.whole M) = .ok h₀)
    (inexact : x.spec.Inexact) (fits : ∀ o ∈ os, o.Fits x.spec) :
    ∃ h, h₀.offerAll os = .ok h ∧
      (∀ p ∈ h.recent, ∃ ρ, p.rho = .real ρ ∧ 0 < ρ) ∧
      ((∀ o ∈ os, o.Suits x.spec) → ∀ p ∈ h.recent, p.y.point x.spec ≠ 0) ∧
      ((∀ p ∈ h.recent.head?, p.y.point x.spec ≠ 0) →
        ∀ r, r.Fits x.spec → ∃ d, h.direction r = .ok d ∧ d.Fits x.spec ∧
          (r.point x.spec ≠ 0 → ⟪r.point x.spec, d.point x.spec⟫_ℝ < 0) ∧
          (r.point x.spec = 0 → d.point x.spec = 0)) ∧
      ((∃ p ∈ h.recent.head?, p.y.point x.spec = 0) →
        ∀ r, r.Fits x.spec → h.direction r = .error .divisionByZero) := by
  obtain rfl := ofCapacity_accepts begun
  obtain ⟨h, offered⟩ := empty_answers x M fun o inside =>
    answered_of_fits inexact (fits o inside)
  have curved := recent_curved inexact fits offered
  refine ⟨h, offered, ?_, ?_, ?_, ?_⟩
  · intro p inside
    obtain ⟨⟨_, _, ρ, factor⟩, positive⟩ := curved p inside
    rw [factor] at positive
    exact ⟨ρ, factor, positive⟩
  · intro suits p inside
    exact change_ne_zero inexact fits offered (recent_points inexact suits offered) p inside
  · intro nonzero r hr
    cases recent : h.recent with
    | nil =>
        obtain ⟨d, asked, hd, point⟩ := direction_of_no_pairs recent hr
        have product : d.point x.spec = -((1 : ℝ) • r.point x.spec) := by rw [point, one_smul]
        exact ⟨d, asked, hd, (definite_smul one_pos).goes_down (symmetric_smul 1) product⟩
    | cons newest older =>
        rw [recent] at nonzero
        have change := nonzero newest rfl
        have inside : newest ∈ h.recent := by rw [recent]; exact List.mem_cons_self
        have scaling := slotScaling_pos (curved newest inside) change
        obtain ⟨d, asked, hd, point⟩ := direction_point recent curved change hr
        exact ⟨d, asked, hd,
          (slotProduct_definite scaling curved).goes_down (slotProduct_symmetric _ _) point⟩
  · rintro ⟨newest, first, zero⟩ r hr
    obtain ⟨older, recent⟩ := List.head?_eq_some_iff.mp first
    exact direction_divides_by_zero recent curved zero hr

/-- A ring of complex numbers that is offered a pair with positive curvature and one without
any. -/
theorem unit_direction_descends : ∃ os : List (Offer Exact), ∃ h : History Exact,
    os.length = 2 ∧
      ofCapacity (complexSingle 0) (.whole 1) = .ok (empty (complexSingle 0) 1) ∧
      (∀ o ∈ os, o.Suits (oneOf (.complex .double))) ∧
      (empty (complexSingle 0) 1).offerAll os = .ok h ∧
      ∀ r, r.Fits (oneOf (.complex .double)) → ∃ d, h.direction r = .ok d ∧
        (r.point (oneOf (.complex .double)) ≠ 0 → ⟪r.point (oneOf (.complex .double)),
          d.point (oneOf (.complex .double))⟫_ℝ < 0) := by
  have suits : ∀ o ∈ [diagonalOffer ⟨1, 2⟩, diagonalOffer 0],
      o.Suits (oneOf (.complex .double)) := by
    intro o inside
    simp only [List.mem_cons, List.not_mem_nil, or_false] at inside
    rcases inside with rfl | rfl <;> exact diagonalOffer_suits _
  have begun : ofCapacity (complexSingle 0) (.whole 1) = .ok (empty (complexSingle 0) 1) := rfl
  obtain ⟨h, offered, _, kept, down, _⟩ := direction_descends begun (oneOf_inexact (.inr rfl))
    fun o inside => (suits o inside).fits
  refine ⟨_, h, rfl, begun, suits, offered, fun r hr => ?_⟩
  obtain ⟨d, asked, _, below, _⟩ := down
    (fun p first => kept suits p (List.mem_of_mem_head? first)) r hr
  exact ⟨d, asked, below⟩

/-- With the step and the change of residual both `i` in a ring of real numbers, an accepted
pair leaves zeros in its slot, and no direction is found. -/
theorem real_slots_divide_by_zero : ∃ h : History Exact, ∃ o : Offer Exact, ∃ r : Vec Exact,
    ofCapacity (single (0 : Exact)) (.whole 1) = .ok (empty (single (0 : Exact)) 1) ∧
      (empty (single (0 : Exact)) 1).offerAll [o] = .ok h ∧ h.size = 1 ∧
      o.Fits (oneOf (.real .double)) ∧ r.Fits (oneOf (.real .double)) ∧
      r.point (oneOf (.real .double)) ≠ 0 ∧
      (∀ p ∈ h.recent, p.y.point (oneOf (.real .double)) = 0) ∧
      h.direction r = .error .divisionByZero := by
  obtain ⟨h, offered, recent, curved⟩ := real_recent (z := Complex.I) (by simp)
  have hr := (single_denotes (k := .real .double) 1).fits
  have zero : (single (.real Complex.I.re)).point (oneOf (.real .double)) = 0 := by
    rw [← norm_eq_zero, norm_point_of_denotes (single_denotes _)]
    simp
  have size : h.size = 1 := by
    rw [← length_recent offered, recent]
    rfl
  refine ⟨h, _, _, rfl, offered, size, diagonalOffer_fits _, hr, single_one_ne_zero, ?_,
    direction_divides_by_zero recent curved zero hr⟩
  intro p inside
  rw [recent] at inside
  obtain rfl := List.mem_singleton.mp inside
  exact zero

end Reached

end History

end ForwardBackward
