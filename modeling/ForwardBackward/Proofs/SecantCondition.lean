/-
# ForwardBackward.Proofs.SecantCondition -- the direction along the newest change of residual

The inverse Hessian of some pairs sends the change of residual `y` of the newest of them to
its step `s`: the direction for `y` is `-s`.  In the two loops this is a matter of the newest
pair alone (`slotProduct_secant`).  The first loop subtracts all of `y` in its first round, so
zero is what it hands to the older pairs, to the scaling and back, and the last round of the
second loop adds all of `s`.  What the older slots hold does not matter, and neither does
whether their factors are those of what they hold.

* `History.direction_of_newest` -- so it is after any offers, accepted or not and as many as
  there may be, with the last accepted pair, if a slot holds that pair without loss.

Pole: a slot of real numbers keeps the real parts of a complex pair, and the factor of the pair
itself.  Then the direction for `y` is another vector (`History.real_slots_break_secant`).
-/
import ForwardBackward.Proofs.TwoLoop

namespace ForwardBackward

set_option autoImplicit false

open scoped InnerProductSpace

/-- A pair that carries its own factor decides the product with its change of residual. -/
theorem slotProduct_secant {S : Structure} {p : SecantPair Exact} (c : ℝ)
    (older : List (SecantPair Exact))
    (factor : p.rho.toReal * ⟪p.s.point S, p.y.point S⟫_ℝ = 1) :
    slotProduct S c (p :: older) (p.y.point S) = p.s.point S :=
  correction_secant (slotProduct_symmetric c older).linear factor

namespace History

section Newest

variable {x : Vec Exact} {M : Nat} {h₀ h : History Exact} {os : List (Offer Exact)}
  {p : SecantPair Exact}

/-- The first pair that is read is the last accepted one, as it is stored. -/
theorem recent_of_newest (slots : 0 < M) (offered : (empty x M).offerAll os = .ok h)
    (newest : (accepted os).getLast? = some p) :
    ∃ held older, h.recent = held :: older ∧ p.StoredAs x.spec held := by
  obtain ⟨before, last⟩ := List.getLast?_eq_some_iff.mp newest
  have recent := recent_stored offered
  obtain ⟨n, rfl⟩ := Nat.exists_eq_add_of_le' slots
  rw [last, List.reverse_append, List.reverse_singleton, List.singleton_append,
    List.take_succ_cons, List.forall₂_cons_left_iff] at recent
  obtain ⟨held, older, stored, _, same⟩ := recent
  exact ⟨held, older, same, stored⟩

/-- Offered finite vectors of its structure, a ring with slots answers, and asked for a direction
along the change of residual of the last accepted pair it answers minus the step of that pair.
The pair has to be stored without loss; the other offers need not. -/
theorem direction_of_newest (begun : ofCapacity x (.whole M) = .ok h₀) (slots : 0 < M)
    (inexact : x.spec.Inexact) (fits : ∀ o ∈ os, o.Fits x.spec) :
    ∃ h, h₀.offerAll os = .ok h ∧ ∀ p, (accepted os).getLast? = some p →
      p.s.Suits x.spec → p.y.Suits x.spec →
      ∃ d, h.direction p.y = .ok d ∧ d.Fits x.spec ∧ d.point x.spec = -p.s.point x.spec := by
  obtain rfl := ofCapacity_accepts begun
  obtain ⟨h, offered⟩ := empty_answers x M fun o inside =>
    answered_of_fits inexact (fits o inside)
  refine ⟨h, offered, fun p newest hs hy => ?_⟩
  obtain ⟨held, older, recent, stored⟩ := recent_of_newest slots offered newest
  obtain ⟨o, inside, pair⟩ := List.mem_filterMap.mp (List.mem_of_getLast? newest)
  obtain ⟨_, _, positive, rho⟩ := accepted_pair (fits o inside) pair
  have keeps : (Vec.zeros x.spec : Vec Exact).Keeps x.spec := Vec.zeros_keeps x.spec
  have step : held.s.point x.spec = p.s.point x.spec := hs.fill_point keeps inexact stored.s
  have change : held.y.point x.spec = p.y.point x.spec := hy.fill_point keeps inexact stored.y
  have nonzero : held.y.point x.spec ≠ 0 := by
    intro zero
    rw [← change, zero, inner_zero_right] at positive
    exact lt_irrefl _ positive
  have factor : held.rho.toReal * ⟪held.s.point x.spec, held.y.point x.spec⟫_ℝ = 1 := by
    rw [stored.rho, rho, step, change, Exact.toReal_real]
    exact one_div_mul_cancel positive.ne'
  obtain ⟨d, asked, hd, point⟩ :=
    direction_point recent (recent_curved inexact fits offered) nonzero hy.fits
  rw [recent, ← change, slotProduct_secant _ older factor, step] at point
  exact ⟨d, asked, hd, point⟩

end Newest

/-- A ring of two slots for complex numbers, and both are filled. -/
theorem unit_direction_of_newest : ∃ h : History Exact, ∃ p : SecantPair Exact, ∃ d : Vec Exact,
    ofCapacity (complexSingle 0) (.whole 2) = .ok (empty (complexSingle 0) 2) ∧
      (empty (complexSingle 0) 2).offerAll curvedOffers = .ok h ∧ h.size = 2 ∧
      (accepted curvedOffers).getLast? = some p ∧
      p.s = complexSingle 1 ∧ p.y = complexSingle ⟨1, 1⟩ ∧
      h.direction p.y = .ok d ∧
      d.point (oneOf (.complex .double)) = -p.s.point (oneOf (.complex .double)) := by
  have begun : ofCapacity (complexSingle 0) (.whole 2) = .ok (empty (complexSingle 0) 2) := rfl
  have newest : (accepted curvedOffers).getLast? =
      some ⟨complexSingle 1, complexSingle ⟨1, 1⟩, .real (1 / 1)⟩ := by
    rw [accepted_curvedOffers]
    rfl
  obtain ⟨h, offered, secant⟩ := direction_of_newest begun Nat.two_pos (oneOf_inexact (.inr rfl))
    fun o inside => (curvedOffers_suits o inside).fits
  obtain ⟨h', offered', size⟩ := curvedOffers_fill
  obtain rfl : h = h' := Except.ok.inj (offered.symm.trans offered')
  obtain ⟨d, asked, _, point⟩ :=
    secant _ newest (complexSingle_suits 1) (complexSingle_suits ⟨1, 1⟩)
  exact ⟨h, _, d, begun, offered, size, newest, rfl, rfl, asked, point⟩

/-- In the place of real numbers the last accepted pair loses its imaginary part, and the direction
along its change of residual is not minus its step. -/
theorem real_slots_break_secant : ∃ h : History Exact, ∃ o : Offer Exact, ∃ p : SecantPair Exact,
    ∃ d : Vec Exact, ofCapacity (single (0 : Exact)) (.whole 1) = .ok (empty (single (0 : Exact)) 1) ∧
      (empty (single (0 : Exact)) 1).offerAll [o] = .ok h ∧
      o.Fits (oneOf (.real .double)) ∧ (accepted [o]).getLast? = some p ∧
      h.direction p.y = .ok d ∧
      d.point (oneOf (.real .double)) ≠ -p.s.point (oneOf (.real .double)) := by
  obtain ⟨h, offered, recent, curved⟩ := real_recent one_le_norm
  have hy := (complexSingle_denotes (k := .real .double) ⟨1, 2⟩).fits
  have unit := norm_single_one (k := .real .double)
  obtain ⟨d, asked, _, point⟩ := direction_point recent curved single_one_ne_zero hy
  have newest : (accepted [diagonalOffer ⟨1, 2⟩]).getLast? =
      some ⟨complexSingle ⟨1, 2⟩, complexSingle ⟨1, 2⟩, .real (1 / ‖(⟨1, 2⟩ : ℂ)‖ ^ 2)⟩ := by
    rw [accepted_diagonal one_le_norm]
    rfl
  refine ⟨h, _, _, d, rfl, offered, diagonalOffer_fits _, newest, asked, fun secant => ?_⟩
  let e := (single (.real 1)).point (oneOf (.real .double))
  let v := (complexSingle ⟨1, 2⟩).point (oneOf (.real .double))
  have product : (5 : ℝ) • v - (8 / 5 * ⟪e, v⟫_ℝ) • e = v := by
    rw [point, neg_inj, recent] at secant
    refine Eq.trans ?_ ((correction_of_unit unit _ _ v).symm.trans secant)
    simp only [slotScaling, square_norm, unit, Exact.toReal_real]
    module
  -- only the part along the real numbers could be the same, and that is not five times itself
  have along : ⟪e, v⟫_ℝ = 0 := by
    have inner := congrArg (fun u => ⟪e, u⟫_ℝ) product
    simp only [inner_sub_right, inner_smul_right] at inner
    rw [real_inner_self_eq_norm_sq, unit] at inner
    linarith
  have zero : v = 0 := by
    rw [along, mul_zero, zero_smul, sub_zero] at product
    have four : (4 : ℝ) • v = 0 := by
      calc (4 : ℝ) • v = (5 : ℝ) • v - v := by module
        _ = 0 := by rw [product, sub_self]
    exact (smul_eq_zero.mp four).resolve_left (by norm_num)
  have large : 1 ≤ ‖v‖ := by
    rw [norm_point_of_denotes (complexSingle_denotes _)]
    exact one_le_norm
  rw [zero, norm_zero] at large
  exact absurd large (by norm_num)

end History

end ForwardBackward
