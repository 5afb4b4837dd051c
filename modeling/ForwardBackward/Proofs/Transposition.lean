/-
# ForwardBackward.Proofs.Transposition -- the transpose of a transform is its transpose

The values of a steady formed transform and of its transpose have one pairing on either
side (`Formed.transposes`).  The induction is on the transform, but the proof of each
case follows the evaluation: a sum and a composition with a diagonal multiply by it, a
sum with a band multiplies by that, and only what is left is put together from the
values of the parts.  A part with a diagonal has one in its transpose too, so both
sides are evaluated in the same way (`Formed.no_diagonal`, `Formed.no_band`).
-/
import ForwardBackward.Proofs.Diagonals

namespace ForwardBackward

set_option autoImplicit false

namespace Transform

variable {R : Type} [Scalar R]

/-! ## Values -/

section Values

variable {p q : Transform R}

theorem apply_matrix {rows columns : Nat} {m : NDArray R} {fits : m.shape = [rows, columns]}
    (large : ¬(rows = 1 ∧ columns = 1)) : (matrix rows columns m fits).apply =
      (fun x => do pure (.leaf (← m.matmul (← x.theArray)))) := by
  funext x
  unfold apply
  split <;> simp_all

theorem apply_compose_some {d : Vec R} (found : (compose p q).diagonal? = some d) :
    (compose p q).apply = d.times := by
  funext x
  rw [apply, found]

theorem apply_compose_none (noDiagonal : (compose p q).diagonal? = none) :
    (compose p q).apply = (fun x => do p.apply (← q.apply x)) := by
  funext x
  rw [apply, noDiagonal]

theorem apply_sum_diagonal {d : Vec R} (found : (sum p q).diagonal? = some d) :
    (sum p q).apply = d.times := by
  funext x
  rw [apply, found]

theorem apply_sum_band {b : Band R} (noDiagonal : (sum p q).diagonal? = none)
    (found : (sum p q).band? = some b) :
    (sum p q).apply = (fun x => do pure (.leaf (← b.mul (← x.theArray)))) := by
  funext x
  rw [apply, noDiagonal, found]

theorem apply_sum_none (noDiagonal : (sum p q).diagonal? = none)
    (noBand : (sum p q).band? = none) :
    (sum p q).apply = (fun x => do Vec.plus (← p.apply x) (← q.apply x)) := by
  funext x
  rw [apply, noDiagonal, noBand]

end Values

section Multiples

variable {s r : Structure} {p : Transform Exact} {g : Vec Exact → Except Fault (Vec Exact)}
  {x : Vec Exact}

theorem apply_multiple {c : Exact} (part : Transposes s r p.apply g) (hx : x.Inhabits s) :
    (multiple c p).apply x = (do pure (Vec.scale c (← p.apply x))) := by
  obtain ⟨z, made, hz⟩ := part.forth hx
  rw [apply, made]
  simp only [bind, Except.bind, hz.asArrays]

theorem apply_complexMultiple {c : Cartesian Exact} (part : Transposes s r p.apply g)
    (hx : x.Inhabits s) :
    (complexMultiple c p).apply x = (do pure (Vec.scaleComplex c (← p.apply x))) := by
  obtain ⟨z, made, hz⟩ := part.forth hx
  rw [apply, made]
  simp only [bind, Except.bind, hz.asArrays]

end Multiples

/-- What a transform multiplies by and what its transpose multiplies by. -/
theorem Formed.times_transposes {t : Transform Exact} {d : Vec Exact} (formed : t.Formed)
    (wide : t.Wide) (found : t.diagonal? = some d) :
    ∃ d', t.transpose.diagonal? = some d' ∧ Transposes t.domain t.codomain d.times d'.times := by
  obtain ⟨same, square⟩ := formed.diagonals
  rw [square (found ▸ rfl)]
  rw [found] at same
  obtain ⟨d', found', numbers⟩ := same.exists_some
  have within' := formed.transpose.diagonal_within wide.transpose found'
  rw [domain_transpose, square (found ▸ rfl)] at within'
  exact ⟨d', found', .times (formed.diagonal_within wide found) within' numbers⟩

/-- A transform with a band, and the transpose with the band of the transpose. -/
theorem Formed.mul_transposes {t : Transform Exact} {b : Band Exact} (formed : t.Formed)
    (wide : t.Wide) (noDiagonal : t.diagonal? = none) (found : t.band? = some b) :
    ∃ b', t.transpose.band? = some b' ∧ Transposes t.domain t.codomain
      (fun x => do pure (.leaf (← b.mul (← x.theArray))))
      (fun y => do pure (.leaf (← b'.mul (← y.theArray)))) := by
  rcases formed.row_of_band (found ▸ rfl) with some | ⟨n, p, domain, row⟩
  · rw [noDiagonal] at some
    cases some
  · obtain ⟨same, square⟩ := formed.bands domain row
    have codomain : t.codomain = .leaf p := (square (found ▸ rfl)).trans domain
    have within := formed.band_within wide domain found
    rw [domain, codomain]
    rw [found] at same
    obtain ⟨_, _, _, b', found', here, there⟩ := same.exists_some
    have within' := formed.transpose.band_within wide.transpose
      ((domain_transpose t).trans codomain) found'
    exact ⟨b', found', Band.transposes here there within.kind within'.kind row⟩

theorem Formed.no_diagonal {t : Transform Exact} (formed : t.Formed)
    (noDiagonal : t.diagonal? = none) : t.transpose.diagonal? = none := by
  have same := formed.diagonals.1
  rw [noDiagonal] at same
  exact same.eq_none

theorem Formed.no_band {t : Transform Exact} (formed : t.Formed)
    (noDiagonal : t.diagonal? = none) (noBand : t.band? = none) : t.transpose.band? = none := by
  cases found : t.transpose.band? with
  | none => rfl
  | some b =>
      rcases formed.transpose.row_of_band (found ▸ rfl) with some | ⟨n, p, domain, row⟩
      · rw [formed.no_diagonal noDiagonal] at some
        cases some
      · have square := (formed.transpose.bands domain row).2 (found ▸ rfl)
        rw [codomain_transpose, domain] at square
        have same := (formed.bands square row).1
        rw [noBand] at same
        exact found.symm.trans same.eq_none

/-- The values of a formed transform and of its transpose have one pairing on either side. -/
theorem Formed.transposes {t : Transform Exact} (formed : t.Formed) (steady : t.Steady) :
    Transposes t.domain t.codomain t.apply t.transpose.apply := by
  induction formed with
  | @matrix rows columns m fits solid =>
      by_cases one : rows = 1 ∧ columns = 1
      · obtain ⟨rfl, rfl⟩ := one
        obtain ⟨d', found, transposes⟩ :=
          (Formed.matrix solid : (Transform.matrix 1 1 m fits).Formed).times_transposes trivial rfl
        cases found
        exact transposes
      · rw [apply_matrix one, Transform.transpose, apply_matrix fun other => one ⟨other.2, other.1⟩]
        exact NDArray.matmul_transposes solid fits
  | identity firm => exact .identity firm
  | diagonal solid => exact .times (within_spec solid) (within_spec solid) rfl
  | @tridiagonal n d lower upper fits solid solidL solidU =>
      obtain ⟨ds, ls, us, here, there⟩ := solid.band solidL solidU fits
      have within := Kind.within_firm solid.notBare solid.inexact
      exact Band.transposes here there within within fits.1
  | function sound => exact sound.transposes
  | @compose p q formedP formedQ fits hp hq =>
      have formed : (Transform.compose p q).Formed := .compose formedP formedQ fits
      obtain ⟨steadyP, steadyQ, wide⟩ := steady
      -- either one diagonal stands for the composition or the parts are applied in turn
      cases found : (Transform.compose p q).diagonal? with
      | some d =>
          obtain ⟨d', found', transposes⟩ := formed.times_transposes (wide (found ▸ rfl)) found
          rw [Transform.transpose] at found' ⊢
          rw [apply_compose_some found, apply_compose_some found']
          exact transposes
      | none =>
          have noDiagonal := formed.no_diagonal found
          rw [Transform.transpose] at noDiagonal ⊢
          rw [apply_compose_none found, apply_compose_none noDiagonal]
          exact (hq steadyQ).compose (fits ▸ hp steadyP)
  | @sum p q formedP formedQ fits fits' hp hq =>
      have formed : (Transform.sum p q).Formed := .sum formedP formedQ fits fits'
      obtain ⟨steadyP, steadyQ, wide⟩ := steady
      cases found : (Transform.sum p q).diagonal? with
      | some d =>
          obtain ⟨d', found', transposes⟩ :=
            formed.times_transposes (wide (.inl (found ▸ rfl))) found
          rw [Transform.transpose] at found' ⊢
          rw [apply_sum_diagonal found, apply_sum_diagonal found']
          exact transposes
      | none =>
          have noDiagonal := formed.no_diagonal found
          cases band : (Transform.sum p q).band? with
          | some b =>
              obtain ⟨b', band', transposes⟩ :=
                formed.mul_transposes (wide (.inr (band ▸ rfl))) found band
              rw [Transform.transpose] at noDiagonal band' ⊢
              rw [apply_sum_band found band, apply_sum_band noDiagonal band']
              exact transposes
          | none =>
              have noBand := formed.no_band found band
              rw [Transform.transpose] at noDiagonal noBand ⊢
              rw [apply_sum_none found band, apply_sum_none noDiagonal noBand]
              have other := hq steadyQ
              rw [← fits, ← fits'] at other
              exact (hp steadyP).plus other
  | negative _ hp => exact (hp steady).scaled Vec.neg (-1) fun _ hx => hx.neg
  | @multiple p c _ hp =>
      have part := hp steady
      exact (part.scaled (Vec.scale (.real c)) c fun _ hx => hx.scale c).congr
        (apply_multiple part) (apply_multiple part.symm)
  | @complexMultiple p c complex complex' _ hp =>
      have part := hp steady
      refine (part.scaled (Vec.scaleComplex (.ofComplex c)) c ?_).congr
        (apply_complexMultiple part) (apply_complexMultiple part.symm)
      rintro r x (rfl | rfl) hx
      · exact hx.scaleComplex c complex
      · exact hx.scaleComplex c complex'

end Transform

end ForwardBackward
