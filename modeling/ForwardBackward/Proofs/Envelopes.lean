/-
# ForwardBackward.Proofs.Envelopes -- the envelope between two values of the objective

A point `x` is evaluated, a forward-backward step of size `γ` leads from it to `xbar`,
and the envelope at `x` is computed from the two.  In exact arithmetic the envelope lies
between two values of the objective `f + g`,

    f(xbar) + g(xbar) + (1 - γ Λ) / (2 γ) ‖r‖² ≤ envelope ≤ f(x) + g(x),

for every size `γ > 0`, also one at which `1 - γ Λ` is negative
(`Regularizer.envelope_between`).  The left side is the quadratic model of `f`
(`Stepped.smooth_add_le`), the right side the step being a minimiser
(`Stepped.value_le`).

The envelope is computed wherever the step is answered, and a step is answered unless
a box is asked for one from complex numbers.  `x` and its gradient decide that: their
combination holds complex numbers only if one of them does (`Vec.ofReals_axpy`).
-/
import ForwardBackward.Proofs.Catalogue
import ForwardBackward.Proofs.Objective

namespace ForwardBackward

set_option autoImplicit false

variable {σ : Type}

/-! ## Real numbers stay real -/

namespace NDArray

variable {a b c : NDArray Exact} {f : Rule Exact}

/-- Arrays of one shape are combined to complex numbers if one of them holds such. -/
theorem isComplex_zipWith (same : a.shape = b.shape) (made : zipWith f a b = .ok c) :
    c.kind.isComplex = (a.kind.isComplex || b.kind.isComplex) := by
  obtain ⟨_, u, v, left, right, entries⟩ := zipWith_same same made
  have kindU : u.kind.isComplex = a.kind.isComplex := by
    rcases left with rfl | rfl
    · rfl
    · exact isComplex_enter
  have kindV : v.kind.isComplex = b.kind.isComplex := by
    rcases right with rfl | rfl
    · rfl
    · exact isComplex_enter
  rw [← kindU, ← kindV, kind, entries, Entries.kind_zipWith, Kind.isComplex_join]
  rfl

theorem isComplex_scale (t : Exact) (a : NDArray Exact) :
    (a.scale t).kind.isComplex = a.kind.isComplex := by
  unfold scale map kind
  dsimp only
  cases a.entries <;> rfl

end NDArray

namespace Vec

variable {S : Structure} {x y z : Vec Exact} {t : Exact}

/-- A vector without complex numbers. -/
def OfReals (x : Vec Exact) : Prop := ∀ a ∈ x.leaves, a.kind.isComplex = false

theorem Fits.shaped (fits : x.Fits S) : x.Shaped S := by
  obtain ⟨us, skeleton, leaves⟩ := fits
  refine ⟨skeleton, ?_⟩
  generalize x.leaves = as at leaves
  generalize S.leaves = ps at leaves
  induction leaves with
  | nil => exact .nil
  | cons shape _ _ ih => exact .cons shape ih

/-- A combination of two vectors holds complex numbers only if one of them does. -/
theorem ofReals_axpy (hx : x.Shaped S) (hy : y.Shaped S) (sum : Vec.axpy t x y = .ok z) :
    z.OfReals ↔ x.OfReals ∧ y.OfReals := by
  have scaled : (x.scale t).Shaped S := hx.map fun _ => rfl
  have kinds : (x.scale t).OfReals ↔ x.OfReals := by
    change (∀ a ∈ x.leaves.map (NDArray.scale t), _) ↔ _
    simp only [List.forall_mem_map, NDArray.isComplex_scale, OfReals]
  have sides : List.Forall₂ (fun a b : NDArray Exact => a.shape = b.shape) (x.scale t).leaves
      y.leaves := forall_of_common scaled.leaves hy.leaves fun _ _ _ ha hb => ha.trans hb.symm
  have made : List.Forall₂ (fun p c => NDArray.add p.1 p.2 = .ok c)
      ((x.scale t).leaves.zip y.leaves) z.leaves :=
    (Tree.forall_of_combineParts_same (scaled.skeleton.trans hy.skeleton.symm)
      (show Tree.combine NDArray.add (x.scale t) y = .ok z from sum)).2
  rw [← kinds]
  constructor
  · intro real
    refine forall_sides_of_zip (f := fun a b c => NDArray.add a b = .ok c) sides
      (fun a b c same made real => ?_) made real
    rw [NDArray.isComplex_zipWith same made, Bool.or_eq_false_iff] at real
    exact real
  · rintro ⟨realX, realY⟩ c inside
    obtain ⟨⟨a, b⟩, pair, made⟩ := exists_of_mem_right made inside
    obtain ⟨left, right⟩ := List.of_mem_zip pair
    rw [NDArray.isComplex_zipWith ((List.forall₂_iff_zip.mp sides).2 pair) made,
      realX a left, realY b right]
    rfl

end Vec

/-- A step takes a combination of two vectors if and only if it takes both of them. -/
theorem Regularizer.takes_axpy {g : Regularizer Exact} {S : Structure} {x y z : Vec Exact}
    {t : Exact} (hx : x.Shaped S) (hy : y.Shaped S) (sum : Vec.axpy t x y = .ok z) :
    g.Takes z ↔ g.Takes x ∧ g.Takes y := by
  cases g with
  | box lower upper => exact Vec.ofReals_axpy hx hy sum
  | _ => exact ⟨fun _ => ⟨trivial, trivial⟩, fun _ => trivial⟩

/-! ## What is computed at a point -/

variable {A : Operator σ Exact} {M : A.Meaning} {g : Regularizer Exact} {Λ γ : ℝ}
  {x ax grad : Vec Exact} {env env' env₁ env₂ : σ}

/-- The image of a point, the smooth term and the gradient there. -/
theorem Operator.Meaning.evaluated (M : A.Meaning) (fits : x.Fits A.domain)
    (applied : A.apply x env = .ok ax env₁) (adjoint : A.applyAdjoint ax env₁ = .ok grad env₂) :
    ∃ square, ax.sqnorm = .ok square ∧ Evaluated M x ax (0.5 * square) grad := by
  obtain ⟨fitsA, image⟩ := M.apply fits applied
  obtain ⟨fitsG, gradient⟩ := M.applyAdjoint fitsA adjoint
  exact ⟨_, fitsA.sqnorm_eq, fits, fitsA, fitsG, image, by rw [Exact.half_eq, Exact.real_mul],
    gradient⟩

/-- A forward-backward step is answered where the regularizer takes the point and the gradient. -/
theorem Regularizer.step_answers {S : Structure} (proper : g.Proper S) (positive : 0 < γ)
    (hx : x.Fits S) (hg : grad.Fits S) (point : g.Takes x) (slope : g.Takes grad) (env : σ) :
    ∃ p, forwardBackwardStep (.ofRegularizer g) x grad (.real γ) env = .ok p env := by
  obtain ⟨v, moved, fits, _⟩ := hg.axpy (-γ) hx
  have takes : g.Takes v := (takes_axpy hg.shaped hx.shaped moved).mpr ⟨slope, point⟩
  obtain ⟨p, G, stepped⟩ := prox_total proper positive fits takes
  rw [← Exact.neg_real] at moved
  exact ⟨(p, G), forwardBackwardStep_returns.mpr ⟨v, moved, lift_returns.mpr ⟨stepped, rfl⟩⟩⟩

/-- The envelope of a step that is answered. -/
theorem Regularizer.step_enveloped {S : Structure} {gxbar : Exact} {xbar : Vec Exact} {f : ℝ}
    (proper : g.Proper S) (positive : 0 < γ) (hx : x.Fits S) (hg : grad.Fits S)
    (stepped : forwardBackwardStep (.ofRegularizer g) x grad (.real γ) env =
      .ok (xbar, gxbar) env') :
    ∃ e, envelope x xbar gxbar (.real f) grad (.real γ) = .ok e ∧ e.value = e.bound + gxbar ∧
      Stepped (Prox.ofRegularizer g : Prox σ Exact) S γ x (.real f) grad xbar gxbar e.r e.residual
        e.bound := by
  obtain ⟨v, moved, answered⟩ := forwardBackwardStep_returns.mp stepped
  rw [Exact.neg_real] at moved
  have stays : (Prox.ofRegularizer g : Prox σ Exact).StaysIn S := proper.staysIn
  obtain ⟨fits, answers⟩ := stays.answers positive hx hg moved answered
  exact answers.enveloped positive hx hg fits

theorem Evaluated.step_answers {fx : Exact} (evaluated : Evaluated M x ax fx grad)
    (proper : g.Proper A.domain) (positive : 0 < γ) (point : g.Takes x) (slope : g.Takes grad)
    (env : σ) :
    ∃ p, forwardBackwardStep (.ofRegularizer g) x grad (.real γ) env = .ok p env :=
  Regularizer.step_answers proper positive evaluated.x_fits evaluated.grad_fits point slope env

theorem Evaluated.step_enveloped {fx gxbar : Exact} {xbar : Vec Exact}
    (evaluated : Evaluated M x ax fx grad) (proper : g.Proper A.domain) (positive : 0 < γ)
    (stepped : forwardBackwardStep (.ofRegularizer g) x grad (.real γ) env =
      .ok (xbar, gxbar) env') :
    ∃ e, envelope x xbar gxbar fx grad (.real γ) = .ok e ∧ e.value = e.bound + gxbar ∧
      Stepped (Prox.ofRegularizer g : Prox σ Exact) A.domain γ x fx grad xbar gxbar e.r e.residual
        e.bound := by
  rw [evaluated.value]
  exact Regularizer.step_enveloped proper positive evaluated.x_fits evaluated.grad_fits stepped

/-- The envelope between two values of the objective, in exact arithmetic.  At a point that the
operator and its adjoint have been applied to, a forward-backward step of any positive size is
answered (by a box, if there are no complex numbers), and to every answer there is an envelope.
It is at most the objective at the point, and at least the objective at the step plus a multiple
of the square of the residual norm, which is not negative for a size up to `1 / Λ`. -/
theorem Regularizer.envelope_between (M : A.Meaning) (smooth : M.Smooth Λ)
    (proper : g.Proper A.domain) (positive : 0 < γ) (fits : x.Fits A.domain)
    (applied : A.apply x env = .ok ax env₁) (adjoint : A.applyAdjoint ax env₁ = .ok grad env₂) :
    ∃ square, ax.sqnorm = .ok square ∧ 0.5 * square = .real (M.smooth (x.point A.domain)) ∧
      (g.Takes x → g.Takes grad → ∀ env : σ, ∃ p,
        forwardBackwardStep (.ofRegularizer g) x grad (.real γ) env = .ok p env) ∧
      ∀ {xbar : Vec Exact} {gxbar : Exact} {env env' : σ},
        forwardBackwardStep (.ofRegularizer g) x grad (.real γ) env = .ok (xbar, gxbar) env' →
        ∃ e E ρ G, envelope x xbar gxbar (0.5 * square) grad (.real γ) = .ok e ∧
          e.value = .real E ∧ e.residual = .real ρ ∧ g.value xbar = .ok (.real G) ∧
          M.smooth (xbar.point A.domain) + G + (1 - γ * Λ) / (2 * γ) * ρ ^ 2 ≤ E ∧
          (g.Sees x → ∃ U, g.value x = .ok U ∧
            Scalar.le (.real E) (U + .real (M.smooth (x.point A.domain))) = true) := by
  obtain ⟨square, squared, evaluated⟩ := M.evaluated fits applied adjoint
  refine ⟨square, squared, evaluated.smooth_eq, evaluated.step_answers proper positive, ?_⟩
  intro xbar gxbar env env' returned
  obtain ⟨e, enveloped, value, stepped⟩ := evaluated.step_enveloped proper positive returned
  obtain ⟨B, model, above⟩ := stepped.smooth_add_le smooth evaluated positive
  have norm := stepped.norm
  rw [evaluated.smooth_eq] at stepped
  obtain ⟨G, regular, valued⟩ :=
    stepped.value_eq proper positive evaluated.x_fits evaluated.grad_fits
  have sum : e.value = .real (B + G) := by rw [value, model, regular, Exact.real_add]
  refine ⟨e, B + G, _, G, enveloped, sum, norm, valued, by linarith, fun sees => ?_⟩
  obtain ⟨U, known⟩ := value_seen proper fits sees
  obtain ⟨E, same, below⟩ := stepped.value_le proper positive evaluated.x_fits
    evaluated.grad_fits sees known
  obtain rfl : B + G = E := Exact.real.inj (sum.symm.trans (value.trans same))
  exact ⟨U, known, below⟩

/-- The envelope of a step towards the smallest sum of moduli, of the size `1 / 2`. -/
theorem Regularizer.plain_envelope_between :
    let g : Regularizer Exact := .l1 (.real 1)
    let x := Plain.start
    let ax := x.scale (.real 1)
    let grad := ax.scale (.real 1)
    g.Proper Plain.pair ∧ (0 : ℝ) < 1 / 2 ∧ x.Fits Plain.pair ∧
      Plain.operator.apply x () = .ok ax () ∧ Plain.operator.applyAdjoint ax () = .ok grad () ∧
      ∃ square, ax.sqnorm = .ok square ∧
        0.5 * square = .real (Plain.meaning.smooth (x.point Plain.pair)) ∧
        ∃ xbar gxbar e E ρ G U,
          forwardBackwardStep (.ofRegularizer g) x grad (.real (1 / 2)) () =
            .ok (xbar, gxbar) () ∧
          envelope x xbar gxbar (0.5 * square) grad (.real (1 / 2)) = .ok e ∧
          e.value = .real E ∧ e.residual = .real ρ ∧ g.value xbar = .ok (.real G) ∧
          Plain.meaning.smooth (xbar.point Plain.pair) + G +
            (1 - 1 / 2 * 1) / (2 * (1 / 2)) * ρ ^ 2 ≤ E ∧
          g.value x = .ok U ∧
          Scalar.le (.real E) (U + .real (Plain.meaning.smooth (x.point Plain.pair))) = true := by
  intro g x ax grad
  have proper : g.Proper Plain.pair := ⟨1, zero_le_one, rfl⟩
  have fits : x.Fits Plain.pair := startingPoint_fits Plain.start_finite Plain.start_accepted
  have applied : Plain.operator.apply x () = .ok ax () := rfl
  have adjoint : Plain.operator.applyAdjoint ax () = .ok grad () := rfl
  obtain ⟨square, squared, value, answers, between⟩ := envelope_between Plain.meaning Plain.smooth
    proper one_half_pos fits applied adjoint
  obtain ⟨⟨xbar, gxbar⟩, stepped⟩ := answers trivial trivial ()
  obtain ⟨e, E, ρ, G, enveloped, sum, norm, valued, above, below⟩ := between stepped
  obtain ⟨U, known, under⟩ := below trivial
  exact ⟨proper, one_half_pos, fits, applied, adjoint, square, squared, value, xbar, gxbar, e, E, ρ,
    G, U, stepped, enveloped, sum, norm, valued, above, known, under⟩

end ForwardBackward
