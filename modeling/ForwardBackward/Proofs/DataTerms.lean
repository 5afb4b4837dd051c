/-
# ForwardBackward.Proofs.DataTerms -- a data term moves the values of an operator

A data term is subtracted from the values of a linear operator.  It may be of whole
numbers or of numbers of the program, and it may be in another precision than the
values: what is subtracted is the same vector all the same (`Vec.Datum.moves`).

So an operator that carries a data term has the linear part and the adjoint of the one
without (`Operator.Meaning.less`), and it answers wherever that one does
(`Operator.Total.less`).
-/
import ForwardBackward.Proofs.Progress
import ForwardBackward.Proofs.Reached

namespace ForwardBackward

set_option autoImplicit false

/-! ## Entries and arrays -/

namespace Entries

variable {a b : Entries Exact} {us : List ℂ}

/-- Whole numbers that meet fractions are read as fractions. -/
theorem Denotes.zipWith_counts (f : Rule Exact) (ha : a.Denotes us) (w : Width) (ns : List ℤ) :
    ∃ q, Entries.zipWith f a (whole w ns) =
      Entries.zipWith f a ((whole w ns).cast (.real q)) := by
  cases ha with
  | real p xs =>
      refine ⟨if p = .bare then w.inexact else p, ?_⟩
      cases p <;> cases w <;>
        simp [Entries.zipWith, kind, Kind.join, Width.inexact, Width.isBare, Precision.join,
          Entries.cast, reals]
  | complex p =>
      refine ⟨p, ?_⟩
      cases p <;>
        simp [Entries.zipWith, kind, Kind.join, Precision.join, Entries.cast, reals, complexes]

/-- Finite numbers, whole or not, are subtracted from fractions one by one. -/
theorem Denotes.sub_finite (ha : a.Denotes us) (finite : b.allFinite = true) :
    (Entries.zipWith .sub a b).Denotes (List.zipWith (· - ·) us b.numbers) := by
  cases b with
  | real p xs =>
      obtain ⟨vs, denotes⟩ := denotes_of_allFinite finite nofun
      rw [denotes.numbers_eq]
      exact ha.zipWith Rule.means_sub denotes
  | complex p zs =>
      obtain ⟨vs, denotes⟩ := denotes_of_allFinite finite nofun
      rw [denotes.numbers_eq]
      exact ha.zipWith Rule.means_sub denotes
  | whole w ns =>
      obtain ⟨q, read⟩ := ha.zipWith_counts .sub w ns
      have fractions : ((whole w ns).cast (.real q) : Entries Exact).Denotes
          (whole w ns : Entries Exact).numbers :=
        .ofReal q (fun n : ℤ => (n : ℝ)) ns (fun _ => rfl) fun n => by simp
      rw [read]
      exact ha.zipWith Rule.means_sub fractions

end Entries

namespace NDArray

variable {p : Spec} {a b c : NDArray Exact} {us : List ℂ}

/-- An array of finite numbers, or one number of the program. -/
structure Datum (b : NDArray Exact) : Prop where
  finite : b.allFinite = true
  bare : b.isBare = true → ∃ n, b = ofBare n

/-- A number of the program that becomes an array is the same number. -/
theorem Datum.enter_numbers (hb : b.Datum) (array : b.asArray = .ok c) :
    c.entries.numbers = b.entries.numbers := by
  obtain rfl := asArray_accepts array
  cases bare : b.isBare with
  | false => rw [(asArray_of_firm bare).1]
  | true =>
      obtain ⟨n, rfl⟩ := hb.bare bare
      cases n with
      | flag f => cases f <;> rfl
      | fraction x =>
          simp [enter, ofBare, ofNumber, isBare, kind, Entries.kind, Kind.isBare, Kind.enter,
            Entries.cast, Entries.reals, Entries.numbers]
      | whole n =>
          have kept : Width.loose.wrap n = n := by
            unfold asArray at array
            split at array
            · next fits =>
                simpa [fitsKind, ofBare, kind, Entries.kind, Kind.enter, Width.enter] using fits
            · cases array
          simp [enter, ofBare, isBare, kind, Entries.kind, Kind.isBare, Width.isBare, Kind.enter,
            Width.enter, Entries.cast, Entries.wholes, Entries.numbers, kept]

/-- A datum is subtracted from an array of its shape. -/
theorem Datum.subtracted (hb : b.Datum) (array : b.asArray = .ok c) (ha : a.entries.Denotes us)
    (same : a.shape = b.shape) :
    ∃ r, a.sub b = .ok r ∧ r.shape = a.shape ∧
      r.entries.Denotes (List.zipWith (· - ·) us b.entries.numbers) := by
  have fractions : a.kind.join b.kind ≠ .whole .flag :=
    Kind.join_inexact ha.kind_ne_whole b.kind .flag
  have entered := asArray_accepts array
  unfold sub
  rw [if_neg fractions]
  unfold zipWith meet
  split
  · refine ⟨zipSame .sub a b same, ?_, rfl, ha.sub_finite hb.finite⟩
    exact dif_pos same
  · have shapes : a.enter.shape = c.shape := by
      rw [entered]
      exact same
    have finite : c.allFinite = true := by
      rw [entered]
      exact enter_allFinite hb.finite
    rw [asArray_of_denotes ha, array, ← hb.enter_numbers array]
    refine ⟨zipSame .sub a.enter c shapes, ?_, rfl, (denotes_enter ha).sub_finite finite⟩
    exact dif_pos shapes

end NDArray

/-! ## Vectors -/

section Leaves

variable {as bs : List (NDArray Exact)} {ps : List Spec} {us : List ℂ}

/-- Data are subtracted from arrays of their shapes, leaf by leaf. -/
theorem LeavesDenote.subtracted (ha : LeavesDenote as ps us)
    (shapes : bs.map NDArray.shape = ps.map Spec.shape) (data : ∀ b ∈ bs, b.Datum)
    (arrays : ∀ b ∈ bs, ∃ c, b.asArray = .ok c) :
    ∃ rs, List.Forall₂ (fun p r => p.1.sub p.2 = .ok r) (as.zip bs) rs ∧
      LeavesDenote rs ps (List.zipWith (· - ·) us (bs.flatMap fun b => b.entries.numbers)) := by
  induction ha generalizing bs with
  | nil =>
      obtain rfl := List.map_eq_nil_iff.mp shapes
      exact ⟨[], .nil, .nil⟩
  | @cons a p zs _ _ _ shape denotes _ ih =>
      cases bs with
      | nil => cases shapes
      | cons b bs =>
          rw [List.map_cons, List.map_cons, List.cons.injEq] at shapes
          obtain ⟨c, array⟩ := arrays b List.mem_cons_self
          obtain ⟨r, made, kept, denoted⟩ := (data b List.mem_cons_self).subtracted array denotes
            (shape.trans shapes.1.symm)
          obtain ⟨rs, each, rest⟩ := ih shapes.2
            (fun b inside => data b (List.mem_cons_of_mem _ inside))
            fun b inside => arrays b (List.mem_cons_of_mem _ inside)
          -- The numbers of all leaves are one list, cut where those of the first leaf end.
          have chunk : zs.length = b.entries.numbers.length := by
            rw [denotes.length_eq, b.entries.length_numbers, a.fits, b.fits, shape, shapes.1]
          refine ⟨r :: rs, .cons made each, ?_⟩
          rw [List.flatMap_cons, List.zipWith_append chunk]
          exact .cons (kept.trans shape) denoted rest

theorem length_flatMap_numbers (shapes : bs.map NDArray.shape = ps.map Spec.shape) :
    (bs.flatMap fun b => b.entries.numbers).length = (ps.map fun p => volume p.shape).sum := by
  have sizes : bs.map (fun b => volume b.shape) = ps.map fun p => volume p.shape := by
    simpa [Function.comp_def] using congrArg (List.map volume) shapes
  rw [← sizes, List.length_flatMap]
  refine congrArg List.sum (List.map_congr_left fun b _ => ?_)
  rw [b.entries.length_numbers, b.fits]

end Leaves

namespace Vec

variable {S : Structure} {b : Vec Exact}

/-- Every leaf is an array of finite numbers, or one number of the program. -/
def Datum (b : Vec Exact) : Prop := ∀ a ∈ b.leaves, a.Datum

/-- A datum that is accepted moves all vectors of a structure by one point. -/
theorem Datum.moves {name : String} (hb : b.Datum) (checked : b.check name S = .ok ())
    {z : Vec Exact} (hz : z.Fits S) :
    ∃ r, z.sub b = .ok r ∧ r.Fits S ∧ r.point S = z.point S - b.point S := by
  obtain ⟨us, hz⟩ := hz
  obtain ⟨skeleton, shapes⟩ := check_accepts checked
  have arrays : ∀ a ∈ b.leaves, ∃ c, a.asArray = .ok c := by
    simp only [check, toStructure, bind_accepts, pure_accepts] at checked
    obtain ⟨_, ⟨y, arrays, rfl⟩, _⟩ := checked
    intro a inside
    obtain ⟨c, _, array⟩ := exists_of_mem_right ((Tree.forall_of_traverse arrays).2.flip) inside
    exact ⟨c, array⟩
  obtain ⟨rs, each, leaves⟩ := hz.leaves.subtracted shapes hb arrays
  obtain ⟨fits, done⟩ := Tree.combine_same (hz.skeleton.trans skeleton.symm) each
  have hr : Denotes S ⟨z.skeleton, rs, fits⟩ (List.zipWith (· - ·) us b.numbers) :=
    ⟨hz.skeleton, leaves⟩
  have length : b.numbers.length = S.dimension := length_flatMap_numbers shapes
  refine ⟨_, done, hr.fits, ?_⟩
  rw [hr.point_eq, hz.point_eq, pointOf_sub hz.length_eq length, point]

end Vec

/-! ## Operators -/

namespace Operator

variable {σ : Type} {L : Operator σ Exact}

section

variable {R : Type} [Scalar R]

/-- The operator whose values are those of a linear one, less a data term. -/
def less (L : Operator σ R) (b : Vec R) : Operator σ R :=
  { L with
    isLinear := false
    apply := fun x => do Vec.sub (← L.apply x) b
    applyLinear := L.apply }

theorem affine_accepts {L A : Operator σ R} {b : Vec R} (accepted : L.affine b = .ok A) :
    L.isLinear = true ∧ b.check "b" L.codomain = .ok () ∧ A = L.less b := by
  unfold affine at accepted
  split at accepted
  · cases accepted
  · next linear =>
      obtain ⟨_, checked, made⟩ := bind_accepts.mp accepted
      cases made
      exact ⟨by simpa using linear, checked, rfl⟩

end

/-- The linear part of an operator that is linear is the operator. -/
theorem linearPart_of_linear (linear : L.isLinear = true) : L.linearPart = L := if_pos linear

/-- A value of the operator with a data term is one of the linear operator, less the data. -/
theorem less_apply_returns {b x y : Vec Exact} {env env' : σ} :
    (L.less b).apply x env = .ok y env' ↔
      ∃ z, L.apply x env = .ok z env' ∧ z.sub b = .ok y := by
  change (do Vec.sub (← L.apply x) b : Call σ (Vec Exact)) env = .ok y env' ↔ _
  simp only [bind_returns, lift_returns]
  constructor
  · rintro ⟨z, _, applied, difference, rfl⟩
    exact ⟨z, applied, difference⟩
  · rintro ⟨z, applied, difference⟩
    exact ⟨z, env', applied, difference, rfl⟩

/-- What an operator with a data term computes, by what the linear one does: its map is moved by
one vector, and its linear part and its adjoint are the same. -/
noncomputable def Meaning.less (M : L.Meaning) {b : Vec Exact} (linear : L.isLinear = true)
    (data : b.Datum) (checked : b.check "b" L.codomain = .ok ()) : (L.less b).Meaning where
  map x := M.map x - b.point L.codomain
  linear := M.linear
  adjoint := M.adjoint
  affine x h := (sub_sub_sub_cancel_right _ _ _).trans (M.affine x h)
  apply := by
    intro x y env env' fits applied
    obtain ⟨z, applied, difference⟩ := less_apply_returns.mp applied
    obtain ⟨fitsZ, point⟩ := M.apply fits applied
    obtain ⟨r, made, fitsR, moved⟩ := data.moves checked fitsZ
    cases difference.symm.trans made
    rw [point] at moved
    exact ⟨fitsR, moved⟩
  applyLinear := by
    intro x y env env' fits applied
    have itself : L.linearPart.apply x env = .ok y env' := by
      rw [linearPart_of_linear linear]
      exact applied
    exact M.applyLinear fits itself
  applyAdjoint := M.applyAdjoint

/-- An operator with a data term answers wherever the linear one does. -/
theorem Total.less (M : L.Meaning) (total : L.Total) {b : Vec Exact} (data : b.Datum)
    (checked : b.check "b" L.codomain = .ok ()) : (L.less b).Total where
  apply := by
    intro x env fits
    obtain ⟨z, env', applied⟩ := total.apply env fits
    obtain ⟨r, difference, _⟩ := data.moves checked (M.apply fits applied).1
    exact ⟨r, env', less_apply_returns.mpr ⟨z, applied, difference⟩⟩
  applyLinear env fits := total.apply env fits
  applyAdjoint := total.applyAdjoint

end Operator

end ForwardBackward
