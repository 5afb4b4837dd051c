/-
# ForwardBackward.Proofs.Diagonals -- the diagonals and the bands of a transform

Sums and compositions are not always evaluated by structure: where both parts have
diagonals, one diagonal stands for them, and where both have bands, one band does for a
sum.  A formed transform and its transpose have diagonals of the same numbers, or
neither has one (`Formed.diagonals`), and bands with the outer diagonals exchanged, or
neither has one (`Formed.bands`).

If the identities in it are of double precision, the diagonal or the band of a transform
gives way to the vectors it meets (`Formed.diagonal_within`, `Formed.band_within`), and
what it multiplies keeps its kind.
-/
import ForwardBackward.Proofs.Transforms

namespace ForwardBackward

set_option autoImplicit false

namespace Transform

variable {R : Type} [Scalar R]

/-! ## Diagonals -/

/-- Two diagonals of the same numbers for the vectors of a structure, or none. -/
inductive SameDiagonal (s : Structure) : Option (Vec Exact) → Option (Vec Exact) → Prop where
  | none : SameDiagonal s none none
  | some {d d' : Vec Exact} : d.Fits s → d'.Fits s → d'.numbers = d.numbers →
      SameDiagonal s (some d) (some d')

namespace SameDiagonal

variable {s : Structure} {d d' e e' : Option (Vec Exact)}

theorem eq_none (same : SameDiagonal s Option.none d') : d' = Option.none := by
  cases same
  rfl

theorem exists_some {a : Vec Exact} (same : SameDiagonal s (Option.some a) d') :
    ∃ b, d' = Option.some b ∧ b.numbers = a.numbers := by
  cases same with
  | some _ _ numbers => exact ⟨_, rfl, numbers⟩

theorem fits {a : Vec Exact} (same : SameDiagonal s (Option.some a) d') : a.Fits s := by
  cases same with
  | some here => exact here

theorem leaf {p : Spec} {a b : NDArray Exact} {zs : List ℂ} (shape : a.shape = p.shape)
    (shape' : b.shape = p.shape) (denotes : a.entries.Denotes zs)
    (denotes' : b.entries.Denotes zs) :
    SameDiagonal (.leaf p) (Option.some (.leaf a)) (Option.some (.leaf b)) := by
  have fits : ∀ {c : NDArray Exact}, c.shape = p.shape → c.entries.Denotes zs →
      Vec.Fits (.leaf p) (.leaf c) := fun shape denotes =>
    ⟨_, rfl, .cons shape denotes .nil⟩
  refine .some (fits shape denotes) (fits shape' denotes') ?_
  rw [Vec.numbers_leaf, Vec.numbers_leaf, denotes.numbers_eq, denotes'.numbers_eq]

/-- A function on every entry of either diagonal. -/
theorem map {g : NDArray Exact → NDArray Exact} {op : ℂ → ℂ}
    (mapped : ∀ {a : NDArray Exact} {zs : List ℂ}, a.entries.Denotes zs →
      (g a).shape = a.shape ∧ (g a).entries.Denotes (zs.map op))
    (same : SameDiagonal s d d') : SameDiagonal s (d.map (Tree.map g)) (d'.map (Tree.map g)) := by
  cases same with
  | none => exact .none
  | some fits fits' numbers =>
      have image := fits.denotes.map mapped
      have image' := fits'.denotes.map mapped
      exact .some image.fits image'.fits (by rw [image.numbers_eq, image'.numbers_eq, numbers])

/-- The sums of two diagonals each. -/
theorem plus (same : SameDiagonal s d d') (same' : SameDiagonal s e e') :
    SameDiagonal s (do ((← d).plus (← e)).toOption) (do ((← d').plus (← e')).toOption) := by
  cases same with
  | none => exact .none
  | some fits fits' numbers =>
      cases same' with
      | none => exact .none
      | some other other' numbers' =>
          obtain ⟨z, made, hz, sums⟩ := fits.zip Rule.means_add other
          obtain ⟨w, made', hw, sums'⟩ := fits'.zip Rule.means_add other'
          have left : (Vec.plus _ _).toOption = Option.some z := congrArg Except.toOption made
          have right : (Vec.plus _ _).toOption = Option.some w := congrArg Except.toOption made'
          simp only [bind, Option.bind, left, right]
          exact .some hz hw (by rw [sums, sums', numbers, numbers'])

/-- The products of two diagonals each, in reverse order on the other side. -/
theorem times {r : Structure} (square : d.isSome → e.isSome → r = s) (same : SameDiagonal r d d')
    (same' : SameDiagonal s e e') :
    SameDiagonal s (do ((← d).times (← e)).toOption) (do ((← e').times (← d')).toOption) := by
  cases same' with
  | none => cases same <;> exact .none
  | some other other' numbers' =>
      cases same with
      | none => exact .none
      | some fits fits' numbers =>
          obtain rfl := square rfl rfl
          obtain ⟨z, made, hz, products⟩ := fits.zip Rule.means_mul other
          obtain ⟨w, made', hw, products'⟩ := other'.zip Rule.means_mul fits'
          have left : (Vec.times _ _).toOption = Option.some z := congrArg Except.toOption made
          have right : (Vec.times _ _).toOption = Option.some w := congrArg Except.toOption made'
          simp only [bind, Option.bind, left, right]
          refine .some hz hw ?_
          rw [products, products', numbers, numbers', List.zipWith_comm]
          simp only [mul_comm]

end SameDiagonal

/-- What two optional parts have in common, if there is any. -/
theorem eq_some_of_bind {α : Type} {f : α → α → Except Fault α} {d e : Option α} {c : α}
    (found : (do (f (← d) (← e)).toOption) = some c) :
    ∃ a b, d = some a ∧ e = some b ∧ f a b = .ok c := by
  cases d with
  | none => cases found
  | some a =>
      cases e with
      | none => cases found
      | some b =>
          change (f a b).toOption = some c at found
          refine ⟨a, b, rfl, rfl, ?_⟩
          cases made : f a b with
          | ok c' =>
              rw [made] at found
              exact congrArg Except.ok (Option.some.inj found)
          | error e =>
              rw [made] at found
              cases found

theorem isSome_of_bind {α : Type} {f : α → α → Except Fault α} {d e : Option α}
    (found : (do (f (← d) (← e)).toOption).isSome) : d.isSome ∧ e.isSome := by
  obtain ⟨_, found⟩ := Option.isSome_iff_exists.mp found
  obtain ⟨_, _, rfl, rfl, _⟩ := eq_some_of_bind found
  exact ⟨rfl, rfl⟩

/-- What an identity multiplies by. -/
theorem ones_denotes (s : Structure) :
    Tree.Leafwise (fun p a => a.shape = p.shape ∧ ∃ zs, a.entries.Denotes zs) s
      (s.map fun p => (NDArray.ones p.shape : NDArray Exact)) := by
  refine ⟨rfl, ?_⟩
  change List.Forall₂ _ s.leaves (s.leaves.map _)
  rw [List.forall₂_map_right_iff, List.forall₂_same]
  intro p _
  have ones : (NDArray.ones p.shape : NDArray Exact).entries =
      .real .double ((List.replicate (volume p.shape) 1).map .real) := by
    simp [NDArray.ones, Entries.ones]
  exact ⟨rfl, _, by rw [ones]; exact .real _ _⟩

theorem diagonal?_matrix {rows columns : Nat} {m : NDArray R} {fits : m.shape = [rows, columns]}
    (large : ¬(rows = 1 ∧ columns = 1)) : (matrix rows columns m fits).diagonal? = none := by
  unfold diagonal?
  split <;> simp_all

/-- A transform and its transpose multiply by the same numbers, or neither of them does. -/
theorem Formed.diagonals {t : Transform Exact} (formed : t.Formed) :
    SameDiagonal t.domain t.diagonal? t.transpose.diagonal? ∧
      (t.diagonal?.isSome → t.codomain = t.domain) := by
  induction formed with
  | @matrix rows columns m fits solid =>
      by_cases one : rows = 1 ∧ columns = 1
      · obtain ⟨rfl, rfl⟩ := one
        obtain ⟨ms, denotes⟩ := solid.finite
        obtain ⟨_, ns, denotes', swapped⟩ := NDArray.transpose_denotes fits denotes
        have size : ∀ {a : NDArray Exact}, a.shape = [1, 1] → a.flatten.shape = [1] := by
          intro a shape
          simp [NDArray.flatten, NDArray.size, shape, volume]
        have length : ∀ {a : NDArray Exact} {zs : List ℂ}, a.shape = [1, 1] →
            a.entries.Denotes zs → ∃ z, zs = [z] := by
          intro a zs shape denotes
          refine List.length_eq_one_iff.mp ?_
          rw [denotes.length_eq, a.fits, shape]
          rfl
        obtain ⟨z, rfl⟩ := length fits denotes
        obtain ⟨w, rfl⟩ := length (NDArray.shape_transpose fits) denotes'
        obtain rfl : w = z := swapped 0 one_pos 0 one_pos
        exact ⟨.leaf (size fits) (size (NDArray.shape_transpose fits)) denotes denotes',
          fun _ => rfl⟩
      · rw [diagonal?_matrix one, Transform.transpose,
          diagonal?_matrix fun other => one ⟨other.2, other.1⟩]
        exact ⟨.none, fun some => absurd some Bool.false_ne_true⟩
  | @identity s firm =>
      have fits := Vec.fits_of_leafwise (fun _ _ ones => ones) (ones_denotes s)
      exact ⟨.some fits fits rfl, fun _ => rfl⟩
  | diagonal solid =>
      obtain ⟨zs, denotes⟩ := solid.finite
      exact ⟨.leaf rfl rfl denotes denotes, fun _ => rfl⟩
  | @tridiagonal n d lower upper fits solid _ _ =>
      obtain ⟨zs, denotes⟩ := solid.finite
      cases n with
      | zero => exact ⟨.leaf rfl rfl denotes denotes, fun _ => rfl⟩
      | succ n => exact ⟨.none, fun some => absurd some Bool.false_ne_true⟩
  | function sound => exact ⟨.none, fun some => absurd some Bool.false_ne_true⟩
  | @compose p q _ _ fits hp hq =>
      obtain ⟨sameP, squareP⟩ := hp
      obtain ⟨sameQ, squareQ⟩ := hq
      refine ⟨sameP.times (fun _ some => fits.trans (squareQ some)) sameQ, fun some => ?_⟩
      obtain ⟨someP, someQ⟩ := isSome_of_bind some
      exact (squareP someP).trans (fits.trans (squareQ someQ))
  | @sum p q _ _ fits fits' hp hq =>
      obtain ⟨sameP, squareP⟩ := hp
      obtain ⟨sameQ, squareQ⟩ := hq
      rw [← fits] at sameQ
      exact ⟨sameP.plus sameQ, fun some => squareP (isSome_of_bind some).1⟩
  | negative _ hp =>
      refine ⟨hp.1.map fun denotes => ⟨rfl, denotes.neg⟩, fun some => hp.2 ?_⟩
      rwa [diagonal?, Option.isSome_map] at some
  | multiple c _ hp =>
      refine ⟨hp.1.map fun denotes => ⟨rfl, NDArray.scale_denotes c denotes⟩, fun some => hp.2 ?_⟩
      rwa [diagonal?, Option.isSome_map] at some
  | complexMultiple c _ _ _ hp =>
      refine ⟨hp.1.map fun denotes => ⟨rfl, denotes.scaleComplex c⟩, fun some => hp.2 ?_⟩
      rwa [diagonal?, Option.isSome_map] at some

/-! ## Kinds of diagonals -/

section Kinds

variable {s : Structure} {d : Vec Exact}

/-- A complex multiple of what gives way to complex numbers gives way to them. -/
theorem within_scaleComplex {a : Entries Exact} {l : Kind} (c : Cartesian Exact)
    (within : a.kind.Within l) (complex : l.isComplex = true) :
    (a.scaleComplex c).kind.Within l := by
  cases l with
  | whole w => cases complex
  | real r => cases complex
  | complex r =>
      cases a with
      | whole w xs => exact absurd rfl (within.inexact w)
      | real p xs | complex p xs => exact ⟨rfl, nofun, within.joined⟩

theorem within_map {g : NDArray Exact → NDArray Exact} {op : ℂ → ℂ}
    (mapped : ∀ {a : NDArray Exact} {zs : List ℂ}, a.entries.Denotes zs →
      (g a).shape = a.shape ∧ (g a).entries.Denotes (zs.map op))
    (kind : ∀ p ∈ s.leaves, ∀ a, NDArray.Within p a → (g a).kind.Within p.kind)
    (within : d.Within s) : Vec.Within s (Tree.map g d) := by
  refine Tree.Leafwise.map within fun p inside a here => ?_
  obtain ⟨zs, denotes⟩ := here.finite
  obtain ⟨shape, denotes'⟩ := mapped denotes
  exact ⟨shape.trans here.shape, kind p inside a here, _, denotes'⟩

/-- An array is within the structure that it is kept in. -/
theorem within_spec {a : NDArray Exact} (solid : a.Solid) :
    Vec.Within (.leaf a.spec) (.leaf a) :=
  ⟨rfl, .cons ⟨rfl, Kind.within_firm solid.notBare solid.inexact, solid.finite⟩ .nil⟩

/-- The diagonal of a transform whose identities are of double precision leaves vectors in their
kinds. -/
theorem Formed.diagonal_within {t : Transform Exact} (formed : t.Formed) (wide : t.Wide)
    (found : t.diagonal? = some d) : d.Within t.domain := by
  induction formed generalizing d with
  | @matrix rows columns m fits solid =>
      by_cases one : rows = 1 ∧ columns = 1
      · obtain ⟨rfl, rfl⟩ := one
        cases found
        refine ⟨rfl, .cons ⟨?_, Kind.within_self solid.notBare solid.inexact, solid.finite⟩ .nil⟩
        simp [NDArray.flatten, NDArray.size, fits, volume]
      · cases (diagonal?_matrix one).symm.trans found
  | @identity s firm =>
      cases found
      refine ⟨rfl, ?_⟩
      have ones := (ones_denotes s).leaves
      change List.Forall₂ NDArray.Within s.leaves (s.leaves.map _)
      change List.Forall₂ _ s.leaves (s.leaves.map _) at ones
      rw [List.forall₂_map_right_iff, List.forall₂_same] at ones ⊢
      intro p inside
      refine ⟨rfl, ⟨rfl, nofun, ?_⟩, (ones p inside).2⟩
      rcases wide p inside with real | complex
      · rw [real]; rfl
      · rw [complex]; rfl
  | diagonal solid =>
      cases found
      exact within_spec solid
  | @tridiagonal n d lower upper fits solid _ _ =>
      cases n with
      | zero =>
          cases found
          exact within_spec solid
      | succ n => cases found
  | function sound => cases found
  | @compose p q formedP formedQ fits hp hq =>
      obtain ⟨e, e', left, right, product⟩ := eq_some_of_bind found
      have within := hp wide.1 left
      rw [fits, formedQ.diagonals.2 (right ▸ rfl)] at within
      exact within.zip Rule.means_mul (hq wide.2 right) product
  | @sum p q formedP formedQ fits fits' hp hq =>
      obtain ⟨e, e', left, right, sum⟩ := eq_some_of_bind found
      have within := hq wide.2 right
      rw [← fits] at within
      exact (hp wide.1 left).zip Rule.means_add within sum
  | negative _ hp =>
      obtain ⟨e, part, rfl⟩ := Option.map_eq_some_iff.mp found
      refine within_map (fun denotes => ⟨rfl, denotes.neg⟩) (fun p _ a here => ?_) (hp wide part)
      have same : a.neg.kind = a.kind := Entries.kind_neg here.kind.inexact
      rw [same]
      exact here.kind
  | multiple c _ hp =>
      obtain ⟨e, part, rfl⟩ := Option.map_eq_some_iff.mp found
      refine within_map (fun denotes => ⟨rfl, NDArray.scale_denotes c denotes⟩)
        (fun p _ a here => ?_) (hp wide part)
      have same : (a.scale (.real c)).kind = a.kind := NDArray.kind_map _ _ here.kind.inexact
      rw [same]
      exact here.kind
  | complexMultiple c complex _ _ hp =>
      obtain ⟨e, part, rfl⟩ := Option.map_eq_some_iff.mp found
      exact within_map (fun denotes => ⟨rfl, denotes.scaleComplex c⟩)
        (fun p inside a here => within_scaleComplex _ here.kind (complex p inside)) (hp wide part)

end Kinds

/-! ## Bands -/

/-- Two bands of the same numbers, the outer diagonals exchanged, or none. -/
inductive SameBand (n : Nat) : Option (Band Exact) → Option (Band Exact) → Prop where
  | none : SameBand n none none
  | some {b b' : Band Exact} {ds ls us : List ℂ} : b.Denotes n ds ls us → b'.Denotes n ds us ls →
      SameBand n (some b) (some b')

namespace SameBand

variable {n : Nat} {b b' c c' : Option (Band Exact)}

theorem eq_none (same : SameBand n Option.none b') : b' = Option.none := by
  cases same
  rfl

theorem exists_some {a : Band Exact} (same : SameBand n (Option.some a) b') :
    ∃ ds ls us a', b' = Option.some a' ∧ a.Denotes n ds ls us ∧ a'.Denotes n ds us ls := by
  cases same with
  | some here there => exact ⟨_, _, _, _, rfl, here, there⟩

/-- A function on every entry of either band. -/
theorem map {g : NDArray Exact → NDArray Exact} {op : ℂ → ℂ}
    (mapped : ∀ {a : NDArray Exact} {zs : List ℂ}, a.entries.Denotes zs →
      (g a).shape = a.shape ∧ (g a).entries.Denotes (zs.map op))
    (notBare : ∀ {a : NDArray Exact}, a.Solid → (g a).isBare = false) (same : SameBand n b b') :
    SameBand n (b.map fun b => ⟨g b.diagonal, g b.lower, g b.upper⟩)
      (b'.map fun b => ⟨g b.diagonal, g b.lower, g b.upper⟩) := by
  have image : ∀ {b : Band Exact} {ds ls us : List ℂ}, b.Denotes n ds ls us →
      Band.Denotes n ⟨g b.diagonal, g b.lower, g b.upper⟩ (ds.map op) (ls.map op) (us.map op) :=
    fun h => {
      shape := (mapped h.diagonal).1.trans h.shape
      lowerShape := (mapped h.lower).1.trans h.lowerShape
      upperShape := (mapped h.upper).1.trans h.upperShape
      lowerNotBare := notBare ⟨h.lowerNotBare, _, h.lower⟩
      upperNotBare := notBare ⟨h.upperNotBare, _, h.upper⟩
      diagonal := (mapped h.diagonal).2
      lower := (mapped h.lower).2
      upper := (mapped h.upper).2 }
  cases same with
  | none => exact .none
  | some here there => exact .some (image here) (image there)

theorem add (same : SameBand n b b') (same' : SameBand n c c') :
    SameBand n (do ((← b).add (← c)).toOption) (do ((← b').add (← c')).toOption) := by
  have sum : ∀ {a b : Band Exact} {ds ls us es ks vs : List ℂ}, a.Denotes n ds ls us →
      b.Denotes n es ks vs → ∃ c, a.add b = .ok c ∧ c.Denotes n (List.zipWith (· + ·) ds es)
        (List.zipWith (· + ·) ls ks) (List.zipWith (· + ·) us vs) := by
    intro a b ds ls us es ks vs ha hb
    obtain ⟨d, madeD, shapeD, denotesD⟩ :=
      NDArray.add_denotes ha.diagonal hb.diagonal (ha.shape.trans hb.shape.symm)
    obtain ⟨l, madeL, shapeL, notBareL, _, denotesL⟩ := NDArray.meets_solid Rule.means_add
      ha.lowerNotBare hb.lowerNotBare (ha.lowerShape.trans hb.lowerShape.symm) ha.lower hb.lower
    obtain ⟨u, madeU, shapeU, notBareU, _, denotesU⟩ := NDArray.meets_solid Rule.means_add
      ha.upperNotBare hb.upperNotBare (ha.upperShape.trans hb.upperShape.symm) ha.upper hb.upper
    refine ⟨⟨d, l, u⟩, ?_, shapeD.trans ha.shape, shapeL.trans ha.lowerShape,
      shapeU.trans ha.upperShape, notBareL, notBareU, denotesD, denotesL, denotesU⟩
    have lower : a.lower.add b.lower = .ok l := madeL
    have upper : a.upper.add b.upper = .ok u := madeU
    unfold Band.add
    simp only [madeD, lower, upper, bind, Except.bind, pure, Except.pure]
  cases same with
  | none => exact .none
  | some here there =>
      cases same' with
      | none => exact .none
      | some here' there' =>
          obtain ⟨x, made, hx⟩ := sum here here'
          obtain ⟨y, made', hy⟩ := sum there there'
          have left : (Band.add _ _).toOption = Option.some x := congrArg Except.toOption made
          have right : (Band.add _ _).toOption = Option.some y := congrArg Except.toOption made'
          simp only [bind, Option.bind, left, right]
          exact .some hx hy

/-- The bands of two diagonals of the same numbers. -/
theorem ofDiagonal {p : Spec} {d d' : Option (Vec Exact)} (row : p.shape = [n + 1])
    (same : SameDiagonal (.leaf p) d d') :
    SameBand n (do pure (.ofDiagonal (← (← d).asLeaf?)))
      (do pure (.ofDiagonal (← (← d').asLeaf?))) := by
  have single : ∀ {d : Vec Exact}, d.Fits (.leaf p) → ∃ a, d = .leaf a ∧ a.shape = [n + 1] ∧
      a.entries.Denotes d.numbers := by
    intro d fits
    have denotes := fits.denotes
    obtain ⟨skeleton, leaves⟩ := denotes
    generalize d.numbers = zs at leaves
    obtain ⟨t, as, count⟩ := d
    obtain rfl : t = .leaf := skeleton
    cases leaves with
    | cons shape here rest =>
        cases rest
        rw [List.append_nil]
        exact ⟨_, rfl, shape.trans row, here⟩
  have zeros : ∀ {a : NDArray Exact}, a.shape = [n + 1] →
      (Band.ofDiagonal a).lower.shape = [n] ∧
        (Band.ofDiagonal a).lower.entries.Denotes (List.replicate n 0) := by
    intro a shape
    have size : a.size - 1 = n := by simp [NDArray.size, shape, volume]
    have none : (Band.ofDiagonal a).lower = NDArray.zeros ⟨[n], .real .double⟩ := by
      unfold Band.ofDiagonal
      rw [size]
    rw [none]
    have count : volume [n] = n := by simp [volume]
    refine ⟨rfl, ?_⟩
    change (Entries.zeros (volume [n]) (.real .double)).Denotes _
    rw [count]
    exact Entries.zeros_denotes n nofun
  have band : ∀ {a : NDArray Exact} {zs : List ℂ}, a.shape = [n + 1] → a.entries.Denotes zs →
      (Band.ofDiagonal a).Denotes n zs (List.replicate n 0) (List.replicate n 0) :=
    fun shape denotes =>
      ⟨shape, (zeros shape).1, (zeros shape).1, rfl, rfl, denotes, (zeros shape).2, (zeros shape).2⟩
  cases same with
  | none => exact .none
  | some fits fits' numbers =>
      obtain ⟨a, rfl, shape, denotes⟩ := single fits
      obtain ⟨a', rfl, shape', denotes'⟩ := single fits'
      rw [numbers] at denotes'
      exact .some (band shape denotes) (band shape' denotes')

end SameBand

/-- A transform of one row of numbers and its transpose multiply by one band, but for the order
of the outer diagonals, or neither of them does. -/
theorem Formed.bands {t : Transform Exact} {n : Nat} {p : Spec} (formed : t.Formed)
    (domain : t.domain = .leaf p) (row : p.shape = [n + 1]) :
    SameBand n t.band? t.transpose.band? ∧ (t.band?.isSome → t.codomain = t.domain) := by
  -- what is no band and no sum or multiple of bands has the band of its diagonal
  have entrywise : ∀ {t : Transform Exact}, t.Formed → t.domain = .leaf p →
      SameBand n (do pure (.ofDiagonal (← (← t.diagonal?).asLeaf?)))
        (do pure (.ofDiagonal (← (← t.transpose.diagonal?).asLeaf?))) ∧
      ((do pure (Band.ofDiagonal (← (← t.diagonal?).asLeaf?))).isSome → t.codomain = t.domain) := by
    intro t formed domain
    obtain ⟨same, square⟩ := formed.diagonals
    rw [domain] at same
    refine ⟨.ofDiagonal row same, fun some => square ?_⟩
    cases found : t.diagonal? with
    | none => rw [found] at some; cases some
    | some d => rfl
  induction formed with
  | matrix solid => exact entrywise (.matrix solid) domain
  | identity firm => exact entrywise (.identity firm) domain
  | diagonal solid => exact entrywise (.diagonal solid) domain
  | function sound => exact entrywise (.function sound) domain
  | compose hp hq fits => exact entrywise (.compose hp hq fits) domain
  | @tridiagonal m d lower upper fits solid solidL solidU =>
      have spec : d.spec = p := Tree.leaf_inj domain
      have shape : d.shape = [n + 1] := by rw [← row, ← spec]; rfl
      obtain rfl : m = n := by
        have same := fits.1.symm.trans shape
        simpa using same
      obtain ⟨ds, ls, us, here, there⟩ := solid.band solidL solidU fits
      exact ⟨.some here there, fun _ => rfl⟩
  | @sum p' q _ _ fits _ hp hq =>
      have sameP := hp domain
      have sameQ := hq (fits.symm.trans domain)
      exact ⟨sameP.1.add sameQ.1, fun some => sameP.2 (isSome_of_bind some).1⟩
  | negative _ hp =>
      refine ⟨(hp domain).1.map (fun denotes => ⟨rfl, denotes.neg⟩) fun solid => ?_,
        fun some => (hp domain).2 (by rwa [band?, Option.isSome_map] at some)⟩
      rw [NDArray.isBare, NDArray.kind]
      exact (congrArg Kind.isBare (Entries.kind_neg solid.inexact)).trans solid.notBare
  | multiple c _ hp =>
      refine ⟨(hp domain).1.map (fun denotes => ⟨rfl, NDArray.scale_denotes c denotes⟩)
        fun solid => ?_, fun some => (hp domain).2 (by rwa [band?, Option.isSome_map] at some)⟩
      exact (congrArg Kind.isBare (NDArray.kind_map _ _ solid.inexact)).trans solid.notBare
  | complexMultiple c _ _ _ hp =>
      exact ⟨(hp domain).1.map (fun denotes => ⟨rfl, denotes.scaleComplex c⟩) fun _ => rfl,
        fun some => (hp domain).2 (by rwa [band?, Option.isSome_map] at some)⟩

/-- A transform with a band and no diagonal applies to one row of numbers. -/
theorem Formed.row_of_band {t : Transform Exact} (formed : t.Formed) (band : t.band?.isSome) :
    t.diagonal?.isSome ∨ ∃ n p, t.domain = .leaf p ∧ p.shape = [n + 1] := by
  have entrywise : ∀ {t : Transform Exact},
      (do pure (Band.ofDiagonal (← (← t.diagonal?).asLeaf?))).isSome → t.diagonal?.isSome := by
    intro t some
    cases found : t.diagonal? with
    | none => rw [found] at some; cases some
    | some d => rfl
  induction formed with
  | matrix | identity | diagonal | function => exact .inl (entrywise band)
  | compose => exact .inl (entrywise band)
  | @tridiagonal n d lower upper fits => exact .inr ⟨n, d.spec, rfl, fits.1⟩
  | @sum p q formedP formedQ fits _ hp hq =>
      obtain ⟨someP, someQ⟩ := isSome_of_bind band
      rcases hp someP with diagonal | row
      · rcases hq someQ with diagonal' | row
        · -- the sum has a diagonal if both parts have one
          obtain ⟨d, left⟩ := Option.isSome_iff_exists.mp diagonal
          obtain ⟨e, right⟩ := Option.isSome_iff_exists.mp diagonal'
          have here := formedP.diagonals.1
          have there := formedQ.diagonals.1
          rw [left] at here
          rw [right, ← fits] at there
          obtain ⟨z, made, _⟩ := here.fits.zip Rule.means_add there.fits
          have sum : (d.plus e).toOption = some z := congrArg Except.toOption made
          refine .inl ?_
          rw [diagonal?, left, right]
          exact Option.isSome_iff_exists.mpr ⟨z, sum⟩
        · rw [← fits] at row
          exact .inr row
      · exact .inr row
  | negative _ hp | multiple _ _ hp | complexMultiple _ _ _ _ hp =>
      rw [band?, Option.isSome_map] at band
      rw [diagonal?, Option.isSome_map]
      exact hp band

/-- The band of a transform whose identities are of double precision leaves arrays in their
kind. -/
theorem Formed.band_within {t : Transform Exact} {p : Spec} {b : Band Exact} (formed : t.Formed)
    (wide : t.Wide) (domain : t.domain = .leaf p) (found : t.band? = some b) :
    b.diagonal.Within p := by
  have entrywise : ∀ {t : Transform Exact} {b : Band Exact}, t.Formed → t.Wide →
      t.domain = .leaf p → (do pure (Band.ofDiagonal (← (← t.diagonal?).asLeaf?))) = some b →
      b.diagonal.Within p := by
    intro t b formed wide domain found
    cases diagonal : t.diagonal? with
    | none => rw [diagonal] at found; cases found
    | some d =>
        have within := formed.diagonal_within wide diagonal
        rw [domain] at within
        obtain ⟨a, rfl, here⟩ := within.eq_leaf
        rw [diagonal] at found
        cases found
        exact here
  induction formed generalizing b with
  | matrix solid => exact entrywise (.matrix solid) wide domain found
  | identity firm => exact entrywise (.identity firm) wide domain found
  | diagonal solid => exact entrywise (.diagonal solid) wide domain found
  | function sound => exact entrywise (.function sound) wide domain found
  | compose hp hq fits => exact entrywise (.compose hp hq fits) wide domain found
  | @tridiagonal n d lower upper _ solid _ _ =>
      cases found
      obtain rfl : d.spec = p := Tree.leaf_inj domain
      exact ⟨rfl, Kind.within_firm solid.notBare solid.inexact, solid.finite⟩
  | @sum p' q _ _ fits _ hp hq =>
      obtain ⟨a, c, left, right, sum⟩ := eq_some_of_bind found
      obtain ⟨d, made, sum⟩ := bind_accepts.mp sum
      obtain ⟨l, _, sum⟩ := bind_accepts.mp sum
      obtain ⟨u, _, sum⟩ := bind_accepts.mp sum
      cases sum
      exact (hp wide.1 domain left).of_zip Rule.means_add (hq wide.2 (fits.symm.trans domain) right)
        made
  | negative _ hp =>
      obtain ⟨a, part, rfl⟩ := Option.map_eq_some_iff.mp found
      obtain ⟨shape, kind, zs, denotes⟩ := hp wide domain part
      have same : a.diagonal.neg.kind = a.diagonal.kind := Entries.kind_neg kind.inexact
      exact ⟨shape, same ▸ kind, _, denotes.neg⟩
  | multiple c _ hp =>
      obtain ⟨a, part, rfl⟩ := Option.map_eq_some_iff.mp found
      obtain ⟨shape, kind, zs, denotes⟩ := hp wide domain part
      have same : (a.diagonal.scale (.real c)).kind = a.diagonal.kind :=
        NDArray.kind_map _ _ kind.inexact
      exact ⟨shape, same ▸ kind, _, NDArray.scale_denotes c denotes⟩
  | @complexMultiple q c complex _ _ hp =>
      obtain ⟨a, part, rfl⟩ := Option.map_eq_some_iff.mp found
      obtain ⟨shape, kind, zs, denotes⟩ := hp wide domain part
      have inside : p.kind.isComplex = true := complex p (by
        have domain' : q.domain = .leaf p := domain
        rw [domain']
        exact List.mem_singleton_self p)
      exact ⟨shape, within_scaleComplex _ kind inside, _, denotes.scaleComplex c⟩

end Transform

end ForwardBackward
