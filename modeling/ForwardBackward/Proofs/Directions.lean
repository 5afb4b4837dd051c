/-
# ForwardBackward.Proofs.Directions -- when there is a direction

A history may be offered whatever has its shapes: fractions of any precision, real or
complex, infinities and what is not a number.  It answers every such offer
(`Offer.Fractional.answered`), and so do the two loops, but for one place: the scaling
between them, a number of the program, is `1 / (ρ ‖y‖²)` of the newest pair, and a square
that is not finite or a divisor that is zero is refused (`twoLoop_scaled`,
`factor_outcomes`).

The divisor is that of the pair in the slot.  What `update` found acceptable was the pair
before it was stored, and a slot holds it in kinds of its own: there a small number may
count as zero, and an imaginary part is dropped.  So `direction_outcomes` tells when a
history has a direction, for every arithmetic and whatever was offered, and it is not
always: `imaginary_pair_has_no_direction`.
-/
import ForwardBackward.Proofs.Catalogue
import ForwardBackward.Proofs.TwoLoop

namespace ForwardBackward

set_option autoImplicit false

variable {R : Type} [Scalar R]

/-! ## Arrays of fractions -/

theorem Kind.isBare_firm (k : Kind) : k.firm.isBare = false := by
  cases k with
  | whole w => cases w <;> rfl
  | real p => cases p <;> rfl
  | complex p => rfl

/-- Read as fractions, bare numbers stay bare and others do not become so. -/
theorem Entries.isBare_mapInexact (f : Precision → R → R)
    (g : Precision → Cartesian R → Cartesian R) (e : Entries R) :
    (e.mapInexact f g).kind.isBare = e.kind.isBare := by
  cases e with
  | whole w ns => cases w <;> rfl
  | real | complex => rfl

namespace NDArray

variable {p : Spec} {a b c slot : NDArray R}

/-- An array of this shape, no bare number. -/
structure OfShape (p : Spec) (a : NDArray R) : Prop where
  shape : a.shape = p.shape
  notBare : a.isBare = false

/-- An array of this shape, of fractions of any kind. -/
structure Fractional (p : Spec) (a : NDArray R) : Prop extends OfShape p a where
  inexact : a.Inexact

theorem isBare_scale (c : R) (a : NDArray R) : (a.scale c).isBare = a.isBare :=
  Entries.isBare_mapInexact (fun p x => p.mul (p.ofNumber c) x) _ a.entries

theorem OfShape.scale (ha : a.OfShape p) (c : R) : (a.scale c).Fractional p :=
  ⟨⟨ha.shape, (isBare_scale c a).trans ha.notBare⟩, scale_inexact c a⟩

/-- What meets entry by entry with fractions of its shape becomes fractions of that shape. -/
theorem Fractional.zip (f : Rule R) (ha : a.Fractional p) (hb : b.OfShape p) :
    ∃ c, zipWith f a b = .ok c ∧ c.Fractional p := by
  have same : a.shape = b.shape := ha.shape.trans hb.shape.symm
  refine ⟨_, zipWith_solid f ha.notBare hb.notBare same, ⟨ha.shape, ?_⟩, ?_⟩
  · rw [isBare, kind_zipSame]
    exact Kind.isBare_join hb.notBare
  · unfold Inexact
    rw [kind_zipSame]
    exact Kind.join_inexact ha.inexact b.kind

theorem Fractional.sub (ha : a.Fractional p) (hb : b.OfShape p) :
    ∃ c, a.sub b = .ok c ∧ c.Fractional p := by
  unfold NDArray.sub
  rw [if_neg (Kind.join_inexact ha.inexact b.kind .flag)]
  exact ha.zip .sub hb

theorem OfShape.dot (ha : a.OfShape p) (hb : b.Fractional p) : ∃ e, a.dot b = .ok e := by
  have sizes : a.size = b.size := congrArg volume (ha.shape.trans hb.shape.symm)
  have wide : a.entries.narrows b.entries = false := by
    unfold Entries.narrows
    split
    · next right => exact absurd right (hb.inexact .loose)
    · next right => exact absurd right (hb.inexact .word32)
    · rfl
  exact ⟨_, dot_solid ha.notBare hb.notBare sizes wide⟩

end NDArray

/-! ## Vectors of fractions -/

namespace Vec

variable {S : Structure} {x y slot : Vec R}

/-- A vector of arrays of these shapes, no bare numbers among them. -/
def OfShape (S : Structure) (x : Vec R) : Prop := Tree.Leafwise NDArray.OfShape S x

/-- A vector of arrays of these shapes, of fractions of any kind. -/
def Fractional (S : Structure) (x : Vec R) : Prop := Tree.Leafwise NDArray.Fractional S x

theorem Fractional.ofShape (hx : x.Fractional S) : x.OfShape S :=
  ⟨hx.skeleton, hx.leaves.imp fun _ _ fractional => fractional.toOfShape⟩

/-- Numbers are not kept in bare kinds. -/
theorem Keeps.ofShape (hs : slot.Keeps x.spec) : slot.OfShape x.spec := by
  obtain ⟨skeleton, leaves⟩ := hs
  refine ⟨skeleton, ?_⟩
  simp only [spec, Tree.map, List.forall₂_map_left_iff] at leaves ⊢
  refine leaves.imp fun a c keeps => ⟨keeps.shape, ?_⟩
  rw [NDArray.isBare, keeps.kind]
  exact Kind.isBare_firm a.kind

theorem OfShape.solid (hx : x.OfShape S) : ∀ a ∈ x.leaves, a.isBare = false := by
  intro a inside
  obtain ⟨_, _, ofShape⟩ := exists_of_mem_right hx.leaves inside
  exact ofShape.notBare

theorem OfShape.scale (hx : x.OfShape S) (c : R) : (x.scale c).Fractional S :=
  hx.map fun _ _ _ ofShape => ofShape.scale c

theorem Fractional.sub (hx : x.Fractional S) (hy : y.OfShape S) :
    ∃ z, x.sub y = .ok z ∧ z.Fractional S := by
  obtain ⟨z, difference⟩ := hx.combine hy fun _ _ _ _ ha hb =>
    (ha.sub hb).imp fun _ => And.left
  refine ⟨z, difference, hx.of_combine hy difference fun _ _ _ c ha hb made => ?_⟩
  obtain ⟨c', made', fractional⟩ := ha.sub hb
  cases made.symm.trans made'
  exact fractional

theorem Fractional.add (hx : x.Fractional S) (hy : y.OfShape S) :
    ∃ z, x.add y = .ok z ∧ z.Fractional S := by
  obtain ⟨z, sum⟩ := hx.combine hy fun _ _ _ _ ha hb => (ha.zip .add hb).imp fun _ => And.left
  refine ⟨z, sum, hx.of_combine hy sum fun _ _ _ c ha hb made => ?_⟩
  obtain ⟨c', made', fractional⟩ := ha.zip .add hb
  cases made.symm.trans made'
  exact fractional

theorem OfShape.inner (hx : x.OfShape S) (hy : y.Fractional S) : ∃ c, x.inner y = .ok c := by
  have leafwise : ∀ p ∈ S.leaves, ∀ a b : NDArray R, a.OfShape p → b.Fractional p →
      ∃ e, (do (← a.asArray).dot (← toArray (.leaf b))) = Except.ok e := by
    intro p _ a b ha hb
    rw [toArray_leaf, (NDArray.asArray_of_firm ha.notBare).2,
      (NDArray.asArray_of_firm hb.notBare).2]
    exact ha.dot hb
  obtain ⟨sums, done⟩ := hx.combineParts
    (f := fun a u => do (← a.asArray).dot (← toArray u)) hy leafwise
  refine ⟨(Entries.total .zero sums.leaves).first, ?_⟩
  simp only [Vec.inner, done]
  rfl

/-- The square of a norm is refused only if it is not finite. -/
theorem OfShape.sqnorm (hx : x.OfShape S) :
    (∃ q, x.sqnorm = .ok q) ∨ x.sqnorm = .error .overflow := by
  unfold Vec.sqnorm
  rw [asArrays_of_solid hx.solid]
  change (∃ q, Scalar.square x.norm = .ok q) ∨ Scalar.square x.norm = .error .overflow
  unfold Scalar.square
  dsimp only
  split
  · exact .inr rfl
  · exact .inl ⟨_, rfl⟩

theorem OfShape.isFinite (hx : x.OfShape S) : ∃ finite, x.isFinite = .ok finite := by
  have each : ∀ as : List (NDArray R), (∀ a ∈ as, a.isBare = false) →
      ∃ finite, finiteLeaves as = .ok finite := by
    intro as solid
    induction as with
    | nil => exact ⟨true, rfl⟩
    | cons a as ih =>
        obtain ⟨firm, solid⟩ := List.forall_mem_cons.mp solid
        unfold finiteLeaves
        rw [(NDArray.asArray_of_firm firm).2]
        simp only [bind, Except.bind]
        split
        · exact ih solid
        · exact ⟨false, rfl⟩
  exact each x.leaves hx.solid

/-- A slot takes what has its shapes. -/
theorem OfShape.fill (hs : slot.OfShape S) (hx : x.OfShape S) :
    ∃ z, History.fill slot x = .ok z := by
  refine hs.combineParts (f := fun a u => do NDArray.storedIn a (← toArray u)) hx
    fun p _ a b ha hb => ?_
  rw [toArray_leaf, (NDArray.asArray_of_firm hb.notBare).2]
  exact NDArray.storedIn_answers (hb.shape.trans ha.shape.symm)

end Vec

/-! ## Offers -/

/-- An offer of vectors of these shapes, of fractions of any kind. -/
structure Offer.Fractional (S : Structure) (o : Offer R) : Prop where
  xbar : o.xbar.Fractional S
  xbarPrev : o.xbarPrev.Fractional S
  r : o.r.Fractional S
  rPrev : o.rPrev.Fractional S

/-- Whatever has the shapes of a ring is subtracted, multiplied and stored there. -/
theorem Offer.Fractional.answered {x : Vec R} {o : Offer R} (ho : o.Fractional x.spec) :
    o.Answered x.spec := by
  have slot : (Vec.zeros x.spec : Vec R).OfShape x.spec := (Vec.zeros_keeps _).ofShape
  obtain ⟨s, moved, hs⟩ := ho.xbar.sub ho.xbarPrev.ofShape
  obtain ⟨y, turned, hy⟩ := ho.r.sub ho.rPrev.ofShape
  obtain ⟨curvature, product⟩ := hs.ofShape.inner hy
  obtain ⟨s', filled⟩ := slot.fill hs.ofShape
  obtain ⟨y', filled'⟩ := slot.fill hy.ofShape
  exact History.answered_of_stored moved turned product filled filled'

namespace History

variable {x r q : Vec R} {M : Nat} {h₀ h : History R} {os : List (Offer R)}
  {ps older : List (SecantPair R)} {newest p : SecantPair R} {k : R} {e : Fault}

/-- The pairs that are read are shaped as the ring is. -/
theorem recent_keeps (offered : (empty x M).offerAll os = .ok h) :
    ∀ p ∈ h.recent, p.Keeps x.spec := by
  intro p inside
  obtain ⟨_, _, stored⟩ := exists_of_mem_right (recent_stored offered) inside
  exact ⟨(Vec.zeros_keeps _).fill stored.s, (Vec.zeros_keeps _).fill stored.y⟩

/-! ## The two loops -/

/-- The factor between the loops, `1 / (ρ ‖y‖²)` of the newest pair. -/
def factor (newest : SecantPair R) : Except Fault R := do
  Scalar.quotient 1 (newest.rho * (← newest.y.sqnorm))

theorem scaling_eq (newest : SecantPair R) (q : Vec R) :
    scaling newest q = (do pure (q.scale (← factor newest))) := by
  unfold scaling factor
  cases newest.y.sqnorm <;> rfl

/-- Nothing but the scaling is refused: there is a vector that the loops ask it for, and they
answer or refuse as it does. -/
theorem twoLoop_scaled (each : ∀ p ∈ ps, p.Keeps x.spec) (hq : q.Fractional x.spec) :
    ∃ q', q'.Fractional x.spec ∧ ∀ start : Vec R → Except Fault (Vec R),
      (∀ e, start q' = .error e → twoLoop start ps q = .error e) ∧
      ∀ z, start q' = .ok z → z.Fractional x.spec →
        ∃ w, twoLoop start ps q = .ok w ∧ w.Fractional x.spec := by
  induction ps generalizing q with
  | nil => exact ⟨q, hq, fun start => ⟨fun _ => id, fun z answered hz => ⟨z, answered, hz⟩⟩⟩
  | cons p older ih =>
      obtain ⟨keeps, rest⟩ := List.forall_mem_cons.mp each
      have hs : p.s.OfShape x.spec := keeps.s.ofShape
      have hy : p.y.OfShape x.spec := keeps.y.ofShape
      obtain ⟨α, product⟩ := hs.inner hq
      obtain ⟨lower, lowered, hl⟩ := hq.sub (hy.scale (p.rho * α)).ofShape
      obtain ⟨q', hq', scaled⟩ := ih rest hl
      refine ⟨q', hq', fun start => ⟨fun e refused => ?_, fun z answered hz => ?_⟩⟩
      · have down := (scaled start).1 e refused
        simp only [twoLoop, product, bind, Except.bind, lowered, down]
      · obtain ⟨w, down, hw⟩ := (scaled start).2 z answered hz
        obtain ⟨β, product'⟩ := hy.inner hw
        obtain ⟨up, raised, hu⟩ := hw.add (hs.scale (p.rho * α - p.rho * β)).ofShape
        exact ⟨up, by simp only [twoLoop, product, bind, Except.bind, lowered, down, product',
          raised], hu⟩

section Along

variable (each : ∀ p ∈ newest :: older, p.Keeps x.spec) (hr : r.Fractional x.spec)
  (finite : r.isFinite = .ok true)

include each hr finite

/-- Without a factor there is no direction. -/
theorem directionAlong_refuses (refused : factor newest = .error e) :
    directionAlong (newest :: older) r = .error e := by
  obtain ⟨q', _, scaled⟩ := twoLoop_scaled each hr
  have down := (scaled (scaling newest)).1 e (by rw [scaling_eq, refused]; rfl)
  simp only [directionAlong, finite, bind, Except.bind, if_true, down]

/-- With a factor there is one. -/
theorem directionAlong_answers (answered : factor newest = .ok k) :
    ∃ d, directionAlong (newest :: older) r = .ok d ∧ d.Fractional x.spec := by
  obtain ⟨q', hq', scaled⟩ := twoLoop_scaled each hr
  obtain ⟨z, looped, hz⟩ := (scaled (scaling newest)).2 (q'.scale k)
    (by rw [scaling_eq, answered]; rfl) (hq'.ofShape.scale k)
  simp only [directionAlong, finite, bind, Except.bind, if_true, looped]
  split
  · exact ⟨_, rfl, hz.ofShape.scale _⟩
  · exact ⟨_, rfl, hr.ofShape.scale _⟩

end Along

/-- The factor of a pair in a slot: the square is not finite, or the divisor is zero, or there
is one. -/
theorem factor_outcomes (keeps : newest.Keeps x.spec) :
    (newest.y.sqnorm = .error .overflow ∧ factor newest = .error .overflow) ∨
      ∃ square, newest.y.sqnorm = .ok square ∧
        ((Scalar.eq (newest.rho * square) 0 = true ∧ factor newest = .error .divisionByZero) ∨
          (Scalar.eq (newest.rho * square) 0 = false ∧ ∃ k, factor newest = .ok k)) := by
  unfold factor Scalar.quotient
  rcases keeps.y.ofShape.sqnorm with ⟨square, answered⟩ | refused
  · refine .inr ⟨square, answered, ?_⟩
    rw [answered]
    simp only [bind, Except.bind]
    cases Scalar.eq (newest.rho * square) 0 with
    | true => exact .inl ⟨rfl, rfl⟩
    | false => exact .inr ⟨rfl, _, rfl⟩
  · rw [refused]
    exact .inl ⟨rfl, rfl⟩

/-! ## Histories that are reached -/

/-- A history that is offered vectors of its shapes, whatever their entries, answers.  It has a
direction for every such vector, unless it holds a pair, the vector is finite, and the newest
pair in it has a change of residual whose square is not finite or makes the divisor zero. -/
theorem direction_outcomes (begun : ofCapacity x (.whole M) = .ok h₀)
    (offers : ∀ o ∈ os, o.Fractional x.spec) :
    ∃ h, h₀.offerAll os = .ok h ∧
      List.Forall₂ (SecantPair.StoredAs x.spec) ((accepted os).reverse.take M) h.recent ∧
      ∀ r, r.Fractional x.spec → ∃ finite, r.isFinite = .ok finite ∧
        (h.recent = [] ∨ finite = false → h.direction r = .ok (r.scale (-1))) ∧
        ∀ newest older, h.recent = newest :: older → finite = true →
          (newest.y.sqnorm = .error .overflow ∧ h.direction r = .error .overflow) ∨
          ∃ square, newest.y.sqnorm = .ok square ∧
            ((Scalar.eq (newest.rho * square) 0 = true ∧
                h.direction r = .error .divisionByZero) ∨
              (Scalar.eq (newest.rho * square) 0 = false ∧
                ∃ d, h.direction r = .ok d ∧ d.Fractional x.spec)) := by
  obtain rfl := ofCapacity_accepts begun
  obtain ⟨h, offered⟩ := empty_answers x M fun o inside => (offers o inside).answered
  refine ⟨h, offered, recent_stored offered, fun r hr => ?_⟩
  obtain ⟨finite, asked⟩ := hr.ofShape.isFinite
  refine ⟨finite, asked, ?_, ?_⟩
  · rintro (none | rfl)
    · rw [direction_eq, none]
      rfl
    · rw [direction_eq]
      unfold directionAlong
      split
      · rfl
      · rw [asked]
        rfl
  · rintro newest older recent rfl
    have each : ∀ p ∈ newest :: older, p.Keeps x.spec := recent ▸ recent_keeps offered
    rw [direction_eq, recent]
    rcases factor_outcomes (each newest List.mem_cons_self) with
      ⟨large, refused⟩ | ⟨square, answered, ⟨zero, refused⟩ | ⟨nonzero, k, found⟩⟩
    · exact .inl ⟨large, directionAlong_refuses each hr asked refused⟩
    · exact .inr ⟨square, answered, .inl ⟨zero, directionAlong_refuses each hr asked refused⟩⟩
    · exact .inr ⟨square, answered, .inr ⟨nonzero, directionAlong_answers each hr asked found⟩⟩

/-! ## What is not a number, and what is imaginary -/

section Single

variable {z : ℂ}

theorem single_fractional (a : Exact) : (single a).Fractional (single (0 : Exact)).spec :=
  ⟨rfl, .cons ⟨⟨rfl, rfl⟩, nofun⟩ .nil⟩

theorem complexSingle_fractional (z : ℂ) :
    (complexSingle z).Fractional (single (0 : Exact)).spec :=
  ⟨rfl, .cons ⟨⟨rfl, rfl⟩, nofun⟩ .nil⟩

theorem single_sqnorm (a : ℝ) :
    (single (Exact.real a)).sqnorm = .ok (.real (a ^ 2)) := by
  rw [(single_denotes (k := .real .double) a).fits.sqnorm_eq,
    norm_point_of_denotes (single_denotes a)]
  simp

/-- An offer whose residuals are no numbers, and one of a complex number. -/
noncomputable def strangeOffers (z : ℂ) : List (Offer Exact) :=
  [⟨single (.real 1), single (.real 0), single .undefined, single .undefined⟩, diagonalOffer z]

theorem strangeOffers_fractional (z : ℂ) :
    ∀ o ∈ strangeOffers z, o.Fractional (single (0 : Exact)).spec := by
  intro o inside
  simp only [strangeOffers, List.mem_cons, List.not_mem_nil, or_false] at inside
  rcases inside with rfl | rfl
  · exact ⟨single_fractional _, single_fractional _, single_fractional _, single_fractional _⟩
  · exact ⟨complexSingle_fractional z, complexSingle_fractional 0, complexSingle_fractional z,
      complexSingle_fractional 0⟩

/-- The first one is skipped. -/
theorem accepted_strange (large : 1 ≤ ‖z‖) :
    accepted (strangeOffers z) = [⟨complexSingle z, complexSingle z, .real (1 / ‖z‖ ^ 2)⟩] :=
  accepted_diagonal large

end Single

/-- After an offer of what is not a number and one that is accepted there is a direction, for
what is not a number too. -/
theorem strange_direction_outcomes : ∃ h : History Exact,
    ofCapacity (single (0 : Exact)) (.whole 1) = .ok (empty (single (0 : Exact)) 1) ∧
      (∀ o ∈ strangeOffers 1, o.Fractional (single (0 : Exact)).spec) ∧
      (empty (single (0 : Exact)) 1).offerAll (strangeOffers 1) = .ok h ∧
      h.direction (single .undefined) = .ok ((single .undefined).scale (-1)) ∧
      ∃ d, h.direction (single (.real 1)) = .ok d ∧ d.Fractional (single (0 : Exact)).spec := by
  have begun : ofCapacity (single (0 : Exact)) (.whole 1) =
      .ok (empty (single (0 : Exact)) 1) := rfl
  obtain ⟨h, offered, _, outcomes⟩ := direction_outcomes begun (strangeOffers_fractional 1)
  have recent := recent_of_diagonal (accepted_strange (by simp)) offered
  refine ⟨h, begun, strangeOffers_fractional 1, offered, ?_, ?_⟩
  · obtain ⟨finite, asked, without, _⟩ := outcomes _ (single_fractional .undefined)
    cases asked
    exact without (.inr rfl)
  · have square := single_sqnorm 1
    obtain ⟨finite, asked, _, within⟩ := outcomes _ (single_fractional (.real 1))
    cases asked
    rcases within _ _ recent rfl with ⟨large, _⟩ | ⟨q, answered, ⟨zero, _⟩ | ⟨_, found⟩⟩
    · cases square.symm.trans large
    · cases square.symm.trans answered
      simp at zero
    · exact found

/-- With the step and the change of residual both `i` an accepted pair leaves zeros in a ring of
real numbers, and there is no direction, not even the negative gradient. -/
theorem imaginary_pair_has_no_direction : ∃ os : List (Offer Exact), ∃ h : History Exact,
    ∃ r : Vec Exact,
      ofCapacity (single (0 : Exact)) (.whole 1) = .ok (empty (single (0 : Exact)) 1) ∧
      (∀ o ∈ os, o.Fractional (single (0 : Exact)).spec) ∧
      (empty (single (0 : Exact)) 1).offerAll os = .ok h ∧
      r.Fractional (single (0 : Exact)).spec ∧ h.direction r = .error .divisionByZero := by
  have offers := strangeOffers_fractional Complex.I
  obtain ⟨h, offered⟩ := empty_answers (single (0 : Exact)) 1 fun o inside =>
    (offers o inside).answered
  have recent := recent_of_diagonal (accepted_strange (by simp)) offered
  have each := recent ▸ recent_keeps offered
  refine ⟨_, h, single (.real 1), rfl, offers, offered, single_fractional _, ?_⟩
  rw [direction_eq, recent]
  refine directionAlong_refuses each (single_fractional _) rfl ?_
  simp [factor, single_sqnorm, bind, Except.bind, Scalar.quotient]

end History

end ForwardBackward
