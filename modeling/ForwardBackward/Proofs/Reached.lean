/-
# ForwardBackward.Proofs.Reached -- what is in the slots, in exact arithmetic

A ring is shaped after a vector of real and complex arrays, and what it is offered
has the shapes of that vector, in any real or complex kinds (`Offer.Fits`).  Then
every offer is answered (`offerAll_answers`), and every filled slot holds two
vectors of the structure and a positive factor, `1 / ⟨s, y⟩` of the pair that was
offered (`recent_curved`).

The slot need not hold that pair: numbers stored as real ones lose their
imaginary parts.  Where the offered vectors have none (`Vec.Suits`), it does
(`recent_held`).
-/
import ForwardBackward.Proofs.Queue
import ForwardBackward.Proofs.Secants

namespace ForwardBackward

set_option autoImplicit false

open scoped InnerProductSpace

/-- A structure of real and complex arrays. -/
def Structure.Inexact (S : Structure) : Prop := ∀ p ∈ S.leaves, ∀ w, p.kind ≠ .whole w

theorem Entries.length_numbers (e : Entries Exact) : e.numbers.length = e.length := by
  cases e <;> simp [numbers, length]

/-! ## Arrays -/

namespace NDArray

variable {p : Spec} {a b c slot : NDArray Exact}

/-- An array of finite numbers of this shape, without imaginary parts if the kind is real. -/
structure Suits (p : Spec) (a : NDArray Exact) : Prop where
  shape : a.shape = p.shape
  denotes : ∃ zs, a.entries.Denotes zs ∧ (p.kind.isComplex = true ∨ ∀ z ∈ zs, z.im = 0)

theorem Suits.of_sub (ha : a.Suits p) (hb : b.Suits p) (difference : a.sub b = .ok c) :
    c.Suits p := by
  obtain ⟨zs, denotes, real⟩ := ha.denotes
  obtain ⟨ws, denotes', real'⟩ := hb.denotes
  obtain ⟨c', made, shape, denoted⟩ := sub_denotes denotes denotes' (ha.shape.trans hb.shape.symm)
  cases difference.symm.trans made
  refine ⟨shape.trans ha.shape, _, denoted, ?_⟩
  rcases real with complex | real
  · exact .inl complex
  · rcases real' with complex | real'
    · exact .inl complex
    · refine .inr fun z inside => ?_
      rw [← List.map_uncurry_zip_eq_zipWith] at inside
      obtain ⟨⟨u, v⟩, pair, rfl⟩ := List.mem_map.mp inside
      obtain ⟨left, right⟩ := List.of_mem_zip pair
      simp [Function.uncurry, real u left, real' v right]

/-- Stored over a slot, the numbers stay what they are. -/
theorem Suits.storedIn (hs : slot.Keeps p) (inexact : ∀ w, p.kind ≠ .whole w) (ha : a.Suits p)
    (stored : slot.storedIn a.enter = .ok c) : c.entries.numbers = a.entries.numbers := by
  obtain ⟨zs, denotes, real⟩ := ha.denotes
  have same : a.enter.shape = slot.shape := ha.shape.trans hs.shape.symm
  unfold NDArray.storedIn at stored
  split at stored
  · next empty =>
      -- there are no numbers on either side
      obtain rfl := Except.ok.inj stored
      have none : ∀ b : NDArray Exact, volume b.shape = 0 → b.entries.numbers = [] := by
        intro b nothing
        refine List.length_eq_zero_iff.mp ?_
        rw [Entries.length_numbers, b.fits, nothing]
      rw [none slot empty, none a (by rw [ha.shape, ← hs.shape]; exact empty)]
  · split at stored
    · cases stored
      have entered := denotes_enter denotes
      rw [denotes.numbers_eq]
      simp only [hs.kind]
      refine Entries.Denotes.numbers_eq ?_
      cases kind : p.kind with
      | whole w => exact absurd kind (inexact w)
      | complex q => exact entered.cast_complex q
      | real q =>
          have real : ∀ z ∈ zs, z.im = 0 := real.resolve_left (by simp [kind, Kind.isComplex])
          have kept : zs.map (fun z => (z.re : ℂ)) = zs := by
            have same : ∀ z ∈ zs, (z.re : ℂ) = z := fun z inside =>
              Complex.ext rfl (real z inside).symm
            rw [List.map_congr_left same, List.map_id']
          rw [← kept]
          exact entered.cast_real q
    · cases stored

end NDArray

namespace Vec

variable {S : Structure} {x y z slot : Vec Exact}

/-- A vector of finite numbers of these shapes, without imaginary parts where a kind is real. -/
def Suits (S : Structure) (x : Vec Exact) : Prop := Tree.Leafwise NDArray.Suits S x

theorem fits_of_leafwise {rel : Spec → NDArray Exact → Prop}
    (each : ∀ p a, rel p a → a.shape = p.shape ∧ ∃ zs, a.entries.Denotes zs)
    (leafwise : Tree.Leafwise rel S x) : x.Fits S := by
  have leaves : ∀ {ps : List Spec} {as : List (NDArray Exact)},
      List.Forall₂ rel ps as → ∃ us, LeavesDenote as ps us := by
    intro ps as related
    induction related with
    | nil => exact ⟨[], .nil⟩
    | cons head _ ih =>
        obtain ⟨shape, zs, denotes⟩ := each _ _ head
        obtain ⟨us, rest⟩ := ih
        exact ⟨zs ++ us, .cons shape denotes rest⟩
  obtain ⟨us, leaves⟩ := leaves leafwise.leaves
  exact ⟨us, leafwise.skeleton, leaves⟩

theorem Suits.fits (hx : x.Suits S) : x.Fits S :=
  fits_of_leafwise (fun _ _ suits => ⟨suits.shape, suits.denotes.imp fun _ known => known.1⟩) hx

theorem Suits.of_sub (hx : x.Suits S) (hy : y.Suits S) (difference : x.sub y = .ok z) :
    z.Suits S :=
  Tree.Leafwise.of_combine hx hy difference fun _ _ _ _ ha hb made => ha.of_sub hb made

theorem numbers_congr (same : List.Forall₂
    (fun a b : NDArray Exact => b.entries.numbers = a.entries.numbers) x.leaves y.leaves) :
    y.numbers = x.numbers := by
  have numbers : ∀ {as bs : List (NDArray Exact)},
      List.Forall₂ (fun a b : NDArray Exact => b.entries.numbers = a.entries.numbers) as bs →
      (bs.flatMap fun a => a.entries.numbers) = as.flatMap fun a => a.entries.numbers := by
    intro as bs same
    induction same with
    | nil => rfl
    | cons head _ ih => rw [List.flatMap_cons, List.flatMap_cons, head, ih]
  exact numbers same

/-- The same numbers are the same point, in whatever kinds. -/
theorem point_congr (same : List.Forall₂
    (fun a b : NDArray Exact => b.entries.numbers = a.entries.numbers) x.leaves y.leaves) :
    y.point S = x.point S := by
  unfold point
  rw [numbers_congr same]

/-- Stored over a slot, a vector stays the point that it is. -/
theorem Suits.fill_point (hs : slot.Keeps S) (inexact : S.Inexact) (hx : x.Suits S)
    (stored : History.fill slot x = .ok z) : z.point S = x.point S := by
  obtain ⟨_, made⟩ := Tree.forall_of_combineParts_same
    (hs.skeleton.trans hx.skeleton.symm) stored
  have kept := (List.forall₂_and_left _ _).mpr ⟨inexact, hs.leaves⟩
  have slots : List.Forall₂ (fun b a : NDArray Exact =>
      ∃ p, (∀ w, p.kind ≠ .whole w) ∧ a.Keeps p ∧ b.Suits p) x.leaves slot.leaves :=
    forall_of_common hx.leaves kept fun p b a suits keeps => ⟨p, keeps.1, keeps.2, suits⟩
  have numbers : List.Forall₂ (fun b c : NDArray Exact => c.entries.numbers = b.entries.numbers)
      x.leaves z.leaves := by
    refine forall_of_zip (f := fun a b c => (do a.storedIn (← toArray (.leaf b))) = .ok c) slots
      (List.forall₂_same.mpr fun _ _ => rfl) ?_ made
    rintro b a _ c ⟨p, inexact, keeps, suits⟩ rfl stored
    obtain ⟨zs, denotes, _⟩ := suits.denotes
    rw [toArray_leaf, NDArray.asArray_of_denotes denotes] at stored
    exact suits.storedIn keeps inexact stored
  exact point_congr numbers

theorem zeros_fits (inexact : S.Inexact) : (zeros S : Vec Exact).Fits S := by
  refine fits_of_leaves rfl ?_ ?_
  · simp [zeros, Tree.map, NDArray.zeros]
  · intro a inside
    obtain ⟨p, member, rfl⟩ := List.mem_map.mp inside
    exact ⟨_, Entries.zeros_denotes _ (inexact p member)⟩

theorem Fits.fill_answers (hs : slot.Fits S) (hx : x.Fits S) :
    ∃ z, History.fill slot x = .ok z := by
  obtain ⟨vs, hs⟩ := hs
  obtain ⟨us, hx⟩ := hx
  obtain ⟨cs, ws, each, leaves⟩ := hs.leaves.stored hx.leaves
  obtain ⟨fits, done⟩ := Tree.combineParts_same
    (f := fun a u => do NDArray.storedIn a (← toArray u))
    (hs.skeleton.trans hx.skeleton.symm) each
  exact ⟨_, done⟩

end Vec

/-! ## Offers -/

/-- An offer of finite vectors of a structure. -/
structure Offer.Fits (S : Structure) (o : Offer Exact) : Prop where
  xbar : o.xbar.Fits S
  xbarPrev : o.xbarPrev.Fits S
  r : o.r.Fits S
  rPrev : o.rPrev.Fits S

/-- An offer of vectors without imaginary parts where a structure has real numbers. -/
structure Offer.Suits (S : Structure) (o : Offer Exact) : Prop where
  xbar : o.xbar.Suits S
  xbarPrev : o.xbarPrev.Suits S
  r : o.r.Suits S
  rPrev : o.rPrev.Suits S

theorem Offer.Suits.fits {S : Structure} {o : Offer Exact} (suits : o.Suits S) : o.Fits S :=
  ⟨suits.xbar.fits, suits.xbarPrev.fits, suits.r.fits, suits.rPrev.fits⟩

/-- Two vectors of a structure and a positive factor. -/
structure SecantPair.Curved (S : Structure) (p : SecantPair Exact) : Prop extends Fits S p where
  positive : 0 < p.rho.toReal

/-- The points that the vectors of a pair are. -/
noncomputable def SecantPair.points (S : Structure) (p : SecantPair Exact) : S.Space × S.Space :=
  (p.s.point S, p.y.point S)

namespace History

variable {S : Structure} {M q : Nat} {Q : List (SecantPair Exact)} {h h' : History Exact}
  {o : Offer Exact} {os : List (Offer Exact)} {raw p : SecantPair Exact}

/-- An accepted pair has a positive curvature, and its factor is the reciprocal. -/
theorem accepted_pair (fits : o.Fits S) (pair : o.pair? = some p) :
    p.s.Fits S ∧ p.y.Fits S ∧ 0 < ⟪p.s.point S, p.y.point S⟫_ℝ ∧
      p.rho = .real (1 / ⟪p.s.point S, p.y.point S⟫_ℝ) := by
  obtain ⟨moved, turned, curvature, product, accepted, rho⟩ := Offer.pair?_eq_some.mp pair
  have hs := (fits.xbar.of_sub fits.xbarPrev moved).1
  have hy := (fits.r.of_sub fits.rPrev turned).1
  cases product.symm.trans (hs.inner_eq hy)
  have positive := curvature_pos hs hy accepted
  refine ⟨hs, hy, positive, ?_⟩
  rw [rho, Exact.one_eq, Exact.real_div _ _ positive.ne']

theorem pair_suits (suits : o.Suits S) (pair : o.pair? = some p) :
    p.s.Suits S ∧ p.y.Suits S := by
  obtain ⟨moved, turned, _⟩ := Offer.pair?_eq_some.mp pair
  exact ⟨suits.xbar.of_sub suits.xbarPrev moved, suits.r.of_sub suits.rPrev turned⟩

theorem answered_of_fits (inexact : S.Inexact) (fits : o.Fits S) : o.Answered S := by
  obtain ⟨s, moved, hs, _⟩ := fits.xbar.sub fits.xbarPrev
  obtain ⟨y, turned, hy, _⟩ := fits.r.sub fits.rPrev
  obtain ⟨s', filled⟩ := (Vec.zeros_fits inexact).fill_answers hs
  obtain ⟨y', filled'⟩ := (Vec.zeros_fits inexact).fill_answers hy
  exact answered_of_stored moved turned (hs.inner_eq hy) filled filled'

/-- An accepted pair as it is stored. -/
theorem stored_curved (inexact : S.Inexact) (fits : o.Fits S) (pair : o.pair? = some raw)
    (stored : raw.StoredAs S p) : p.Curved S := by
  obtain ⟨hs, hy, positive, rho⟩ := accepted_pair fits pair
  have zeros := Vec.zeros_fits inexact
  have factor : p.rho = .real (1 / ⟪raw.s.point S, raw.y.point S⟫_ℝ) := stored.rho.trans rho
  refine ⟨⟨zeros.fill hs stored.s, zeros.fill hy stored.y, _, factor⟩, ?_⟩
  rw [factor]
  exact one_div_pos.mpr positive

theorem stored_points (inexact : S.Inexact) (suits : o.Suits S) (pair : o.pair? = some raw)
    (stored : raw.StoredAs S p) : p.points S = raw.points S := by
  obtain ⟨hs, hy⟩ := pair_suits suits pair
  have keeps : (Vec.zeros S : Vec Exact).Keeps S := Vec.zeros_keeps S
  exact Prod.ext (hs.fill_point keeps inexact stored.s) (hy.fill_point keeps inexact stored.y)

section Recent

variable {x : Vec Exact}

/-- What is read, with the offers that it comes from. -/
theorem recent_offered (offered : (empty x M).offerAll os = .ok h) :
    List.Forall₂ (fun raw p => (∃ o ∈ os, o.pair? = some raw) ∧ raw.StoredAs x.spec p)
      ((accepted os).reverse.take M) h.recent := by
  refine (List.forall₂_and_left _ _).mpr ⟨?_, recent_stored offered⟩
  intro raw inside
  exact List.mem_filterMap.mp (List.mem_reverse.mp (List.mem_of_mem_take inside))

theorem recent_curved (inexact : x.spec.Inexact) (fits : ∀ o ∈ os, o.Fits x.spec)
    (offered : (empty x M).offerAll os = .ok h) : ∀ p ∈ h.recent, p.Curved x.spec := by
  intro p inside
  obtain ⟨raw, _, ⟨o, member, pair⟩, stored⟩ :=
    exists_of_mem_right (recent_offered offered) inside
  exact stored_curved inexact (fits o member) pair stored

/-- The points that a ring holds are those of the last accepted pairs. -/
theorem recent_points (inexact : x.spec.Inexact) (suits : ∀ o ∈ os, o.Suits x.spec)
    (offered : (empty x M).offerAll os = .ok h) :
    h.recent.map (SecantPair.points x.spec) =
      ((accepted os).reverse.take M).map (SecantPair.points x.spec) := by
  have each : List.Forall₂ (fun raw p => SecantPair.points x.spec raw = p.points x.spec)
      ((accepted os).reverse.take M) h.recent := by
    refine (recent_offered offered).imp ?_
    rintro raw p ⟨⟨o, inside, pair⟩, stored⟩
    exact (stored_points inexact (suits o inside) pair stored).symm
  rw [eq_comm, ← List.forall₂_eq_eq_eq, List.forall₂_map_left_iff, List.forall₂_map_right_iff]
  exact each

end Recent

end History

end ForwardBackward
