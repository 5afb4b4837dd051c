/-
# ForwardBackward.Proofs.Boxes -- bounds that are repeated to the shape of an array

The bounds of a box are arrays, or bare numbers, that are repeated to the shape of
every array they meet.  `NDArray.boundsOn s b` is what the bound `b` is at the
entries of an array of shape `s`, whole numbers and infinities among it, and
`NDArray.Box s lower upper` says that the bounds are in order there.

* `NDArray.clip_denotes` -- every entry is moved to the nearest number between its
  bounds.
* `NDArray.isInside_denotes` -- whether the entries of an array lie between their
  bounds is found out without a fault.  Complex entries are compared by their real
  parts first, so they are not found inside unless their real parts are.
-/
import ForwardBackward.Proofs.Broadcasts
import ForwardBackward.Proofs.Points
import ForwardBackward.Regularizer

namespace ForwardBackward

set_option autoImplicit false

/-! ## Bounds -/

namespace NDArray

/-- What a bound is at the entries of an array of shape `s`. -/
noncomputable def boundsOn (s : List Nat) (b : NDArray Exact) : List Exact :=
  (b.enter.expandTo s).entries.reals .double

/-- An array of real numbers that is repeated to the shape `s` where it meets one of that shape. -/
structure Bounds (s : List Nat) (b : NDArray Exact) : Prop where
  array : ∃ c, b.asArray = .ok c
  real : b.kind.isComplex = false
  meets : broadcast b.shape s = some s

variable {s : List Nat} {b c d : NDArray Exact}

theorem reals_exact (e : Entries Exact) (p : Precision) : e.reals p = e.reals .double := by
  cases e <;> simp [Entries.reals]

theorem reals_real (p q : Precision) (xs : List Exact) : (Entries.real p xs).reals q = xs :=
  (List.map_congr_left fun x _ => Precision.convert_exact p q x).trans (List.map_id xs)

theorem isComplex_expandTo (b : NDArray Exact) :
    (b.enter.expandTo s).entries.kind.isComplex = b.kind.isComplex := by
  rw [← isComplex_enter]
  exact congrArg Kind.isComplex (Entries.kind_gather _ _ _)

theorem length_boundsOn : (b.boundsOn s).length = volume s := by
  rw [boundsOn, Entries.length_reals]
  exact Entries.length_gather _ _ _

/-- A kind without complex numbers meets real numbers that are not bare in real numbers. -/
theorem join_real {k : Kind} {p : Precision} (real : k.isComplex = false) (firm : p ≠ .bare) :
    ∃ q, q ≠ .bare ∧ k.join (.real p) = .real q := by
  cases k with
  | whole w => exact ⟨p, firm, congrArg Kind.real (if_neg firm)⟩
  | real q => exact ⟨q.join p, by cases p <;> cases q <;> simp_all [Precision.join], rfl⟩
  | complex q => cases real

/-- A bound and an array of real numbers, entry by entry. -/
theorem zipWith_bound {f : Rule Exact} {p q : Precision} {xs : List Exact} (bounds : b.Bounds s)
    (entries : c.entries = .real p xs) (shape : c.shape = s) (firm : p ≠ .bare)
    (joined : b.enter.kind.join (.real p) = .real q) (made : zipWith f b c = .ok d) :
    d.shape = s ∧ d.entries = .real q (List.zipWith (f.real q) (b.boundsOn s) xs) := by
  subst shape
  have notBare := isBare_of_real entries firm
  have shape := (zipWith_entries bounds.meets notBare made).1
  refine ⟨shape, ?_⟩
  rw [← show c.kind = .real p from congrArg Entries.kind entries] at joined
  rw [zipWith_reads notBare joined made, shape, readAs_self notBare, entries, reals_real, readAs,
    reals_exact]
  rfl

end NDArray

/-! ## One entry and its bounds -/

/-- A lower and an upper bound in order, the lower one a number or `-∞`, the upper one a number
or `∞`. -/
structure Ordered (b : Exact × Exact) : Prop where
  le : Scalar.le b.1 b.2 = true
  lower : b.1 ≠ .infinite false
  upper : b.2 ≠ .infinite true

/-- A number whose real part lies between the bounds. -/
def Between (b : Exact × Exact) (z : ℂ) : Prop :=
  Scalar.le b.1 (.real z.re) = true ∧ Scalar.le (.real z.re) b.2 = true

theorem abs_max_sub_le {l x y : ℝ} (below : l ≤ y) : |max l x - x| ≤ |y - x| := by
  rcases le_total l x with inside | outside
  · rw [max_eq_right inside, sub_self, abs_zero]
    exact abs_nonneg _
  · rw [max_eq_left outside, abs_of_nonneg (sub_nonneg.mpr outside)]
    exact le_trans (by linarith) (le_abs_self _)

theorem abs_min_sub_le {u x y : ℝ} (above : y ≤ u) : |min u x - x| ≤ |y - x| := by
  rcases le_total x u with inside | outside
  · rw [min_eq_right inside, sub_self, abs_zero]
    exact abs_nonneg _
  · rw [min_eq_left outside, abs_of_nonpos (sub_nonpos.mpr outside)]
    exact le_trans (by linarith) (neg_le_abs _)

/-- The nearest number between two bounds. -/
theorem Ordered.clamp {b : Exact × Exact} (ordered : Ordered b) (x : ℝ) :
    ∃ t : ℝ, Scalar.min b.2 (Scalar.max b.1 (.real x)) = .real t ∧ Between b t ∧
      ∀ z, Between b z → |t - x| ≤ |z.re - x| := by
  obtain ⟨lower, upper⟩ := b
  obtain ⟨le, proper, proper'⟩ := ordered
  simp only [Between, Complex.ofReal_re] at *
  cases lower with
  | undefined => cases le
  | real l =>
      cases upper with
      | undefined => cases le
      | real u =>
          rw [Exact.le_real] at le
          refine ⟨min u (max l x), by rw [Exact.max_real, Exact.min_real], ?_, fun z between => ?_⟩
          · rw [Exact.le_real, Exact.le_real]
            exact ⟨le_min le (le_max_left _ _), min_le_left _ _⟩
          · rw [Exact.le_real, Exact.le_real] at between
            rcases le_total x l with lower | higher
            · rw [min_eq_right (max_le le (lower.trans le))]
              exact abs_max_sub_le between.1
            · rw [max_eq_right higher]
              exact abs_min_sub_le between.2
      | infinite negative =>
          cases negative with
          | true => exact absurd rfl proper'
          | false =>
              refine ⟨max l x, by rw [Exact.max_real, Exact.min_top], ?_, fun z between => ?_⟩
              · rw [Exact.le_real]
                exact ⟨le_max_left _ _, Exact.le_top _⟩
              · rw [Exact.le_real] at between
                exact abs_max_sub_le between.1
  | infinite negative =>
      cases negative with
      | false => exact absurd rfl proper
      | true =>
          rw [Exact.max_bottom]
          cases upper with
          | undefined => cases le
          | real u =>
              refine ⟨min u x, by rw [Exact.min_real], ?_, fun z between => ?_⟩
              · rw [Exact.le_real]
                exact ⟨Exact.bottom_le _, min_le_left _ _⟩
              · rw [Exact.le_real] at between
                exact abs_min_sub_le between.2
          | infinite negative =>
              cases negative with
              | true => exact absurd rfl proper'
              | false =>
                  refine ⟨x, Exact.min_top x, ⟨Exact.bottom_le _, Exact.le_top _⟩, ?_⟩
                  intro z _
                  rw [sub_self, abs_zero]
                  exact abs_nonneg _

namespace Between

/-- What is nearest to `x` among the real parts is nearest to it among the numbers. -/
theorem sq_norm_sub_le {t x : ℝ} {z : ℂ} (nearest : |t - x| ≤ |z.re - x|) :
    ‖(t : ℂ) - x‖ ^ 2 ≤ ‖z - x‖ ^ 2 := by
  have part := Complex.abs_re_le_norm (z - x)
  rw [Complex.sub_re, Complex.ofReal_re] at part
  rw [← Complex.ofReal_sub, Complex.norm_real, Real.norm_eq_abs]
  exact pow_le_pow_left₀ (abs_nonneg _) (nearest.trans part) 2

/-- The nearest numbers between bounds, entry by entry. -/
theorem clamp_list {lows ups : List Exact} {xs : List ℝ} (count : lows.length = xs.length)
    (count' : ups.length = xs.length) (ordered : ∀ b ∈ lows.zip ups, Ordered b) :
    ∃ ts : List ℝ,
      List.zipWith Scalar.min ups (List.zipWith Scalar.max lows (xs.map Exact.real)) =
        ts.map Exact.real ∧
      List.Forall₂ Between (lows.zip ups) (ts.map (↑)) ∧
      ∀ us, List.Forall₂ Between (lows.zip ups) us →
        (List.zipWith (fun z w : ℂ => ‖z - w‖ ^ 2) (ts.map (↑)) (xs.map (↑))).sum ≤
          (List.zipWith (fun z w : ℂ => ‖z - w‖ ^ 2) us (xs.map (↑))).sum := by
  induction xs generalizing lows ups with
  | nil =>
      obtain rfl := List.length_eq_zero_iff.mp count
      refine ⟨[], by simp, .nil, fun us _ => by simp⟩
  | cons x xs ih =>
      cases lows with
      | nil => cases count
      | cons lower lows =>
          cases ups with
          | nil => cases count'
          | cons upper ups =>
              obtain ⟨t, clamped, between, nearest⟩ :=
                (ordered _ List.mem_cons_self).clamp x
              obtain ⟨ts, rest, within, least⟩ := ih (Nat.succ.inj count) (Nat.succ.inj count')
                fun b inside => ordered b (List.mem_cons_of_mem _ inside)
              refine ⟨t :: ts, ?_, .cons between within, ?_⟩
              · simp only [List.map_cons, List.zipWith_cons_cons, rest]
                rw [clamped]
              · intro us inside
                cases inside with
                | cons here others =>
                    have closer := sq_norm_sub_le (nearest _ here)
                    have tail := least _ others
                    simp only [List.map_cons, List.zipWith_cons_cons, List.sum_cons]
                    linarith

end Between

/-! ## One array -/

namespace NDArray

variable {s : List Nat} {a lower upper p : NDArray Exact} {zs : List ℂ}

/-- Real arrays that bound the entries of an array of shape `s`, at every entry in order. -/
structure Box (s : List Nat) (lower upper : NDArray Exact) : Prop where
  below : lower.Bounds s
  above : upper.Bounds s
  ordered : ∀ b ∈ (lower.boundsOn s).zip (upper.boundsOn s), Ordered b

theorem clip_accepts {R : Type} [Scalar R] {a lower upper p : NDArray R}
    (clipped : a.clip lower upper = .ok p) :
    ∃ c m, a.asArray = .ok c ∧ c.kind.isComplex = false ∧ zipWith .max lower c = .ok m ∧
      zipWith .min upper m = .ok p := by
  unfold clip at clipped
  obtain ⟨c, array, clipped⟩ := bind_accepts.mp clipped
  split at clipped
  · obtain ⟨_, thrown, _⟩ := bind_accepts.mp clipped
    cases thrown
  · next plain =>
      simp only [Bool.or_eq_true, not_or, Bool.not_eq_true] at plain
      obtain ⟨m, raised, lowered⟩ := bind_accepts.mp clipped
      exact ⟨c, m, array, plain.1.1, raised, lowered⟩

theorem real_of_kind {e : Entries Exact} (denotes : e.Denotes zs)
    (real : e.kind.isComplex = false) :
    ∃ (q : Precision) (xs : List ℝ), e = .real q (xs.map Exact.real) ∧ zs = xs.map (↑) := by
  cases denotes with
  | real q xs => exact ⟨q, xs, rfl, rfl⟩
  | complex q => cases real

/-- An array of fractions with real numbers is moved between bounds entry by entry. -/
theorem clip_entries {q : Precision} {xs : List Exact} (box : Box s lower upper)
    (entries : a.enter.entries = .real q xs) (shape : a.shape = s)
    (clipped : a.clip lower upper = .ok p) :
    p.shape = s ∧ p.isBare = false ∧ p.kind.isComplex = false ∧ xs.length = volume s ∧
      ∃ r, p.entries = .real r (List.zipWith Scalar.min (upper.boundsOn s)
        (List.zipWith Scalar.max (lower.boundsOn s) xs)) := by
  obtain ⟨c, m, array, _, raised, lowered⟩ := clip_accepts clipped
  obtain rfl := asArray_accepts array
  have firm : q ≠ .bare := by
    rintro rfl
    have bare : a.enter.isBare = true := by
      unfold isBare kind
      rw [entries]
      rfl
    rw [isBare_enter] at bare
    cases bare
  obtain ⟨q₁, firm₁, joined⟩ := join_real (isComplex_enter.trans box.below.real) firm
  obtain ⟨shapeM, entriesM⟩ :=
    zipWith_bound (c := a.enter) box.below entries shape firm joined raised
  obtain ⟨q₂, firm₂, joined'⟩ := join_real (isComplex_enter.trans box.above.real) firm₁
  obtain ⟨shapeP, entriesP⟩ := zipWith_bound box.above entriesM shapeM firm₁ joined' lowered
  refine ⟨shapeP, ?_, ?_, ?_, q₂, entriesP⟩
  · exact isBare_of_real entriesP firm₂
  · unfold kind
    rw [entriesP]
    rfl
  · have total := a.enter.fits
    rw [entries] at total
    exact total.trans (congrArg volume shape)

/-- Every entry is moved to the nearest number between its bounds. -/
theorem clip_denotes (box : Box s lower upper) (ha : a.entries.Denotes zs) (shape : a.shape = s)
    (clipped : a.clip lower upper = .ok p) :
    ∃ ts : List ℝ, p.shape = s ∧ p.isBare = false ∧ p.kind.isComplex = false ∧
      p.entries.Denotes (ts.map (↑)) ∧
      List.Forall₂ Between ((lower.boundsOn s).zip (upper.boundsOn s)) (ts.map (↑)) ∧
      ∀ us, List.Forall₂ Between ((lower.boundsOn s).zip (upper.boundsOn s)) us →
        (List.zipWith (fun z w : ℂ => ‖z - w‖ ^ 2) (ts.map (↑)) zs).sum ≤
          (List.zipWith (fun z w : ℂ => ‖z - w‖ ^ 2) us zs).sum := by
  obtain ⟨c, _, array, real, _⟩ := clip_accepts clipped
  obtain rfl := asArray_accepts array
  obtain ⟨q, xs, entries, rfl⟩ := real_of_kind (denotes_enter ha) real
  obtain ⟨shapeP, firm, plain, count, r, entriesP⟩ := clip_entries box entries shape clipped
  rw [List.length_map] at count
  obtain ⟨ts, clamped, within, least⟩ := Between.clamp_list (length_boundsOn.trans count.symm)
    (length_boundsOn.trans count.symm) box.ordered
  refine ⟨ts, shapeP, firm, plain, ?_, within, least⟩
  rw [entriesP, clamped]
  exact .real r ts

end NDArray

/-! ## Whether entries lie between bounds -/

namespace Entries

variable {e L : Entries Exact} {zs : List ℂ}

theorem complexes_real (real : L.kind.isComplex = false) (p : Precision) :
    L.complexes p = (L.reals .double).map Cartesian.ofReal := by
  cases L with
  | complex q => cases real
  | whole w xs => simp [complexes, reals]
  | real q xs => simp [complexes, reals]

/-- The kind in which real bounds meet the entries of an array, complex if those are. -/
theorem join_isComplex (real : L.kind.isComplex = false) (denotes : e.Denotes zs) :
    (∃ q, e.kind.isComplex = false ∧ L.kind.join e.kind = .real q) ∨
      ∃ q, e.kind.isComplex = true ∧ L.kind.join e.kind = .complex q := by
  cases denotes with
  | real p xs =>
      cases kind : L.kind with
      | whole w => exact .inl ⟨_, rfl, rfl⟩
      | real q => exact .inl ⟨_, rfl, rfl⟩
      | complex q =>
          rw [kind] at real
          cases real
  | complex p =>
      cases kind : L.kind with
      | whole w => exact .inr ⟨_, rfl, rfl⟩
      | real q => exact .inr ⟨_, rfl, rfl⟩
      | complex q =>
          rw [kind] at real
          cases real

/-- Which entries are not below their lower bounds. -/
theorem compare_lower (real : L.kind.isComplex = false) (denotes : e.Denotes zs) :
    ∃ t : Exact → ℂ → Bool,
      L.compare .le e =
        .whole .flag (List.zipWith (fun l z => flag (t l z)) (L.reals .double) zs) ∧
      (∀ l z, t l z = true → Scalar.le l (.real z.re) = true) ∧
      (e.kind.isComplex = false → ∀ l z, Scalar.le l (.real z.re) = true → t l z = true) := by
  rcases join_isComplex real denotes with ⟨q, plain, joined⟩ | ⟨q, complex, joined⟩
  · obtain ⟨p, xs, rfl, rfl⟩ := NDArray.real_of_kind denotes plain
    refine ⟨fun l z => Scalar.le l (.real z.re), ?_, fun _ _ => id, fun _ _ _ => id⟩
    unfold compare
    rw [joined]
    simp only [NDArray.reals_exact _ q, NDArray.reals_real, List.zipWith_map_right]
    rfl
  · refine ⟨fun l z => Cartesian.le q (.ofReal l) (.ofComplex z), ?_, ?_, ?_⟩
    · unfold compare
      rw [joined]
      simp only [denotes.complexes_eq, complexes_real real, List.zipWith_map]
      rfl
    · exact fun l z => Cartesian.le_re
    · intro plain
      rw [plain] at complex
      cases complex

/-- Which entries are not above their upper bounds. -/
theorem compare_upper (real : L.kind.isComplex = false) (denotes : e.Denotes zs) :
    ∃ t : ℂ → Exact → Bool,
      e.compare .le L =
        .whole .flag (List.zipWith (fun z l => flag (t z l)) zs (L.reals .double)) ∧
      (∀ z l, t z l = true → Scalar.le (.real z.re) l = true) ∧
      (e.kind.isComplex = false → ∀ z l, Scalar.le (.real z.re) l = true → t z l = true) := by
  rcases join_isComplex real denotes with ⟨q, plain, joined⟩ | ⟨q, complex, joined⟩
  · obtain ⟨p, xs, rfl, rfl⟩ := NDArray.real_of_kind denotes plain
    refine ⟨fun z l => Scalar.le (.real z.re) l, ?_, fun _ _ => id, fun _ _ _ => id⟩
    unfold compare
    rw [Kind.join_comm, joined]
    simp only [NDArray.reals_exact _ q, NDArray.reals_real, List.zipWith_map_left]
    rfl
  · refine ⟨fun z l => Cartesian.le q (.ofComplex z) (.ofReal l), ?_, ?_, ?_⟩
    · unfold compare
      rw [Kind.join_comm, joined]
      simp only [denotes.complexes_eq, complexes_real real, List.zipWith_map]
      rfl
    · exact fun z l => Cartesian.le_re
    · intro plain
      rw [plain] at complex
      cases complex

end Entries

namespace NDArray

variable {s : List Nat} {a b lower upper : NDArray Exact} {zs : List ℂ}

/-- Whether the entries of an array lie between bounds is decided, and right for real entries. -/
theorem isInside_denotes (box : Box s lower upper) (ha : a.entries.Denotes zs) (shape : a.shape = s)
    (firm : a.isBare = false) :
    ∃ inside, a.isInside lower upper = .ok inside ∧
      (inside = true →
        List.Forall₂ Between ((lower.boundsOn s).zip (upper.boundsOn s)) zs) ∧
      (a.kind.isComplex = false →
        List.Forall₂ Between ((lower.boundsOn s).zip (upper.boundsOn s)) zs → inside = true) := by
  subst shape
  obtain ⟨t, lows, sound, complete⟩ := Entries.compare_lower
    (L := (lower.enter.expandTo a.shape).entries)
    ((isComplex_expandTo lower).trans box.below.real) ha
  obtain ⟨t', ups, sound', complete'⟩ := Entries.compare_upper
    (L := (upper.enter.expandTo a.shape).entries)
    ((isComplex_expandTo upper).trans box.above.real) ha
  obtain ⟨⟨low, compared, shapeL, entriesL⟩, _⟩ := le_expands box.below.array box.below.meets firm
  obtain ⟨_, up, compared', shapeU, entriesU⟩ := le_expands box.above.array box.above.meets firm
  rw [lows] at entriesL
  rw [ups] at entriesU
  obtain ⟨both, product, entries⟩ := mul_flags entriesL entriesU (shapeL.trans shapeU.symm)
  have count : zs.length = volume a.shape := ha.length_eq.trans a.fits
  have decided : both.entries.allTrue = true ↔
      List.Forall₂ (fun b z => t b.1 z = true ∧ t' z b.2 = true)
        ((lower.boundsOn a.shape).zip (upper.boundsOn a.shape)) zs := by
    rw [entries]
    exact Entries.allTrue_mul (length_boundsOn.trans count.symm) (length_boundsOn.trans count.symm)
  refine ⟨both.entries.allTrue, ?_, fun inside => ?_, fun plain between => ?_⟩
  · unfold isInside
    rw [compared, compared']
    simp only [bind, Except.bind, product]
    rfl
  · exact (decided.mp inside).imp fun b z holds => ⟨sound _ _ holds.1, sound' _ _ holds.2⟩
  · exact decided.mpr (between.imp fun b z holds =>
      ⟨complete plain _ _ holds.1, complete' plain _ _ holds.2⟩)

end NDArray

end ForwardBackward
