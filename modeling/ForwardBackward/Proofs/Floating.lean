/-
# ForwardBackward.Proofs.Floating -- what is not finite stays visible

In floating point a sum, a difference or a product is finite only if both operands
are, a quotient only if its numerator is, and a root only if its argument is.
`Floating` lists these rules, and the few facts about comparisons that the step
sizes of a run rest on.  Binary floating point obeys them (`Double.floating`), and so
do the real numbers with infinities and a not-a-number (`Exact.floating`).

So a finite number vouches for everything it was computed from.  A finite norm is
one of finite entries (`Vec.finite_of_norm`), and a finite difference has finite
sides if nothing was repeated (`Vec.Shaped.finite_of_sub`).
-/
import ForwardBackward.Proofs.Boxes
import ForwardBackward.Proofs.Shapes
import ForwardBackward.Proofs.Slots

namespace ForwardBackward

set_option autoImplicit false

/-- The rules of floating point for infinities and for what is not a number. -/
class Floating (R : Type) [Scalar R] : Prop where
  of_add {x y : R} : Scalar.isFinite (x + y) = true →
    Scalar.isFinite x = true ∧ Scalar.isFinite y = true
  of_sub {x y : R} : Scalar.isFinite (x - y) = true →
    Scalar.isFinite x = true ∧ Scalar.isFinite y = true
  of_mul {x y : R} : Scalar.isFinite (x * y) = true →
    Scalar.isFinite x = true ∧ Scalar.isFinite y = true
  of_div {x y : R} : Scalar.isFinite (x / y) = true → Scalar.isFinite x = true
  of_sqrt {x : R} : Scalar.isFinite (Scalar.sqrt x) = true → Scalar.isFinite x = true
  of_round {p : Precision} {x : R} : Scalar.isFinite (Scalar.round p x) = true →
    Scalar.isFinite x = true
  of_normal {p : Precision} {x : R} : Scalar.isFinite (Scalar.normal p x) = true →
    Scalar.isFinite x = true
  undefined_isNaN : Scalar.isNaN (Scalar.undefined : R) = true
  /-- The sum of two numbers may be infinite, but it is a number. -/
  add_isNaN {x y : R} : Scalar.isFinite x = true → Scalar.isFinite y = true →
    Scalar.isNaN (x + y) = false
  /-- Half of a positive number is positive, or so small that it counts as zero. -/
  half {x : R} : Scalar.isFinite x = true → Scalar.lt 0 x = true →
    Scalar.isFinite (x * 0.5) = true ∧
      (Scalar.lt 0 (x * 0.5) = true ∨ Scalar.eq (2 * (x * 0.5)) 0 = true)
  one_above {p : Precision} : Scalar.isFinite (1 : R) = true ∧ Scalar.le (1 : R) p.eps = false
  /-- What is left of `1` divided by a number above the machine epsilon. -/
  inverse {p : Precision} {x : R} : Scalar.isFinite x = true → Scalar.le x p.eps = false →
    Scalar.isFinite ((1 - safety) / x) = true ∧ Scalar.lt 0 ((1 - safety) / x) = true

/-! ## Exact arithmetic -/

namespace Exact

theorem real_of_sub {x y : Exact} {a : ℝ} (difference : x - y = real a) :
    ∃ b c, x = real b ∧ y = real c := by
  change x + -y = real a at difference
  obtain ⟨b, c, rfl, negated, _⟩ := eq_real_of_add difference
  cases y with
  | real y => exact ⟨b, y, rfl, rfl⟩
  | infinite s => cases negated
  | undefined => cases negated

theorem real_of_div {x y : Exact} {a : ℝ} (quotient : x / y = real a) : ∃ b, x = real b := by
  change Exact.div x y = real a at quotient
  cases x with
  | real b => exact ⟨b, rfl⟩
  | infinite s => cases y <;> cases quotient
  | undefined => cases y <;> cases quotient

theorem real_of_sqrt {x : Exact} {a : ℝ} (root : Scalar.sqrt x = real a) : ∃ b, x = real b := by
  change Exact.sqrt x = real a at root
  cases x with
  | real b => exact ⟨b, rfl⟩
  | infinite s => cases s <;> cases root
  | undefined => cases root

theorem eps_le_one {p : Precision} : ∃ e : ℝ, 0 < e ∧ e < 1 ∧ (p.eps : Exact) = real e := by
  have inverse : ∀ n : ℕ, 1 < n → ∃ e : ℝ, 0 < e ∧ e < 1 ∧
      (1 / Scalar.ofInt (n : ℤ) : Exact) = real e := by
    intro n large
    have positive : (1 : ℝ) < n := by exact_mod_cast large
    refine ⟨1 / n, by positivity, (div_lt_one (by linarith)).mpr positive, ?_⟩
    rw [one_eq, ofInt_eq, Int.cast_natCast, real_div _ _ (by linarith)]
  cases p <;> exact inverse _ (Nat.one_lt_two_pow (by norm_num))

instance floating : Floating Exact where
  of_add finite := by
    obtain ⟨a, sum⟩ := (isFinite_iff _).mp finite
    obtain ⟨b, c, rfl, rfl, _⟩ := eq_real_of_add sum
    exact ⟨rfl, rfl⟩
  of_sub finite := by
    obtain ⟨a, difference⟩ := (isFinite_iff _).mp finite
    obtain ⟨b, c, rfl, rfl⟩ := real_of_sub difference
    exact ⟨rfl, rfl⟩
  of_mul finite := by
    obtain ⟨a, product⟩ := (isFinite_iff _).mp finite
    obtain ⟨b, c, rfl, rfl, _⟩ := eq_real_of_mul product
    exact ⟨rfl, rfl⟩
  of_div finite := by
    obtain ⟨a, quotient⟩ := (isFinite_iff _).mp finite
    obtain ⟨b, rfl⟩ := real_of_div quotient
    rfl
  of_sqrt finite := by
    obtain ⟨a, root⟩ := (isFinite_iff _).mp finite
    obtain ⟨b, rfl⟩ := real_of_sqrt root
    rfl
  of_round finite := finite
  of_normal finite := finite
  undefined_isNaN := isNaN_undefined
  add_isNaN hx hy := by
    obtain ⟨a, rfl⟩ := (isFinite_iff _).mp hx
    obtain ⟨b, rfl⟩ := (isFinite_iff _).mp hy
    rw [real_add, isNaN_real]
  half finite positive := by
    obtain ⟨a, rfl⟩ := (isFinite_iff _).mp finite
    rw [zero_eq, lt_real] at positive
    rw [half_eq, real_mul, zero_eq, lt_real]
    exact ⟨rfl, .inl (by linarith)⟩
  one_above {p} := by
    obtain ⟨e, _, small, eps⟩ := eps_le_one (p := p)
    rw [one_eq, eps, Bool.eq_false_iff, ne_eq, le_real]
    exact ⟨rfl, not_le.mpr small⟩
  inverse {p x} finite above := by
    obtain ⟨a, rfl⟩ := (isFinite_iff _).mp finite
    obtain ⟨e, positive, _, eps⟩ := eps_le_one (p := p)
    rw [eps, Bool.eq_false_iff, ne_eq, le_real, not_le] at above
    have nonzero : a ≠ 0 := by linarith
    rw [safety_eq, one_eq, real_sub, real_div _ _ nonzero, zero_eq, lt_real]
    refine ⟨rfl, div_pos (by norm_num) (by linarith)⟩

end Exact

/-! ## Arrays -/

variable {R : Type} [Scalar R] [Floating R]

namespace Precision

variable {p q : Precision} {x y : R}

theorem finite_of_result (finite : Scalar.isFinite (p.result x) = true) :
    Scalar.isFinite x = true :=
  Floating.of_round (Floating.of_normal finite)

theorem finite_of_convert (finite : Scalar.isFinite (convert p q x) = true) :
    Scalar.isFinite x = true := by
  unfold convert at finite
  split at finite
  · exact finite
  · exact Floating.of_normal (finite_of_result finite)

theorem finite_of_add (finite : Scalar.isFinite (p.add x y) = true) :
    Scalar.isFinite x = true ∧ Scalar.isFinite y = true :=
  (Floating.of_add (finite_of_result finite)).imp Floating.of_normal Floating.of_normal

theorem finite_of_sub (finite : Scalar.isFinite (p.sub x y) = true) :
    Scalar.isFinite x = true ∧ Scalar.isFinite y = true :=
  (Floating.of_sub (finite_of_result finite)).imp Floating.of_normal Floating.of_normal

theorem finite_of_mul (finite : Scalar.isFinite (p.mul x y) = true) :
    Scalar.isFinite x = true ∧ Scalar.isFinite y = true :=
  (Floating.of_mul (finite_of_result finite)).imp Floating.of_normal Floating.of_normal

theorem finite_of_sqrt (finite : Scalar.isFinite (p.sqrt x) = true) : Scalar.isFinite x = true :=
  Floating.of_normal (Floating.of_sqrt (finite_of_result finite))

/-- A finite sum has finite members. -/
theorem finite_of_sum {xs : List R} (finite : Scalar.isFinite (p.sum xs) = true) :
    xs.all Scalar.isFinite = true := by
  have members : ∀ (xs : List R) (start : R), Scalar.isFinite (xs.foldl p.add start) = true →
      Scalar.isFinite start = true ∧ xs.all Scalar.isFinite = true := by
    intro xs
    induction xs with
    | nil => exact fun start finite => ⟨finite, rfl⟩
    | cons x xs ih =>
        intro start finite
        obtain ⟨sum, rest⟩ := ih (p.add start x) finite
        obtain ⟨first, second⟩ := finite_of_add sum
        exact ⟨first, by rw [List.all_cons, second, rest]; rfl⟩
  exact (members xs 0 finite).2

end Precision

omit [Floating R] in
theorem Cartesian.isFinite_iff {z : Cartesian R} :
    z.isFinite = true ↔ Scalar.isFinite z.re = true ∧ Scalar.isFinite z.im = true :=
  Bool.and_eq_true _ _ ▸ Iff.rfl

theorem Cartesian.finite_of_normSq {p : Precision} {z : Cartesian R}
    (finite : Scalar.isFinite (z.normSq p) = true) : z.isFinite = true := by
  obtain ⟨re, im⟩ := Precision.finite_of_add finite
  exact isFinite_iff.mpr ⟨(Precision.finite_of_mul re).1, (Precision.finite_of_mul im).1⟩

/-- A rule whose finite answers have finite operands. -/
structure Rule.Transparent (f : Rule R) : Prop where
  real (p : Precision) (x y : R) : Scalar.isFinite (f.real p x y) = true →
    Scalar.isFinite x = true ∧ Scalar.isFinite y = true
  complex (p : Precision) (z w : Cartesian R) : (f.complex p z w).isFinite = true →
    z.isFinite = true ∧ w.isFinite = true

omit [Floating R] in
/-- A rule that treats the parts of complex numbers like real numbers. -/
theorem Rule.transparent_of_parts {f : Rule R}
    (real : ∀ p x y, Scalar.isFinite (f.real p x y) = true →
      Scalar.isFinite x = true ∧ Scalar.isFinite y = true)
    (parts : ∀ p z w, f.complex p z w = ⟨f.real p z.re w.re, f.real p z.im w.im⟩) :
    f.Transparent where
  real := real
  complex p z w finite := by
    rw [parts, Cartesian.isFinite_iff] at finite
    obtain ⟨zr, wr⟩ := real p _ _ finite.1
    obtain ⟨zi, wi⟩ := real p _ _ finite.2
    exact ⟨Cartesian.isFinite_iff.mpr ⟨zr, zi⟩, Cartesian.isFinite_iff.mpr ⟨wr, wi⟩⟩

theorem Rule.add_transparent : (Rule.add : Rule R).Transparent :=
  transparent_of_parts (fun _ _ _ => Precision.finite_of_add) fun _ _ _ => rfl

theorem Rule.sub_transparent : (Rule.sub : Rule R).Transparent :=
  transparent_of_parts (fun _ _ _ => Precision.finite_of_sub) fun _ _ _ => rfl

theorem all_of_map {α β : Type} {F : α → Bool} {G : β → Bool} {f : α → β} {xs : List α}
    (back : ∀ x, G (f x) = true → F x = true) (all : (xs.map f).all G = true) :
    xs.all F = true := by
  rw [List.all_map] at all
  exact List.all_eq_true.mpr fun x inside => back x (List.all_eq_true.mp all x inside)

theorem all_of_zipWith {α β γ : Type} {F : α → Bool} {F' : β → Bool} {G : γ → Bool}
    {f : α → β → γ} {xs : List α} {ys : List β} (length : xs.length = ys.length)
    (back : ∀ x y, G (f x y) = true → F x = true ∧ F' y = true)
    (all : (List.zipWith f xs ys).all G = true) : xs.all F = true ∧ ys.all F' = true := by
  induction xs generalizing ys with
  | nil =>
      obtain rfl := List.length_eq_zero_iff.mp length.symm
      exact ⟨rfl, rfl⟩
  | cons x xs ih =>
      cases ys with
      | nil => cases length
      | cons y ys =>
          rw [List.zipWith_cons_cons, List.all_cons, Bool.and_eq_true] at all
          obtain ⟨hx, hy⟩ := back x y all.1
          obtain ⟨hxs, hys⟩ := ih (Nat.succ.inj length) all.2
          exact ⟨by rw [List.all_cons, hx, hxs]; rfl, by rw [List.all_cons, hy, hys]; rfl⟩

namespace Entries

variable {p : Precision} {a b e : Entries R}

/-- Numbers that are finite when they are read as real numbers are finite, unless their imaginary
parts were dropped. -/
theorem finite_of_reals (real : e.kind.isComplex = false)
    (finite : (e.reals p).all Scalar.isFinite = true) : e.allFinite = true := by
  cases e with
  | whole => rfl
  | real q xs => exact all_of_map (fun _ => Precision.finite_of_convert) finite
  | complex => cases real

theorem finite_of_complexes (finite : (e.complexes p).all Cartesian.isFinite = true) :
    e.allFinite = true := by
  cases e with
  | whole => rfl
  | real q xs =>
      exact all_of_map (fun x finite =>
        Precision.finite_of_convert (Cartesian.isFinite_iff.mp finite).1) finite
  | complex q zs =>
      exact all_of_map (fun z finite => Cartesian.isFinite_iff.mpr
        ((Cartesian.isFinite_iff.mp finite).imp Precision.finite_of_convert
          Precision.finite_of_convert)) finite

/-- Where a rule gives finite numbers only, it was given finite numbers only. -/
theorem finite_of_zipWith {f : Rule R} (transparent : f.Transparent) (length : a.length = b.length)
    (finite : (zipWith f a b).allFinite = true) : a.allFinite = true ∧ b.allFinite = true := by
  unfold zipWith at finite
  split at finite
  · next w joined =>
      have wholes : ∃ v v', a.kind = .whole v ∧ b.kind = .whole v' := by
        generalize a.kind = k, b.kind = l at joined
        cases k <;> cases l <;> simp_all [Kind.join]
      obtain ⟨v, v', left, right⟩ := wholes
      exact ⟨allFinite_of_whole left, allFinite_of_whole right⟩
  · next q joined =>
      have reals : a.kind.isComplex = false ∧ b.kind.isComplex = false := by
        generalize a.kind = k, b.kind = l at joined
        cases k <;> cases l <;> simp_all [Kind.join, Kind.isComplex]
      have count : (a.reals q).length = (b.reals q).length := by
        rw [length_reals, length_reals, length]
      obtain ⟨left, right⟩ := all_of_zipWith count (transparent.real q) finite
      exact ⟨finite_of_reals reals.1 left, finite_of_reals reals.2 right⟩
  · next q _ =>
      have count : (a.complexes q).length = (b.complexes q).length := by
        rw [length_complexes, length_complexes, length]
      obtain ⟨left, right⟩ := all_of_zipWith count (transparent.complex q) finite
      exact ⟨finite_of_complexes left, finite_of_complexes right⟩

theorem finite_of_squares (finite : e.squares.allFinite = true) : e.allFinite = true := by
  cases e with
  | whole => rfl
  | real q xs => exact all_of_map (fun _ finite => (Precision.finite_of_mul finite).1) finite
  | complex q zs => exact all_of_map (fun _ => Cartesian.finite_of_normSq) finite

/-- A finite sum of numbers that are not complex has finite members. -/
theorem finite_of_sum (real : e.kind.isComplex = false) (finite : e.sum.allFinite = true) :
    e.allFinite = true := by
  cases e with
  | whole => rfl
  | real q xs =>
      refine Precision.finite_of_sum (p := q) ?_
      simpa [sum, allFinite] using finite
  | complex => cases real

omit [Floating R] in
theorem sum_squares_real :
    e.squares.kind.isComplex = false ∧ e.squares.sum.kind.isComplex = false := by
  cases e <;> exact ⟨rfl, rfl⟩

/-- A finite total has finite members, and it is not complex if none of them is. -/
theorem finite_of_total {start : Entries R} {sums : List (Entries R)} (one : start.length = 1)
    (ones : ∀ s ∈ sums, s.length = 1) (finite : (total start sums).allFinite = true) :
    start.allFinite = true ∧ ∀ s ∈ sums, s.allFinite = true := by
  induction sums generalizing start with
  | nil => exact ⟨finite, by simp⟩
  | cons s sums ih =>
      have single : s.length = 1 := ones s List.mem_cons_self
      have count : (zipWith .add start s).length = 1 := by
        rw [length_zipWith, one, single, Nat.min_self]
      obtain ⟨first, rest⟩ :=
        ih count (fun s inside => ones s (List.mem_cons_of_mem _ inside)) finite
      obtain ⟨before, here⟩ := finite_of_zipWith Rule.add_transparent (one.trans single.symm) first
      exact ⟨before, List.forall_mem_cons.mpr ⟨here, rest⟩⟩

omit [Floating R] in
theorem total_real {start : Entries R} {sums : List (Entries R)}
    (real : start.kind.isComplex = false) (reals : ∀ s ∈ sums, s.kind.isComplex = false) :
    (total start sums).kind.isComplex = false := by
  induction sums generalizing start with
  | nil => exact real
  | cons s sums ih =>
      refine ih ?_ fun s inside => reals s (List.mem_cons_of_mem _ inside)
      rw [kind_zipWith, Kind.isComplex_join, real, reals s List.mem_cons_self]
      rfl

omit [Floating R] in
theorem length_total {start : Entries R} {sums : List (Entries R)} (one : start.length = 1)
    (ones : ∀ s ∈ sums, s.length = 1) : (total start sums).length = 1 := by
  induction sums generalizing start with
  | nil => exact one
  | cons s sums ih =>
      refine ih ?_ fun s inside => ones s (List.mem_cons_of_mem _ inside)
      rw [length_zipWith, one, ones s List.mem_cons_self, Nat.min_self]

theorem finite_of_root (one : e.length = 1) (real : e.kind.isComplex = false)
    (finite : Scalar.isFinite e.root = true) : e.allFinite = true := by
  cases e with
  | whole => rfl
  | real p xs =>
      obtain ⟨x, rfl⟩ := List.length_eq_one_iff.mp one
      have number : Scalar.isFinite x = true := Precision.finite_of_sqrt (p := p) finite
      simp [allFinite, number]
  | complex => cases real

end Entries

/-! ## Vectors -/

theorem NDArray.finite_of_enter {a : NDArray R} (finite : a.enter.allFinite = true) :
    a.allFinite = true := by
  unfold enter allFinite at *
  split at finite
  · next bare =>
      change a.entries.kind.isBare = true at bare
      cases kind : a.entries.kind with
      | whole w => exact Entries.allFinite_of_whole kind
      | real p =>
          change (a.entries.cast a.entries.kind.enter).allFinite = true at finite
          rw [kind] at finite bare
          obtain rfl : p = .bare := by simpa [Kind.isBare] using bare
          exact Entries.finite_of_reals (p := .loose) (by rw [kind]; rfl) finite
      | complex p =>
          rw [kind] at bare
          cases bare
  · exact finite

/-- Both sides of a finite difference are finite, if they have one shape. -/
theorem NDArray.finite_of_sub {a b c : NDArray R} (same : a.shape = b.shape)
    (difference : a.sub b = .ok c) (finite : c.allFinite = true) :
    a.allFinite = true ∧ b.allFinite = true := by
  obtain ⟨_, u, v, left, right, entries⟩ := zipWith_same same (sub_zips difference)
  have shapeU : u.shape = a.shape := by rcases left with rfl | rfl <;> rfl
  have shapeV : v.shape = b.shape := by rcases right with rfl | rfl <;> rfl
  have count : u.entries.length = v.entries.length := by
    rw [u.fits, v.fits, shapeU, shapeV, same]
  rw [allFinite, entries] at finite
  obtain ⟨finiteU, finiteV⟩ := Entries.finite_of_zipWith Rule.sub_transparent count finite
  constructor
  · rcases left with rfl | rfl
    · exact finiteU
    · exact finite_of_enter finiteU
  · rcases right with rfl | rfl
    · exact finiteV
    · exact finite_of_enter finiteV

namespace Vec

variable {S : Structure} {x y z : Vec R}

/-- A vector of finite norm has finite entries. -/
theorem finite_of_norm (finite : Scalar.isFinite x.norm = true) : x.allFinite = true := by
  have ones : ∀ s ∈ x.leaves.map fun a => a.enter.entries.squares.sum, s.length = 1 := by
    intro s inside
    obtain ⟨a, _, rfl⟩ := List.mem_map.mp inside
    exact Entries.length_sum _
  have reals : ∀ s ∈ x.leaves.map fun a => a.enter.entries.squares.sum,
      s.kind.isComplex = false := by
    intro s inside
    obtain ⟨a, _, rfl⟩ := List.mem_map.mp inside
    exact Entries.sum_squares_real.2
  have total : (Entries.total .zero
      (x.leaves.map fun a => a.enter.entries.squares.sum)).allFinite = true :=
    Entries.finite_of_root (Entries.length_total rfl ones) (Entries.total_real rfl reals) finite
  have sums := (Entries.finite_of_total rfl ones total).2
  refine List.all_eq_true.mpr fun a inside => NDArray.finite_of_enter ?_
  have sum := sums _ (List.mem_map_of_mem inside)
  exact Entries.finite_of_squares (Entries.finite_of_sum Entries.sum_squares_real.1 sum)

theorem finite_of_asArrays (arrays : x.asArrays = .ok y) (finite : y.allFinite = true) :
    x.allFinite = true := by
  rw [allFinite, (asArrays_accepts arrays).2] at finite
  exact all_of_map (fun _ => NDArray.finite_of_enter) finite

/-- Both sides of a finite difference are finite, if they have one shape. -/
theorem Shaped.finite_of_sub (hx : x.Shaped S) (hy : y.Shaped S) (difference : x.sub y = .ok z)
    (finite : z.allFinite = true) : x.allFinite = true ∧ y.allFinite = true := by
  unfold Vec.sub Tree.combine at difference
  obtain ⟨_, each⟩ :=
    Tree.forall_of_combineParts_same (hx.skeleton.trans hy.skeleton.symm) difference
  have shapes : List.Forall₂ (fun a b : NDArray R => a.shape = b.shape) x.leaves y.leaves :=
    forall_of_common hx.leaves hy.leaves fun _ _ _ left right => left.trans right.symm
  obtain ⟨left, right⟩ := forall_sides_of_zip (f := fun a b c => NDArray.sub a b = .ok c) shapes
    (fun _ _ _ => NDArray.finite_of_sub) each (List.all_eq_true.mp finite)
  exact ⟨List.all_eq_true.mpr left, List.all_eq_true.mpr right⟩

end Vec

/-! ## The envelope -/

variable {S : Structure} {x xbar grad : Vec R} {gxbar fx gamma : R} {e : Envelope R}

theorem finite_of_square {a b : R} (squared : Scalar.square a = .ok b)
    (finite : Scalar.isFinite b = true) : Scalar.isFinite a = true := by
  simp only [Scalar.square] at squared
  split at squared
  · cases squared
  · cases squared
    exact (Floating.of_mul finite).1

theorem finite_of_quotient {a b c : R} (divided : Scalar.quotient a b = .ok c)
    (finite : Scalar.isFinite c = true) : Scalar.isFinite a = true := by
  unfold Scalar.quotient at divided
  split at divided
  · cases divided
  · cases divided
    exact Floating.of_div finite

/-- A finite envelope vouches for the residual norm, the quadratic model and the regularizer. -/
theorem numbers_of_envelope (enveloped : envelope x xbar gxbar fx grad gamma = .ok e)
    (finite : Scalar.isFinite e.value = true) :
    Scalar.isFinite e.residual = true ∧ Scalar.isFinite e.bound = true ∧
      Scalar.isFinite gxbar = true := by
  obtain ⟨r, a, slope, square, curvature, _, _, _, squared, divided, rfl⟩ :=
    envelope_accepts.mp enveloped
  obtain ⟨bound, regularizer⟩ := Floating.of_add finite
  exact ⟨finite_of_square squared (finite_of_quotient divided (Floating.of_add bound).2), bound,
    regularizer⟩

/-- Where nothing was repeated, it vouches for the point and its step, too. -/
theorem finite_of_envelope (hx : x.Shaped S) (hxbar : xbar.Shaped S)
    (enveloped : envelope x xbar gxbar fx grad gamma = .ok e)
    (finite : Scalar.isFinite e.value = true) :
    x.allFinite = true ∧ xbar.allFinite = true ∧ e.r.allFinite = true ∧
      Scalar.isFinite e.residual = true ∧ Scalar.isFinite e.bound = true ∧
      Scalar.isFinite gxbar = true := by
  obtain ⟨residual, bound, regularizer⟩ := numbers_of_envelope enveloped finite
  obtain ⟨r, a, slope, square, curvature, difference, arrays, _, _, _, rfl⟩ :=
    envelope_accepts.mp enveloped
  have whole : r.allFinite = true := Vec.finite_of_asArrays arrays (Vec.finite_of_norm residual)
  obtain ⟨point, step⟩ := hx.finite_of_sub hxbar difference whole
  exact ⟨point, step, whole, residual, bound, regularizer⟩

end ForwardBackward
