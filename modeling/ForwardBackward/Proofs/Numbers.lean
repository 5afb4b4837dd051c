/-
# ForwardBackward.Proofs.Numbers -- the numbers that an array stands for

In exact arithmetic an array of finite entries with a fractional part stands for
a list of complex numbers: `Entries.Denotes e zs`.  Neither its kind nor its
precision matters any more, and the operations on arrays become the operations on
these numbers, entry by entry (`Denotes.zipWith`, `Denotes.scale`,
`Denotes.squares`, `Denotes.dot`).

Where two arrays of one shape meet, nothing is refused (`NDArray.zipWith_denotes`).
Arrays of whole numbers stand for nothing here: their arithmetic wraps around.
-/
import ForwardBackward.Proofs.Exact
import ForwardBackward.Array.Axis
import Mathlib.Analysis.Complex.Norm
import Mathlib.Data.List.Forall2

namespace ForwardBackward

set_option autoImplicit false

open scoped ComplexConjugate

/-! ## Kinds that meet -/

namespace Kind

variable {k l : Kind}

theorem isComplex_join (k l : Kind) :
    (k.join l).isComplex = (k.isComplex || l.isComplex) := by
  cases k <;> cases l <;> rfl

theorem isBare_join (firm : l.isBare = false) : (k.join l).isBare = false := by
  cases k with
  | whole v =>
      cases l with
      | whole w => cases v <;> cases w <;> first | rfl | cases firm
      | real p => cases v <;> cases p <;> first | rfl | cases firm
      | complex p => rfl
  | real q =>
      cases l with
      | whole w => cases q <;> cases w <;> first | rfl | cases firm
      | real p => cases q <;> cases p <;> first | rfl | cases firm
      | complex p => rfl
  | complex q => cases l <;> rfl

/-- What a fraction meets becomes a fraction. -/
theorem join_inexact (hk : ∀ w, k ≠ .whole w) (l : Kind) : ∀ w, k.join l ≠ .whole w := by
  intro w
  cases k with
  | whole v => exact absurd rfl (hk v)
  | real p | complex p => cases l <;> nofun

end Kind

/-! ## Complex numbers -/

namespace Cartesian

/-- A complex number by its parts. -/
def ofComplex (z : ℂ) : Cartesian Exact := ⟨.real z.re, .real z.im⟩

@[simp] theorem zero_eq : (zero : Cartesian Exact) = ofComplex 0 := by
  simp [zero, ofComplex]

@[simp] theorem ofReal_real (x : ℝ) : ofReal (.real x) = ofComplex x := by
  simp [ofReal, ofComplex]

@[simp] theorem convert_exact (p q : Precision) (z : Cartesian Exact) : convert p q z = z := by
  simp [convert]

variable (p : Precision) (z w : ℂ)

@[simp] theorem add_ofComplex : add p (ofComplex z) (ofComplex w) = ofComplex (z + w) := by
  simp [add, ofComplex]

@[simp] theorem sub_ofComplex : sub p (ofComplex z) (ofComplex w) = ofComplex (z - w) := by
  simp [sub, ofComplex]

@[simp] theorem mul_ofComplex : mul p (ofComplex z) (ofComplex w) = ofComplex (z * w) := by
  simp [mul, ofComplex]

@[simp] theorem conj_ofComplex : (ofComplex z).conj = ofComplex (conj z) := by
  simp [Cartesian.conj, ofComplex]

@[simp] theorem normSq_ofComplex : normSq p (ofComplex z) = .real (‖z‖ ^ 2) := by
  simp [normSq, ofComplex, ← Complex.normSq_eq_norm_sq, Complex.normSq_apply]

@[simp] theorem isFinite_ofComplex : (ofComplex z).isFinite = true := by
  simp [isFinite, ofComplex]

end Cartesian

/-- The modulus by the larger and the smaller part. -/
theorem sqrt_sq_add_sq {a b : ℝ} (positive : 0 < max a b) :
    max a b * √(1 + min a b / max a b * (min a b / max a b)) = √(a ^ 2 + b ^ 2) := by
  have parts : max a b ^ 2 + min a b ^ 2 = a ^ 2 + b ^ 2 := by
    rcases le_total a b with less | less
    · rw [max_eq_right less, min_eq_left less, add_comm]
    · rw [max_eq_left less, min_eq_right less]
  have inner : a ^ 2 + b ^ 2 = max a b ^ 2 * (1 + min a b / max a b * (min a b / max a b)) := by
    rw [← parts]
    field_simp
  rw [inner, Real.sqrt_mul (sq_nonneg _), Real.sqrt_sq positive.le]

theorem Cartesian.abs_ofComplex (p : Precision) (z : ℂ) : abs p (ofComplex z) = .real ‖z‖ := by
  have norm : ‖z‖ = √(|z.re| ^ 2 + |z.im| ^ 2) := by
    rw [sq_abs, sq_abs, Complex.norm_eq_sqrt_sq_add_sq]
  simp only [Cartesian.abs, ofComplex, Exact.abs_real, Precision.max_exact, Precision.min_exact,
    Exact.max_real, Exact.min_real, Precision.div_exact, Precision.mul_exact, Precision.add_exact,
    Precision.sqrt_exact]
  rcases eq_or_lt_of_le (le_max_of_le_left (abs_nonneg z.re) : 0 ≤ max |z.re| |z.im|)
    with zero | positive
  · have left : |z.re| = 0 := le_antisymm (zero ▸ le_max_left _ _) (abs_nonneg _)
    have right : |z.im| = 0 := le_antisymm (zero ▸ le_max_right _ _) (abs_nonneg _)
    have quotient : (Exact.real 0 / Exact.real 0 : Exact) = .undefined := by
      change Exact.div (.real 0) (.real 0) = _
      simp [Exact.div]
    rw [norm, left, right, max_self, min_self, quotient]
    have undefined : ∀ x : Exact,
        Exact.real 0 * Scalar.sqrt (1 + Exact.undefined * x) = .undefined := by
      intro x
      rfl
    rw [undefined, if_pos Exact.isNaN_undefined]
    simp
  · rw [Exact.real_div _ _ positive.ne', Exact.real_mul, Exact.one_eq, Exact.real_add,
      Exact.sqrt_real _ (by nlinarith [sq_nonneg (min |z.re| |z.im| / max |z.re| |z.im|)]),
      Exact.real_mul, Exact.isNaN_real, sqrt_sq_add_sq positive, norm]
    rfl

theorem Cartesian.le_re {p : Precision} {z w : Cartesian Exact} (le : Cartesian.le p z w = true) :
    Scalar.le z.re w.re = true := by
  unfold Cartesian.le at le
  split at le
  · next same => exact Exact.le_of_eq same
  · exact le

/-! ## Sums -/

theorem Precision.sum_real (p : Precision) (xs : List ℝ) :
    p.sum (xs.map Exact.real) = .real xs.sum := by
  have general : ∀ (xs : List ℝ) (a : ℝ),
      (xs.map Exact.real).foldl p.add (.real a) = .real (a + xs.sum) := by
    intro xs
    induction xs with
    | nil => simp
    | cons x xs ih =>
        intro a
        simp only [List.map_cons, List.foldl_cons, List.sum_cons, Precision.add_exact,
          Exact.real_add, ih, add_assoc]
  simpa [Precision.sum] using general xs 0

theorem Cartesian.sum_ofComplex (p : Precision) (zs : List ℂ) :
    Cartesian.sum p (zs.map ofComplex) = ofComplex zs.sum := by
  have general : ∀ (zs : List ℂ) (a : ℂ),
      (zs.map ofComplex).foldl (Cartesian.add p) (ofComplex a) = ofComplex (a + zs.sum) := by
    intro zs
    induction zs with
    | nil => simp
    | cons z zs ih =>
        intro a
        simp only [List.map_cons, List.foldl_cons, List.sum_cons, add_ofComplex, ih, add_assoc]
  simpa [Cartesian.sum] using general zs 0

theorem sum_map_ofReal (xs : List ℝ) : (xs.map Complex.ofReal).sum = xs.sum :=
  (map_list_sum Complex.ofRealHom xs).symm

/-! ## Rules -/

/-- An operation on complex numbers that a rule computes in exact arithmetic. -/
structure Rule.Means (f : Rule Exact) (op : ℂ → ℂ → ℂ) : Prop where
  real : ∀ (p : Precision) (x y : ℝ),
    ∃ z : ℝ, f.real p (.real x) (.real y) = .real z ∧ op x y = z
  complex : ∀ (p : Precision) (z w : ℂ),
    f.complex p (.ofComplex z) (.ofComplex w) = .ofComplex (op z w)

namespace Rule

theorem means_add : (add : Rule Exact).Means (· + ·) :=
  ⟨fun _ x y => ⟨x + y, rfl, by simp⟩, Cartesian.add_ofComplex⟩

theorem means_sub : (sub : Rule Exact).Means (· - ·) :=
  ⟨fun _ x y => ⟨x - y, Exact.real_sub x y, by simp⟩, Cartesian.sub_ofComplex⟩

theorem means_conjMul : (conjMul : Rule Exact).Means fun z w => conj z * w :=
  ⟨fun _ x y => ⟨x * y, rfl, by simp⟩, fun p z w => by simp [conjMul]⟩

end Rule

/-! ## Entries -/

namespace Entries

/-- Finite entries with a fractional part, and the numbers they are. -/
inductive Denotes : Entries Exact → List ℂ → Prop where
  | real (p : Precision) (xs : List ℝ) : Denotes (.real p (xs.map .real)) (xs.map (↑))
  | complex (p : Precision) (zs : List ℂ) : Denotes (.complex p (zs.map .ofComplex)) zs

/-- The numbers that finite entries are. -/
def numbers : Entries Exact → List ℂ
  | whole _ xs => xs.map (↑)
  | real _ xs => xs.map fun x => (x.toReal : ℂ)
  | complex _ zs => zs.map fun z => ⟨z.re.toReal, z.im.toReal⟩

namespace Denotes

variable {a b : Entries Exact} {us vs : List ℂ}

theorem real_iff {p : Precision} {xs : List Exact} :
    (Entries.real p xs).Denotes us ↔ ∃ ys : List ℝ, xs = ys.map .real ∧ us = ys.map (↑) := by
  constructor
  · intro denotes
    cases denotes with
    | real p ys => exact ⟨ys, rfl, rfl⟩
  · rintro ⟨ys, rfl, rfl⟩
    exact .real p ys

theorem complex_iff {p : Precision} {zs : List (Cartesian Exact)} :
    (Entries.complex p zs).Denotes us ↔ zs = us.map .ofComplex := by
  constructor
  · intro denotes
    cases denotes
    rfl
  · rintro rfl
    exact .complex p us

/-- Real entries computed by a function. -/
theorem ofReal {α : Type} (p : Precision) {f : α → Exact} {g : α → ℂ} (h : α → ℝ) (xs : List α)
    (entry : ∀ x, f x = .real (h x)) (number : ∀ x, g x = h x) :
    (Entries.real p (xs.map f)).Denotes (xs.map g) := by
  obtain rfl : f = fun x => .real (h x) := funext entry
  obtain rfl : g = fun x => (h x : ℂ) := funext number
  exact real_iff.mpr ⟨xs.map h, by simp, by simp⟩

/-- Complex entries computed by a function. -/
theorem ofComplex {α : Type} (p : Precision) {f : α → Cartesian Exact} {g : α → ℂ} (xs : List α)
    (entry : ∀ x, f x = .ofComplex (g x)) : (Entries.complex p (xs.map f)).Denotes (xs.map g) := by
  obtain rfl : f = fun x => .ofComplex (g x) := funext entry
  exact complex_iff.mpr (by simp)

theorem numbers_eq (ha : a.Denotes us) : a.numbers = us := by
  cases ha with
  | real p xs => simp [numbers]
  | complex p => simp [numbers, Function.comp_def, Cartesian.ofComplex]

theorem length_eq (ha : a.Denotes us) : us.length = a.length := by
  cases ha <;> simp [length]

theorem allFinite (ha : a.Denotes us) : a.allFinite = true := by
  cases ha <;> simp [Entries.allFinite]

theorem kind_ne_whole (ha : a.Denotes us) (w : Width) : a.kind ≠ .whole w := by
  cases ha <;> simp [kind]

theorem kind_join_ne_whole (ha : a.Denotes us) (hb : b.Denotes vs) (w : Width) :
    a.kind.join b.kind ≠ .whole w := by
  cases ha <;> cases hb <;> simp [kind, Kind.join]

/-- Read as complex numbers, the entries are the numbers. -/
theorem complexes_eq (ha : a.Denotes us) (q : Precision) :
    a.complexes q = us.map .ofComplex := by
  cases ha <;> simp [complexes]

theorem cast_complex (ha : a.Denotes us) (q : Precision) : (a.cast (.complex q)).Denotes us :=
  complex_iff.mpr (ha.complexes_eq q)

/-- Stored as real numbers, the entries lose their imaginary parts. -/
theorem cast_real (ha : a.Denotes us) (q : Precision) :
    (a.cast (.real q)).Denotes (us.map fun z => (z.re : ℂ)) := by
  cases ha with
  | real p xs =>
      simp only [Entries.cast, reals, List.map_map]
      exact ofReal q (fun x => x) xs (by simp) (by simp)
  | complex p =>
      simp only [Entries.cast, reals, List.map_map]
      exact ofReal q Complex.re us (by simp [Cartesian.ofComplex]) fun _ => rfl

/-- Stored in a kind with a fractional part, the entries are finite. -/
theorem cast {c : Entries Exact} {ws : List ℂ} (ha : a.Denotes us) (hc : c.Denotes ws) :
    ∃ vs, (a.cast c.kind).Denotes vs := by
  cases hc with
  | complex q => exact ⟨us, ha.cast_complex q⟩
  | real q => exact ⟨_, ha.cast_real q⟩

theorem cast_enter (ha : a.Denotes us) : (a.cast a.kind.enter).Denotes us := by
  cases ha with
  | complex p => exact (Denotes.complex p us).cast_complex p
  | real p xs =>
      have stored : ∀ q, ((Entries.real p (xs.map .real)).cast (.real q)).Denotes (xs.map (↑)) := by
        intro q
        simpa [Function.comp_def] using (Denotes.real p xs).cast_real q
      cases p <;> exact stored _

theorem zipWith {f : Rule Exact} {op : ℂ → ℂ → ℂ} (means : f.Means op) (ha : a.Denotes us)
    (hb : b.Denotes vs) : (Entries.zipWith f a b).Denotes (List.zipWith op us vs) := by
  have onComplex : ∀ p, a.kind.join b.kind = .complex p →
      (Entries.zipWith f a b).Denotes (List.zipWith op us vs) := by
    intro p joined
    simp only [Entries.zipWith, joined, ha.complexes_eq, hb.complexes_eq, List.zipWith_map]
    simp only [means.complex p, ← List.map_zipWith]
    exact .complex p _
  cases ha with
  | complex p => cases hb <;> exact onComplex _ rfl
  | real p xs =>
      cases hb with
      | complex q => exact onComplex _ rfl
      | real q ys =>
          choose value computed means using means.real
          have zipped := Denotes.real (p.join q) (List.zipWith (value (p.join q)) xs ys)
          simpa [Entries.zipWith, kind, Kind.join, reals, List.zipWith_map, List.map_zipWith,
            computed, means (p.join q)] using zipped

theorem mapInexact {f : Precision → Exact → Exact}
    {g : Precision → Cartesian Exact → Cartesian Exact} {op : ℂ → ℂ} (ha : a.Denotes us)
    (hf : ∀ (p : Precision) (x : ℝ), ∃ z : ℝ, f p (.real x) = .real z ∧ op x = z)
    (hg : ∀ (p : Precision) (z : ℂ), g p (.ofComplex z) = .ofComplex (op z)) :
    (Entries.mapInexact f g a).Denotes (us.map op) := by
  cases ha with
  | complex p =>
      simp only [Entries.mapInexact, List.map_map]
      exact ofComplex p us (hg p)
  | real p xs =>
      choose value computed means using hf
      simp only [Entries.mapInexact, List.map_map]
      exact ofReal p (value p) xs (computed p) (means p)

theorem magnitudes (ha : a.Denotes us) : a.magnitudes.Denotes (us.map fun z => (‖z‖ : ℂ)) := by
  cases ha with
  | real p xs =>
      simp only [Entries.magnitudes, List.map_map]
      exact ofReal p (fun x : ℝ => |x|) xs (fun _ => rfl) (fun x => by simp)
  | complex p =>
      simp only [Entries.magnitudes, List.map_map]
      exact ofReal p (fun z : ℂ => ‖z‖) us (fun z => Cartesian.abs_ofComplex p z) fun _ => rfl

theorem squares (ha : a.Denotes us) : a.squares.Denotes (us.map fun z => ((‖z‖ ^ 2 : ℝ) : ℂ)) := by
  cases ha with
  | real p xs =>
      simp only [Entries.squares, List.map_map]
      exact ofReal p (fun x : ℝ => ‖(x : ℂ)‖ ^ 2) xs (by simp [sq])
        fun _ => rfl
  | complex p =>
      simp only [Entries.squares, List.map_map]
      exact ofReal p (fun z : ℂ => ‖z‖ ^ 2) us (by simp) fun z => rfl

theorem sum (ha : a.Denotes us) : a.sum.Denotes [us.sum] := by
  cases ha with
  | real p xs =>
      exact real_iff.mpr ⟨[xs.sum], by simp [Precision.sum_real], by simp [sum_map_ofReal]⟩
  | complex p => exact complex_iff.mpr (by simp [Cartesian.sum_ofComplex])

/-- A row times a column is the sum of the products. -/
theorem dot {f : Rule Exact} {op : ℂ → ℂ → ℂ} (means : f.Means op) (ha : a.Denotes us)
    (hb : b.Denotes vs) : (Entries.dot f a b).Denotes [(List.zipWith op us vs).sum] := by
  have zipped := ha.zipWith means hb
  unfold Entries.zipWith at zipped
  unfold Entries.dot
  split at zipped
  · cases zipped
  · next p joined =>
      obtain ⟨xs, values, numbers⟩ := real_iff.mp zipped
      exact real_iff.mpr ⟨[xs.sum], by rw [values, Precision.sum_real]; rfl,
        by rw [numbers, sum_map_ofReal]; rfl⟩
  · next p joined =>
      exact complex_iff.mpr (by rw [complex_iff.mp zipped, Cartesian.sum_ofComplex]; rfl)

/-- The real part of a sum. -/
theorem first {z : ℂ} (ha : a.Denotes [z]) : a.first = .real z.re := by
  cases a with
  | whole w xs => cases ha
  | real p xs =>
      obtain ⟨ys, rfl, numbers⟩ := real_iff.mp ha
      obtain ⟨y, rfl, rfl⟩ := List.map_eq_singleton_iff.mp numbers.symm
      rfl
  | complex p zs =>
      obtain rfl := complex_iff.mp ha
      rfl

end Denotes

/-- A sum that may be empty, and the number it is. -/
inductive Totals : Entries Exact → ℂ → Prop where
  | none : Totals .zero 0
  | some {e : Entries Exact} {z : ℂ} : e.Denotes [z] → Totals e z

namespace Totals

variable {a b : Entries Exact} {z w : ℂ}

theorem add (ha : a.Totals z) (hb : b.Denotes [w]) : (zipWith .add a b).Totals (z + w) := by
  cases ha with
  | some ha => exact .some (ha.zipWith Rule.means_add hb)
  | none =>
      rw [zero_add]
      refine .some ?_
      cases b with
      | whole v xs => cases hb
      | real p xs =>
          obtain ⟨ys, rfl, numbers⟩ := Denotes.real_iff.mp hb
          obtain ⟨y, rfl, rfl⟩ := List.map_eq_singleton_iff.mp numbers.symm
          refine Denotes.real_iff.mpr ⟨[y], ?_, rfl⟩
          simp [reals, zero, Rule.add]
      | complex p zs =>
          obtain rfl := Denotes.complex_iff.mp hb
          refine Denotes.complex_iff.mpr ?_
          simp [complexes, zero, Rule.add]

theorem first (ha : a.Totals z) : a.first = .real z.re := by
  cases ha with
  | none => simp [zero, Entries.first]
  | some denotes => exact denotes.first

end Totals

/-- Sums of one number each, added up from a first one. -/
theorem total_totals {start : Entries Exact} {z : ℂ} {es : List (Entries Exact)} {zs : List ℂ}
    (first : start.Totals z) (each : List.Forall₂ (fun e w => e.Denotes [w]) es zs) :
    (total start es).Totals (z + zs.sum) := by
  unfold total
  induction each generalizing start z with
  | nil => simpa using first
  | cons head _ ih =>
      rw [List.foldl_cons, List.sum_cons, ← add_assoc]
      exact ih (first.add head)

end Entries

/-! ## Arrays -/

namespace NDArray

variable {a b : NDArray Exact} {us vs : List ℂ}

theorem denotes_enter (ha : a.entries.Denotes us) : a.enter.entries.Denotes us := by
  unfold enter
  split
  · exact ha.cast_enter
  · exact ha

/-- An array of fractions can always be made one. -/
theorem asArray_of_inexact {R : Type} [Scalar R] {a : NDArray R}
    (inexact : ∀ w, a.entries.kind ≠ .whole w) : a.asArray = .ok a.enter := by
  have fits : ∀ k, a.fitsKind k = true := by
    intro k
    unfold fitsKind
    split <;> simp_all [Entries.kind]
  unfold asArray
  rw [if_pos (fits _)]

theorem asArray_of_denotes (ha : a.entries.Denotes us) : a.asArray = .ok a.enter :=
  asArray_of_inexact ha.kind_ne_whole

theorem asArray_accepts {R : Type} [Scalar R] {a b : NDArray R} (accepted : a.asArray = .ok b) :
    b = a.enter := by
  unfold asArray at accepted
  split at accepted <;> cases accepted
  rfl

theorem zipArrays_denotes {f : Rule Exact} {op : ℂ → ℂ → ℂ} (means : f.Means op)
    (ha : a.entries.Denotes us) (hb : b.entries.Denotes vs) (same : a.shape = b.shape) :
    ∃ c, zipArrays f a b = .ok c ∧ c.shape = a.shape ∧
      c.entries.Denotes (List.zipWith op us vs) := by
  refine ⟨zipSame f a b same, ?_, rfl, ha.zipWith means hb⟩
  unfold zipArrays
  rw [dif_pos same]

/-- Two arrays of one shape are combined entry by entry. -/
theorem zipWith_denotes {f : Rule Exact} {op : ℂ → ℂ → ℂ} (means : f.Means op)
    (ha : a.entries.Denotes us) (hb : b.entries.Denotes vs) (same : a.shape = b.shape) :
    ∃ c, zipWith f a b = .ok c ∧ c.shape = a.shape ∧
      c.entries.Denotes (List.zipWith op us vs) := by
  unfold zipWith meet
  split
  · exact zipArrays_denotes means ha hb same
  · rw [asArray_of_denotes ha, asArray_of_denotes hb]
    exact zipArrays_denotes means (denotes_enter ha) (denotes_enter hb) same

theorem add_denotes (ha : a.entries.Denotes us) (hb : b.entries.Denotes vs)
    (same : a.shape = b.shape) :
    ∃ c, a.add b = .ok c ∧ c.shape = a.shape ∧
      c.entries.Denotes (List.zipWith (· + ·) us vs) :=
  zipWith_denotes Rule.means_add ha hb same

theorem sub_denotes (ha : a.entries.Denotes us) (hb : b.entries.Denotes vs)
    (same : a.shape = b.shape) :
    ∃ c, a.sub b = .ok c ∧ c.shape = a.shape ∧
      c.entries.Denotes (List.zipWith (· - ·) us vs) := by
  have inexact : a.kind.join b.kind ≠ .whole .flag := ha.kind_join_ne_whole hb .flag
  unfold sub
  rw [if_neg inexact]
  exact zipWith_denotes Rule.means_sub ha hb same

theorem scale_denotes (c : ℝ) (ha : a.entries.Denotes us) :
    (a.scale (.real c)).entries.Denotes (us.map fun z => (c : ℂ) * z) := by
  change (Entries.mapInexact (fun p x => p.mul (p.ofNumber (.real c)) x)
    (fun p z => Cartesian.mul p (.ofReal (p.ofNumber (.real c))) z) a.entries).Denotes _
  exact ha.mapInexact (fun p x => ⟨c * x, by simp, by simp⟩) fun p z => by simp

/-- The sum of the products of two arrays of one shape, the first conjugated. -/
theorem dot_denotes (ha : a.entries.Denotes us) (hb : b.entries.Denotes vs)
    (same : a.shape = b.shape) :
    ∃ e, a.dot b = .ok e ∧ e.Denotes [(List.zipWith (fun z w => conj z * w) us vs).sum] := by
  have narrow : ∀ {e e' : Entries Exact} {us' : List ℂ}, e.Denotes us' →
      e.narrows e' = false := by
    intro e e' us' he
    cases he <;> rfl
  refine ⟨_, ?_, (denotes_enter ha).dot Rule.means_conjMul (denotes_enter hb)⟩
  have sizes : ¬ a.enter.size ≠ b.enter.size := by
    simp [size, enter, same]
  unfold dot
  rw [asArray_of_denotes ha, asArray_of_denotes hb]
  simp only [bind, Except.bind, if_neg sizes, narrow (denotes_enter ha)]
  rfl

/-- An array stored over a slot of its shape. -/
theorem storedIn_denotes {slot : NDArray Exact} (hs : slot.entries.Denotes vs)
    (ha : a.entries.Denotes us) (same : a.shape = slot.shape) :
    ∃ c ws, slot.storedIn a = .ok c ∧ c.shape = slot.shape ∧ c.entries.Denotes ws := by
  have fits : a.shape.length ≤ slot.shape.length ∧
      broadcast slot.shape a.shape = some slot.shape := by
    rw [same]
    exact ⟨le_rfl, broadcast_self _⟩
  unfold storedIn
  split
  · exact ⟨slot, vs, rfl, rfl, hs⟩
  · obtain ⟨ws, stored⟩ := ha.cast hs
    exact ⟨_, ws, rfl, same, stored⟩

end NDArray

end ForwardBackward
