/-
# ForwardBackward.Proofs.Exact -- exact arithmetic

`Exact` is the real numbers with two infinities and a not-a-number.  Nothing is
rounded and no number is too small, in any precision; what has no value follows
the rules of floating point: `0 * ∞`, `∞ - ∞`, `0 / 0` and the root of a negative
number are not numbers, a nonzero number divided by zero is infinite, and every
test of a not-a-number fails.  Zero has no sign.

A theorem about "exact arithmetic" is a theorem about this instance.

Main facts: the operations on real numbers are those of `ℝ` (`real_add` and its
siblings), and a finite sum or product has finite operands (`eq_real_of_add`,
`eq_real_of_mul`).
-/
import ForwardBackward.Fault
import Mathlib.Analysis.Real.Sqrt
import Mathlib.Data.EReal.Basic
import Mathlib.Tactic.NormNum

namespace ForwardBackward

set_option autoImplicit false

/-- The numeral two.  A definition that holds it refers to this fact and needs none of its own. -/
instance two_atLeastTwo : Nat.AtLeastTwo 2 := ⟨le_rfl⟩

/-- Real numbers, infinities and a not-a-number. -/
inductive Exact where
  | real (x : ℝ)
  | infinite (negative : Bool)
  | undefined

namespace Exact

/-- The number among the extended reals; a not-a-number is none of them. -/
noncomputable def extended? : Exact → Option EReal
  | real x => some x
  | infinite negative => some (if negative then ⊥ else ⊤)
  | undefined => none

/-- The number if it is real; zero for what is not. -/
def toReal : Exact → ℝ
  | real x => x
  | _ => 0

protected def add : Exact → Exact → Exact
  | real x, real y => real (x + y)
  | real _, infinite t => infinite t
  | infinite s, real _ => infinite s
  | infinite s, infinite t => if s = t then infinite s else undefined
  | _, _ => undefined

protected def neg : Exact → Exact
  | real x => real (-x)
  | infinite s => infinite !s
  | undefined => undefined

open Classical in
/-- An infinity times a real number. -/
noncomputable def timesInfinite (x : ℝ) (s : Bool) : Exact :=
  if x = 0 then undefined else infinite (s != decide (x < 0))

protected noncomputable def mul : Exact → Exact → Exact
  | real x, real y => real (x * y)
  | real x, infinite t => timesInfinite x t
  | infinite s, real y => timesInfinite y s
  | infinite s, infinite t => infinite (s != t)
  | _, _ => undefined

open Classical in
protected noncomputable def div : Exact → Exact → Exact
  | real x, real y =>
      if y = 0 then (if x = 0 then undefined else infinite (decide (x < 0))) else real (x / y)
  | real _, infinite _ => real 0
  | infinite s, real y => infinite (s != decide (y < 0))
  | _, _ => undefined

open Classical in
protected noncomputable def sqrt : Exact → Exact
  | real x => if x < 0 then undefined else real (√x)
  | infinite false => infinite false
  | _ => undefined

protected noncomputable def abs : Exact → Exact
  | real x => real |x|
  | infinite _ => infinite false
  | undefined => undefined

/-- A test of two numbers, failed by a not-a-number. -/
noncomputable def test (holds : EReal → EReal → Bool) (x y : Exact) : Bool :=
  match x.extended?, y.extended? with
  | some a, some b => holds a b
  | _, _ => false

def isReal : Exact → Bool
  | real _ => true
  | _ => false

open Classical in
noncomputable instance : Scalar Exact where
  add := Exact.add
  sub x y := x.add y.neg
  mul := Exact.mul
  div := Exact.div
  neg := Exact.neg
  nearest _ n := real n
  decimal m negative e := real (if negative then m / 10 ^ e else m * 10 ^ e)
  round _ x := x
  normal _ x := x
  abs := Exact.abs
  sqrt := Exact.sqrt
  eq := test fun a b => decide (a = b)
  lt := test fun a b => decide (a < b)
  le := test fun a b => decide (a ≤ b)
  isFinite := isReal
  truncate
    | real x => if 0 ≤ x then ⌊x⌋ else ⌈x⌉
    | _ => 0
  divides x y := decide (x.toReal ≠ 0 ∧ ∃ k : ℤ, y = real (k * x.toReal))
  infinity := infinite false
  undefined := undefined

/-! ## Real numbers -/

section Real

variable (x y : ℝ)

@[simp] theorem toReal_real : (real x).toReal = x := rfl

@[simp] theorem real_add : real x + real y = real (x + y) := rfl

@[simp] theorem real_sub : real x - real y = real (x - y) := by
  rw [sub_eq_add_neg]
  rfl

@[simp] theorem real_mul : real x * real y = real (x * y) := rfl

@[simp] theorem neg_real : -real x = real (-x) := rfl

theorem real_div (h : y ≠ 0) : real x / real y = real (x / y) := if_neg h

@[simp] theorem isFinite_real : Scalar.isFinite (real x) = true := rfl

@[simp] theorem abs_real : Scalar.abs (real x) = real |x| := rfl

theorem sqrt_real (h : 0 ≤ x) : Scalar.sqrt (real x) = real (√x) := if_neg h.not_gt

@[simp] theorem le_real : Scalar.le (real x) (real y) = true ↔ x ≤ y := by
  change decide ((x : EReal) ≤ y) = true ↔ _
  simp

@[simp] theorem lt_real : Scalar.lt (real x) (real y) = true ↔ x < y := by
  change decide ((x : EReal) < y) = true ↔ _
  simp

@[simp] theorem eq_real : Scalar.eq (real x) (real y) = true ↔ x = y := by
  change decide ((x : EReal) = y) = true ↔ _
  simp

@[simp] theorem isNaN_real : Scalar.isNaN (real x) = false := by
  simp [Scalar.isNaN]

@[simp] theorem ofInt_eq (n : ℤ) : (Scalar.ofInt n : Exact) = real n := rfl

@[simp] theorem nearest_eq (p : Precision) (n : ℤ) : (Scalar.nearest p n : Exact) = real n := rfl

@[simp] theorem ofNat_eq (n : ℕ) : (@OfNat.ofNat Exact n (Scalar.instOfNat n)) = real n := by
  change real ((n : ℤ) : ℝ) = _
  rw [Int.cast_natCast]

theorem zero_eq : (0 : Exact) = real 0 := by simp

theorem one_eq : (1 : Exact) = real 1 := by simp

theorem two_eq : (2 : Exact) = real 2 := by simp

theorem four_eq : (4 : Exact) = real 4 := by simp

@[simp] theorem half_eq : (0.5 : Exact) = real (1 / 2) := by
  change real (((5 : ℕ) : ℝ) / 10 ^ 1) = _
  norm_num

theorem max_real : Scalar.max (real x) (real y) = real (max x y) := by
  by_cases h : x < y
  · simp [Scalar.max, h, h.le]
  · simp [Scalar.max, h, not_lt.mp h]

theorem min_real : Scalar.min (real x) (real y) = real (min x y) := by
  by_cases h : y < x
  · simp [Scalar.min, h, h.le]
  · simp [Scalar.min, h, not_lt.mp h]

end Real

theorem quotient_real {x y : ℝ} {z : Exact} :
    Scalar.quotient (real x) (real y) = .ok z ↔ y ≠ 0 ∧ z = real (x / y) := by
  unfold Scalar.quotient
  rw [zero_eq]
  by_cases zero : y = 0
  · simp [zero]
  · have nonzero : Scalar.eq (real y) (real 0) = false :=
      Bool.eq_false_iff.mpr fun equal => zero ((eq_real y 0).mp equal)
    rw [nonzero, real_div x y zero]
    simp [zero, eq_comm]

theorem square_real (x : ℝ) : Scalar.square (real x) = .ok (real (x ^ 2)) := by
  simp [Scalar.square, sq]

/-! ## What is finite -/

theorem isFinite_iff (x : Exact) : Scalar.isFinite x = true ↔ ∃ a, x = real a := by
  cases x with
  | real a => simp
  | infinite s => simp [Scalar.isFinite, isReal]
  | undefined => simp [Scalar.isFinite, isReal]

theorem eq_real_of_add {x y : Exact} {a : ℝ} (sum : x + y = real a) :
    ∃ b c, x = real b ∧ y = real c ∧ a = b + c := by
  change Exact.add x y = real a at sum
  unfold Exact.add at sum
  split at sum
  case h_1 b c => exact ⟨b, c, rfl, rfl, (real.inj sum).symm⟩
  case h_4 => split at sum <;> cases sum
  all_goals cases sum

theorem eq_real_of_mul {x y : Exact} {a : ℝ} (product : x * y = real a) :
    ∃ b c, x = real b ∧ y = real c ∧ a = b * c := by
  change Exact.mul x y = real a at product
  unfold Exact.mul timesInfinite at product
  split at product
  case h_1 b c => exact ⟨b, c, rfl, rfl, (real.inj product).symm⟩
  case h_2 => split at product <;> cases product
  case h_3 => split at product <;> cases product
  all_goals cases product

/-- A number that is at most another one, both of which are real, or have an infinity on its
side of the order. -/
theorem le_real_right {x : Exact} {a : ℝ} (le : Scalar.le (real a) x = true) :
    x = infinite false ∨ ∃ b, x = real b ∧ a ≤ b := by
  cases x with
  | real b => exact .inr ⟨b, rfl, (le_real a b).mp le⟩
  | infinite s =>
      cases s with
      | false => exact .inl rfl
      | true =>
          change decide ((a : EReal) ≤ ⊥) = true at le
          simp at le
  | undefined => cases le

/-! ## Infinities -/

theorem isNaN_undefined : Scalar.isNaN (undefined : Exact) = true := rfl

theorem max_bottom (x : ℝ) : Scalar.max (infinite true) (real x) = real x := by
  have below : Scalar.lt (infinite true) (real x) = true := by
    change decide ((⊥ : EReal) < x) = true
    simp
  have number : Scalar.isNaN (infinite true) = false := by
    change (!decide ((⊥ : EReal) = ⊥)) = false
    simp
  simp [Scalar.max, below, number]

theorem min_top (x : ℝ) : Scalar.min (infinite false) (real x) = real x := by
  have above : Scalar.lt (real x) (infinite false) = true := by
    change decide ((x : EReal) < ⊤) = true
    simp
  have number : Scalar.isNaN (infinite false) = false := by
    change (!decide ((⊤ : EReal) = ⊤)) = false
    simp
  simp [Scalar.min, above, number]

theorem le_top (x : ℝ) : Scalar.le (real x) (infinite false) = true := by
  change decide ((x : EReal) ≤ ⊤) = true
  simp

theorem bottom_le (x : ℝ) : Scalar.le (infinite true) (real x) = true := by
  change decide ((⊥ : EReal) ≤ x) = true
  simp

theorem le_mul_undefined (x t : Exact) : Scalar.le x (t * Scalar.undefined) = false := by
  have product : t * Scalar.undefined = (Scalar.undefined : Exact) := by cases t <;> rfl
  rw [product]
  cases x <;> rfl

theorem le_of_eq {x y : Exact} (same : Scalar.eq x y = true) : Scalar.le x y = true := by
  change test (fun a b => decide (a = b)) x y = true at same
  change test (fun a b => decide (a ≤ b)) x y = true
  unfold test at same ⊢
  split at same
  · exact decide_eq_true (of_decide_eq_true same).le
  · cases same

end Exact

/-! ## Precisions -/

namespace Precision

variable (p q : Precision) (x y : Exact)

@[simp] theorem normal_exact : Scalar.normal p x = x := rfl

@[simp] theorem result_exact : p.result x = x := rfl

@[simp] theorem convert_exact : convert p q x = x := by
  unfold convert
  split <;> rfl

@[simp] theorem ofNumber_exact : p.ofNumber x = x := convert_exact _ _ _

@[simp] theorem add_exact : p.add x y = x + y := rfl

@[simp] theorem sub_exact : p.sub x y = x - y := rfl

@[simp] theorem mul_exact : p.mul x y = x * y := rfl

@[simp] theorem div_exact : p.div x y = x / y := rfl

@[simp] theorem sqrt_exact : p.sqrt x = Scalar.sqrt x := rfl

@[simp] theorem max_exact : p.max x y = Scalar.max x y := rfl

@[simp] theorem min_exact : p.min x y = Scalar.min x y := rfl

@[simp] theorem lt_exact : p.lt x y = Scalar.lt x y := rfl

@[simp] theorem le_exact : p.le x y = Scalar.le x y := rfl

@[simp] theorem eq_exact : p.eq x y = Scalar.eq x y := rfl

end Precision

end ForwardBackward
