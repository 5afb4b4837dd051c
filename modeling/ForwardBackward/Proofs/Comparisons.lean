/-
# ForwardBackward.Proofs.Comparisons -- the larger and the smaller of two numbers

In floating point numbers are in order, infinities among them, and every comparison with
what is not a number fails.  `Comparing` lists these rules, and that a number which is not
too small for a precision is none after that.  The real numbers with infinities and a
not-a-number obey them (`Exact.comparing`), and so does binary floating point as it runs
(`Double.comparing`).

A number `x` is moved between two bounds by `min upper (max lower x)`.  The result lies
between the bounds if and only if these are in order and `x` is a number
(`Precision.between_clamp_iff`): nothing else is needed, and nothing less is enough.
-/
import ForwardBackward.Proofs.Exact

namespace ForwardBackward

set_option autoImplicit false

namespace Scalar

variable {R : Type} [Scalar R] {x y : R}

/-- The larger of two numbers is one of them, and so is the smaller. -/
theorem max_eq_or (x y : R) : Scalar.max x y = x ∨ Scalar.max x y = y := by
  unfold Scalar.max
  split_ifs <;> simp

theorem min_eq_or (x y : R) : Scalar.min x y = x ∨ Scalar.min x y = y := by
  unfold Scalar.min
  split_ifs <;> simp

theorem isNaN_max (hx : isNaN x = false) (hy : isNaN y = false) :
    isNaN (Scalar.max x y) = false := by
  rcases max_eq_or x y with same | same <;> rw [same] <;> assumption

theorem isNaN_min (hx : isNaN x = false) (hy : isNaN y = false) :
    isNaN (Scalar.min x y) = false := by
  rcases min_eq_or x y with same | same <;> rw [same] <;> assumption

/-- What is not a number wins. -/
theorem numbers_of_max (number : isNaN (Scalar.max x y) = false) :
    isNaN x = false ∧ isNaN y = false := by
  unfold Scalar.max at number
  split_ifs at number with first second
  · simp [first] at number
  · simp [second] at number
  all_goals exact ⟨Bool.eq_false_iff.mpr first, Bool.eq_false_iff.mpr second⟩

theorem numbers_of_min (number : isNaN (Scalar.min x y) = false) :
    isNaN x = false ∧ isNaN y = false := by
  unfold Scalar.min at number
  split_ifs at number with first second
  · simp [first] at number
  · simp [second] at number
  all_goals exact ⟨Bool.eq_false_iff.mpr first, Bool.eq_false_iff.mpr second⟩

end Scalar

/-- The rules of floating point for comparisons. -/
class Comparing (R : Type) [Scalar R] : Prop where
  /-- What is compared with success is a number. -/
  numbers {x y : R} : Scalar.le x y = true → Scalar.isNaN x = false ∧ Scalar.isNaN y = false
  total {x y : R} : Scalar.isNaN x = false → Scalar.isNaN y = false →
    Scalar.le x y = true ∨ Scalar.lt y x = true
  le_of_lt {x y : R} : Scalar.lt x y = true → Scalar.le x y = true
  trans {x y z : R} : Scalar.le x y = true → Scalar.le y z = true → Scalar.le x z = true
  normal_normal {p : Precision} {x : R} : Scalar.normal p (Scalar.normal p x) = Scalar.normal p x

namespace Comparing

variable {R : Type} [Scalar R] [Comparing R] {l u x y : R}

theorem le_self (number : Scalar.isNaN x = false) : Scalar.le x x = true :=
  (total number number).elim id le_of_lt

/-- The larger of two numbers is not below the first one. -/
theorem le_max (number : Scalar.isNaN (Scalar.max x y) = false) :
    Scalar.le x (Scalar.max x y) = true := by
  obtain ⟨hx, hy⟩ := Scalar.numbers_of_max number
  unfold Scalar.max
  simp only [hx, hy, Bool.false_eq_true, if_false]
  split
  · next below => exact le_of_lt below
  · exact le_self hx

/-- The smaller of two numbers is not above the first one. -/
theorem min_le (number : Scalar.isNaN (Scalar.min x y) = false) :
    Scalar.le (Scalar.min x y) x = true := by
  obtain ⟨hx, hy⟩ := Scalar.numbers_of_min number
  unfold Scalar.min
  simp only [hx, hy, Bool.false_eq_true, if_false]
  split
  · next below => exact le_of_lt below
  · exact le_self hx

/-- What was moved to the nearest bound lies between the bounds if these are in order and it is
a number, and in no other case. -/
theorem between_clamp_iff :
    (Scalar.le l (Scalar.min u (Scalar.max l x)) = true ∧
      Scalar.le (Scalar.min u (Scalar.max l x)) u = true) ↔
      Scalar.le l u = true ∧ Scalar.isNaN x = false := by
  constructor
  · rintro ⟨above, below⟩
    have raised := (Scalar.numbers_of_min (numbers below).1).2
    exact ⟨trans above below, (Scalar.numbers_of_max raised).2⟩
  · rintro ⟨ordered, number⟩
    obtain ⟨low, high⟩ := numbers ordered
    have raised := Scalar.isNaN_max low number
    refine ⟨?_, min_le (Scalar.isNaN_min high raised)⟩
    rcases Scalar.min_eq_or u (Scalar.max l x) with upper | inner
    · rw [upper]
      exact ordered
    · rw [inner]
      exact le_max raised

end Comparing

namespace Precision

variable {R : Type} [Scalar R] [Comparing R] (p : Precision) (l u x : R)

/-- A precision reads the larger of two of its numbers as it is, and the smaller too. -/
theorem normal_max : Scalar.normal p (p.max l x) = p.max l x := by
  unfold Precision.max
  rcases Scalar.max_eq_or (Scalar.normal p l) (Scalar.normal p x) with same | same <;> rw [same] <;>
    exact Comparing.normal_normal

theorem normal_min : Scalar.normal p (p.min u x) = p.min u x := by
  unfold Precision.min
  rcases Scalar.min_eq_or (Scalar.normal p u) (Scalar.normal p x) with same | same <;> rw [same] <;>
    exact Comparing.normal_normal

/-- As for numbers, so for numbers of a precision. -/
theorem between_clamp_iff :
    (p.le l (p.min u (p.max l x)) = true ∧ p.le (p.min u (p.max l x)) u = true) ↔
      p.le l u = true ∧ p.eq x x = true := by
  have moved : p.min u (p.max l x) = Scalar.min (Scalar.normal p u)
      (Scalar.max (Scalar.normal p l) (Scalar.normal p x)) := by
    rw [Precision.min, normal_max]
    rfl
  unfold Precision.le
  rw [normal_min, moved, Comparing.between_clamp_iff]
  simp [Scalar.isNaN, Precision.eq]

end Precision

/-! ## Exact arithmetic -/

namespace Exact

/-- A test holds of numbers on the extended line, if it holds there. -/
theorem test_iff {holds : EReal → EReal → Bool} {x y : Exact} :
    test holds x y = true ↔ ∃ a b, x.extended? = some a ∧ y.extended? = some b ∧
      holds a b = true := by
  unfold test
  cases x.extended? <;> cases y.extended? <;> simp

theorem isNaN_iff {x : Exact} : Scalar.isNaN x = false ↔ ∃ a, x.extended? = some a := by
  cases x with
  | real a => exact ⟨fun _ => ⟨_, rfl⟩, fun _ => isNaN_real a⟩
  | infinite s =>
      refine ⟨fun _ => ⟨_, rfl⟩, fun _ => ?_⟩
      change (!decide (_ = _)) = false
      simp
  | undefined => exact ⟨nofun, nofun⟩

instance comparing : Comparing Exact where
  numbers below := by
    obtain ⟨a, b, hx, hy, _⟩ := test_iff.mp below
    exact ⟨isNaN_iff.mpr ⟨a, hx⟩, isNaN_iff.mpr ⟨b, hy⟩⟩
  total hx hy := by
    obtain ⟨a, hx⟩ := isNaN_iff.mp hx
    obtain ⟨b, hy⟩ := isNaN_iff.mp hy
    rcases le_or_gt a b with below | above
    · exact .inl (test_iff.mpr ⟨a, b, hx, hy, decide_eq_true below⟩)
    · exact .inr (test_iff.mpr ⟨b, a, hy, hx, decide_eq_true above⟩)
  le_of_lt below := by
    obtain ⟨a, b, hx, hy, less⟩ := test_iff.mp below
    exact test_iff.mpr ⟨a, b, hx, hy, decide_eq_true (of_decide_eq_true less).le⟩
  trans first second := by
    obtain ⟨a, b, hx, hy, below⟩ := test_iff.mp first
    obtain ⟨b', c, hy', hz, below'⟩ := test_iff.mp second
    obtain rfl : b = b' := Option.some.inj (hy.symm.trans hy')
    exact test_iff.mpr ⟨a, c, hx, hz,
      decide_eq_true ((of_decide_eq_true below).trans (of_decide_eq_true below'))⟩
  normal_normal := rfl

end Exact

end ForwardBackward
