/-
# ForwardBackward.Proofs.Doubles -- binary floating point obeys the rules

A positive double is its mantissa and its exponent (`Is`), and doubles are ordered as
the numbers they stand for (`Is.le_iff`).  A product, a quotient and a root are what is
nearest a magnitude (`Nearest`), so they are no smaller than the power of two that they
would start with in exact arithmetic, if that is `2 ^ -1074` or more (`AtLeast`).

From this and from how infinities propagate follow the rules that the theorems about
finiteness ask for (`Double.floating`): they hold of binary floating point as it runs.

Half of a positive double is positive, but for the least one: `half_positive`, and as
the pole `half_zero`.  Half of that counts as zero, and nothing can be divided by it.
-/
import ForwardBackward.Proofs.Finiteness
import ForwardBackward.Proofs.Rounding
import ForwardBackward.Scalar.Double

namespace ForwardBackward

set_option autoImplicit false

open Float.Model (Format UnpackedFloat totalExponent)
open Float.Model.UnpackedFloat

namespace Double

/-- A positive double, `m * 2 ^ e`. -/
structure Is (x : Float) (m : ℕ) (e : ℤ) : Prop where
  nonzero : m ≠ 0
  opened : x.toModel.unpack = signed .positive m e

/-- A double that is at least `2 ^ k`, or infinite. -/
def AtLeast (k : ℤ) (x : Float) : Prop :=
  x.toModel.unpack = .infinity .positive ∨ ∃ m e, Is x m e ∧ dyad 1 k ≤ dyad m e

/-- The double nearest a magnitude that starts with `m * 2 ^ e`. -/
def Nearest (x : Float) (m : ℕ) (e : ℤ) : Prop :=
  ∃ m' e', Rounds m e m' e' ∧ x.toModel.unpack = (Float.Model.pack (signed .positive m' e')).unpack

variable {x y : Float} {m n : ℕ} {e f j k : ℤ}

/-! ## Numbers and their order -/

theorem le_eq (x y : Float) : Scalar.le x y = x.toModel.unpack.le y.toModel.unpack := by
  change decide (decide (_ = true) = true) = _
  rw [Bool.decide_eq_true, Bool.decide_eq_true]
  rfl

theorem lt_eq (x y : Float) : Scalar.lt x y = x.toModel.unpack.lt y.toModel.unpack := by
  change decide (decide (_ = true) = true) = _
  rw [Bool.decide_eq_true, Bool.decide_eq_true]
  rfl

theorem isFinite_eq (x : Float) : Scalar.isFinite x = x.toModel.unpack.isFinite := rfl

/-- A double that differs from itself is not a number. -/
theorem isNaN_eq (x : Float) : Scalar.isNaN x = x.toModel.unpack.isNaN := by
  change (!(x.toModel.unpack.beq x.toModel.unpack)) = _
  cases x.toModel.unpack with
  | notANumber => rfl
  | infinity s => cases s <;> rfl
  | zero s => rfl
  | finite s m e h =>
      cases s <;> simp [UnpackedFloat.beq, UnpackedFloat.compare, UnpackedFloat.isNaN]

/-- Positive numbers that are kept are compared as what they stand for. -/
theorem signed_le_iff (hm : m ≠ 0) (hn : n ≠ 0) (first : Canonical m e) (second : Canonical n f) :
    (signed .positive m e).le (signed .positive n f) = true ↔ dyad m e ≤ dyad n f := by
  have compared : (signed .positive m e).le (signed .positive n f) =
      ((compare e f).then (compare m n)).isLE := by
    rw [signed_eq hm, signed_eq hn]
    rfl
  rw [compared]
  rcases lt_trichotomy e f with less | rfl | greater
  · rw [Int.compare_eq_lt.mpr less]
    simpa using (first.dyad_lt second less).le
  · have same : compare e e = .eq := Std.ReflCmp.compare_self
    rw [dyad_le_iff, same, Ordering.eq_then, Nat.isLE_compare]
  · rw [Int.compare_eq_gt.mpr greater]
    simpa using second.dyad_lt first greater

namespace Is

theorem canonical (is : Is x m e) : Canonical m e ∧ e ≤ 971 :=
  unpack_canonical (is.opened.trans (signed_eq is.nonzero _))

theorem le_iff (hx : Is x m e) (hy : Is y n f) :
    Scalar.le x y = true ↔ dyad m e ≤ dyad n f := by
  rw [le_eq, hx.opened, hy.opened]
  exact signed_le_iff hx.nonzero hy.nonzero hx.canonical.1 hy.canonical.1

theorem isFinite (is : Is x m e) : Scalar.isFinite x = true := by
  rw [isFinite_eq, is.opened, signed_eq is.nonzero]
  rfl

theorem positive (is : Is x m e) : Scalar.lt 0 x = true := by
  rw [lt_eq, is.opened, signed_eq is.nonzero]
  rfl

end Is

/-- The positive doubles. -/
theorem is_of_positive (finite : Scalar.isFinite x = true) (positive : Scalar.lt 0 x = true) :
    ∃ m e, Is x m e := by
  rw [lt_eq] at positive
  rw [isFinite_eq] at finite
  cases opened : x.toModel.unpack with
  | notANumber | infinity =>
      rw [opened] at finite
      cases finite
  | zero =>
      rw [opened] at positive
      cases positive
  | finite s m e h =>
      cases s with
      | negative =>
          rw [opened] at positive
          cases positive
      | positive => exact ⟨m, e, h.ne', opened.trans (signed_eq h.ne' _).symm⟩

/-- What is not at most a positive double is greater. -/
theorem is_of_above (finite : Scalar.isFinite x = true) (hy : Is y n f)
    (above : Scalar.le x y = false) : ∃ m e, Is x m e ∧ dyad n f < dyad m e := by
  have positive : Scalar.lt 0 x = true := by
    rw [le_eq, hy.opened, signed_eq hy.nonzero] at above
    rw [isFinite_eq] at finite
    rw [lt_eq]
    cases opened : x.toModel.unpack with
    | notANumber | infinity =>
        rw [opened] at finite
        cases finite
    | zero =>
        rw [opened] at above
        cases above
    | finite s =>
        cases s with
        | negative =>
            rw [opened] at above
            cases above
        | positive => rfl
  obtain ⟨m, e, is⟩ := is_of_positive finite positive
  exact ⟨m, e, is, not_le.mp (mt (is.le_iff hy).mpr (Bool.eq_false_iff.mp above))⟩

/-- A power of two with all the digits there is place for. -/
theorem Is.power_atLeast (is : Is x (2 ^ 52) e) (low : k ≤ 52 + e) : AtLeast k x := by
  refine .inr ⟨2 ^ 52, e, is, (power_le_iff is.nonzero).mpr ?_⟩
  rw [Nat.log2_two_pow]
  exact low

theorem AtLeast.nonzero (large : AtLeast k x) : Scalar.eq x 0 = false := by
  change x.toModel.unpack.beq (0 : Float).toModel.unpack = false
  rcases large with opened | ⟨m, e, is, _⟩
  · rw [opened]
    rfl
  · rw [is.opened, signed_eq is.nonzero]
    rfl

/-! ## Products, quotients and roots -/

theorem nearest_of_round {u : UnpackedFloat} {a : Accuracy} (enough : 52 ≤ m.log2 ∨ e ≤ -1074)
    (opened : x.toModel.unpack = (Float.Model.pack u).unpack)
    (rounded : u = roundWithAccuracy .binary64 .positive m e a) : Nearest x m e := by
  obtain ⟨m', e', same, rounds⟩ := rounds_of_round .positive a enough
  exact ⟨m', e', rounds, by rw [opened, rounded, same]⟩

/-- A mantissa with its leading digit at the place `t + i` has enough digits, if its last place `t`
is no higher than that of the last digit that is kept. -/
theorem enough_of_leading {q i : ℕ} {t : ℤ} (place : t ≤ max (t + i - 52) (-1074))
    (leading : 2 ^ i ≤ q) : 52 ≤ q.log2 ∨ t ≤ -1074 := by
  rw [Nat.le_log2 (Nat.ne_of_gt ((Nat.two_pow_pos i).trans_le leading))]
  by_cases deeper : t ≤ -1074
  · exact .inr deeper
  · exact .inl ((Nat.pow_le_pow_right two_pos (by omega)).trans leading)

namespace Nearest

theorem atLeast (nearest : Nearest x m e) (deep : -1074 ≤ k) (large : dyad 1 k ≤ dyad m e) :
    AtLeast k x := by
  obtain ⟨m', e', rounds, opened⟩ := nearest
  have still := rounds.lower (by norm_num) deep large
  have nonzero : m' ≠ 0 := rounds.nonzero deep large
  by_cases bounded : e' ≤ 971
  · exact .inr ⟨m', e', ⟨nonzero, opened.trans (unpack_pack rounds.canonical bounded)⟩, still⟩
  · exact .inl (opened.trans (unpack_pack_overflow nonzero (by omega)))

/-- What is below `2 ^ 1023` is not rounded to an infinity. -/
theorem opened (nearest : Nearest x m e) (small : dyad m e < dyad (2 ^ 52) 971) :
    ∃ m' e', Rounds m e m' e' ∧ x.toModel.unpack = signed .positive m' e' := by
  obtain ⟨m', e', rounds, opened⟩ := nearest
  have still := rounds.upper (by norm_num) (by norm_num) small
  have bounded : e' ≤ 971 := by
    by_contra large
    have top : Canonical (2 ^ 52) 971 := ⟨by norm_num, by norm_num, .inr le_rfl⟩
    exact absurd still (not_le.mpr (top.dyad_lt rounds.canonical (by omega)))
  exact ⟨m', e', rounds, opened.trans (unpack_pack rounds.canonical bounded)⟩

end Nearest

/-- A product of two mantissas has enough digits to be rounded. -/
theorem Is.enough_of_mul (hx : Is x m e) (hy : Is y n f) : 52 ≤ (m * n).log2 ∨ e + f ≤ -1074 := by
  have := log2_mul_ge hx.nonzero hy.nonzero
  have first := hx.canonical.1.full
  have second := hy.canonical.1.full
  rw [← Nat.le_log2 hx.nonzero] at first
  rw [← Nat.le_log2 hy.nonzero] at second
  omega

theorem Is.mul_opened (hx : Is x m e) (hy : Is y n f) : (x * y).toModel.unpack =
    (Float.Model.pack (roundWithAccuracy .binary64 .positive (m * n) (e + f) .exact)).unpack := by
  change (Float.Model.pack (UnpackedFloat.mul .binary64 x.toModel.unpack
    y.toModel.unpack)).unpack = _
  rw [hx.opened, hy.opened, signed_eq hx.nonzero, signed_eq hy.nonzero]
  rfl

theorem Is.mul (hx : Is x m e) (hy : Is y n f) : Nearest (x * y) (m * n) (e + f) :=
  nearest_of_round (hx.enough_of_mul hy) (hx.mul_opened hy) rfl

theorem AtLeast.mul (hx : AtLeast j x) (hy : AtLeast k y) (deep : -1074 ≤ j + k) :
    AtLeast (j + k) (x * y) := by
  have product : (x * y).toModel.unpack = (Float.Model.pack
    (UnpackedFloat.mul .binary64 x.toModel.unpack y.toModel.unpack)).unpack := rfl
  rcases hx with hx | ⟨m, e, hx, largeX⟩
  · rcases hy with hy | ⟨n, f, hy, _⟩
    · exact .inl (by rw [product, hx, hy]; rfl)
    · exact .inl (by rw [product, hx, hy.opened, signed_eq hy.nonzero, UnpackedFloat.mul]; rfl)
  · rcases hy with hy | ⟨n, f, hy, largeY⟩
    · exact .inl (by rw [product, hy, hx.opened, signed_eq hx.nonzero, UnpackedFloat.mul]; rfl)
    · refine (hx.mul hy).atLeast deep ?_
      have both := mul_le_mul largeX largeY (dyad_nonneg 1 k) (dyad_nonneg m e)
      simp only [dyad, Nat.cast_one, one_mul, Nat.cast_mul,
        zpow_add₀ (two_ne_zero : (2 : ℚ) ≠ 0)] at both ⊢
      linarith

/-- A quotient that is not too small for its leading digit. -/
theorem Is.div (hx : Is x m e) (hy : Is y n f) (deep : -1074 ≤ m.log2 + e - n.log2 - f - 1) :
    ∃ q t, Nearest (x / y) q t ∧ dyad 1 (m.log2 + e - n.log2 - f - 1) ≤ dyad q t ∧
      dyad q t * dyad n f ≤ dyad m e := by
  -- The place `K` of the leading digit, and the place `t` of the last one before rounding.
  obtain ⟨K, leading⟩ : ∃ K : ℤ, m.log2 + e - n.log2 - f - 1 = K := ⟨_, rfl⟩
  have totals : totalExponent m e - totalExponent n f = K + 1 := by
    simp only [totalExponent]
    omega
  have target : Format.binary64.targetExponent (K + 1) = max (K - 52) (-1074) := by
    simp only [Format.targetExponent, Format.mantissaBits, Format.minExponent]
    omega
  obtain ⟨t, place⟩ : ∃ t : ℤ, min (e - f) (max (K - 52) (-1074)) = t := ⟨_, rfl⟩
  obtain ⟨a, shift⟩ : ∃ a : ℕ, e - f - t = a := ⟨(e - f - t).toNat, by omega⟩
  obtain ⟨i, digits⟩ : ∃ i : ℕ, K - t = i := ⟨(K - t).toNat, by omega⟩
  have least : 2 ^ i ≤ m * 2 ^ a / n := by
    rw [Nat.le_div_iff_mul_le (Nat.pos_of_ne_zero hy.nonzero)]
    calc 2 ^ i * n ≤ 2 ^ i * 2 ^ (n.log2 + 1) := Nat.mul_le_mul_left _ Nat.lt_log2_self.le
      _ = 2 ^ m.log2 * 2 ^ a := by
        rw [← pow_add, ← pow_add]
        congr 1
        omega
      _ ≤ m * 2 ^ a := Nat.mul_le_mul_right _ (Nat.log2_self_le hx.nonzero)
  rw [leading]
  refine ⟨m * 2 ^ a / n, t, nearest_of_round (enough_of_leading (by omega) least)
    (u := UnpackedFloat.div .binary64 x.toModel.unpack y.toModel.unpack) rfl
    (a := accuracyOfFraction (m * 2 ^ a % n) n) ?_, ?_, ?_⟩
  · rw [hx.opened, hy.opened, signed_eq hx.nonzero, signed_eq hy.nonzero]
    simp only [UnpackedFloat.div, divCore, totals, target, place, shift, Int.toNat_natCast,
      Nat.shiftLeft_eq]
    rfl
  · rw [show K = t + i by omega, ← dyad_shift, dyad_le_iff, one_mul]
    exact least
  · have floor : ((m * 2 ^ a / n : ℕ) : ℚ) * n ≤ (m * 2 ^ a : ℕ) := by
      exact_mod_cast Nat.div_mul_le_self _ _
    have scale : (0 : ℚ) < 2 ^ f * 2 ^ t := by positivity
    rw [show e = f + t + a by omega, ← dyad_shift]
    simp only [dyad, zpow_add₀ (two_ne_zero : (2 : ℚ) ≠ 0)]
    nlinarith

theorem AtLeast.sqrt (hx : AtLeast (2 * j) x) (deep : -1074 ≤ j) :
    AtLeast j (Scalar.sqrt x) := by
  have root : (Scalar.sqrt x).toModel.unpack =
    (Float.Model.pack (UnpackedFloat.sqrt .binary64 x.toModel.unpack)).unpack := rfl
  rcases hx with hx | ⟨m, e, hx, large⟩
  · exact .inl (by rw [root, hx]; rfl)
  rw [power_le_iff hx.nonzero] at large
  have bottom := hx.canonical.1.least
  -- The place `K` of the leading digit, and the place `t` of the last one before rounding.
  obtain ⟨K, leading⟩ : ∃ K : ℤ, (m.log2 + e) / 2 = K := ⟨_, rfl⟩
  have target : Format.binary64.targetExponent ((totalExponent m e + 1).ediv 2) =
      max (K - 52) (-1074) := by
    have half : (totalExponent m e + 1).ediv 2 = K + 1 := by
      change (totalExponent m e + 1) / 2 = K + 1
      simp only [totalExponent]
      omega
    rw [half]
    simp only [Format.targetExponent, Format.mantissaBits, Format.minExponent]
    omega
  have half : e.ediv 2 = e / 2 := rfl
  obtain ⟨t, place⟩ : ∃ t : ℤ, min (e.ediv 2) (max (K - 52) (-1074)) = t := ⟨_, rfl⟩
  obtain ⟨a, shift⟩ : ∃ a : ℕ, e - 2 * t = a := ⟨(e - 2 * t).toNat, by omega⟩
  obtain ⟨i, digits⟩ : ∃ i : ℕ, K - t = i := ⟨(K - t).toNat, by omega⟩
  have least : 2 ^ i ≤ Nat.sqrt (m * 2 ^ a) := by
    rw [Nat.le_sqrt, ← pow_add]
    calc 2 ^ (i + i) ≤ 2 ^ (m.log2 + a) := Nat.pow_le_pow_right two_pos (by omega)
      _ = 2 ^ m.log2 * 2 ^ a := pow_add _ _ _
      _ ≤ m * 2 ^ a := Nat.mul_le_mul_right _ (Nat.log2_self_le hx.nonzero)
  have nearest : ∃ acc, UnpackedFloat.sqrt .binary64 x.toModel.unpack =
      roundWithAccuracy .binary64 .positive (Nat.sqrt (m * 2 ^ a)) t acc := by
    rw [hx.opened, signed_eq hx.nonzero]
    simp only [UnpackedFloat.sqrt, sqrtCore, target, place, shift, Int.toNat_natCast,
      Nat.shiftLeft_eq]
    exact ⟨_, rfl⟩
  obtain ⟨acc, rounded⟩ := nearest
  have enough : 52 ≤ (Nat.sqrt (m * 2 ^ a)).log2 ∨ t ≤ -1074 := enough_of_leading (by omega) least
  refine (nearest_of_round enough root rounded).atLeast deep ?_
  calc dyad 1 j ≤ dyad 1 K := (power_le_iff one_ne_zero).mpr (by
        rw [show Nat.log2 1 = 0 from rfl]
        omega)
    _ = dyad (2 ^ i) t := by rw [show K = t + i by omega, ← dyad_shift, one_mul]
    _ ≤ _ := dyad_le_iff.mpr least

/-! ## Whole numbers -/

theorem ofNat_atLeast (positive : n ≠ 0) : AtLeast 0 (.ofModel (.ofNat n)) := by
  obtain ⟨a, shift⟩ : ∃ a : ℕ, (0 - max ((n.log2 : ℤ) + 0 - 52) (-1074)).toNat = a := ⟨_, rfl⟩
  have enough : 52 ≤ (n * 2 ^ a).log2 ∨ (0 : ℤ) - a ≤ -1074 := by
    have := log2_mul_ge positive (Nat.two_pow_pos a).ne'
    rw [Nat.log2_two_pow] at this
    omega
  refine Nearest.atLeast (m := n * 2 ^ a) (e := 0 - a) (nearest_of_round enough
    (u := UnpackedFloat.ofInt .binary64 n) rfl (a := .exact) ?_) (by norm_num) ?_
  · rw [UnpackedFloat.ofInt, UnpackedFloat.normalize, Int.compare_eq_gt.mpr (by omega)]
    simp only [UnpackedFloat.round, target_eq, decreaseExponent, Int.toNat_natCast, shift,
      Nat.shiftLeft_eq]
  · rw [dyad_shift, sub_add_cancel, dyad_le_iff]
    exact Nat.one_le_iff_ne_zero.mpr positive

theorem one_is : Is (Float.ofBits 0x3FF0000000000000) (2 ^ 52) (-52) := ⟨by norm_num, rfl⟩

/-- A whole number that is not zero is at least `1` when it is rounded. -/
theorem ofInt_atLeast (positive : n ≠ 0) : AtLeast 0 (Scalar.ofInt n : Float) := by
  change AtLeast 0 (Float.ofScientific n false 0)
  unfold Float.ofScientific
  split
  · next small =>
    have word : n.toUInt64.toFloat = .ofModel (.ofNat n) := by
      change Float.ofModel (.ofNat (n % 2 ^ 64)) = _
      rw [Nat.mod_eq_of_lt (by omega)]
    have product := (ofNat_atLeast positive).mul (one_is.power_atLeast le_rfl) (by norm_num)
    rw [← word] at product
    exact product
  · next large =>
    have digits : 53 ≤ (n * 2 ^ 53 * 1).log2 := by
      have := log2_mul_ge positive (Nat.two_pow_pos 53).ne'
      rw [Nat.log2_two_pow, ← mul_one (n * 2 ^ 53)] at this
      omega
    have range : ((2 : ℤ) ^ Format.binary64.exponentBits) = 2048 := rfl
    refine Nearest.atLeast (m := n * 2 ^ 53 * 1) (e := -53 + 0) (nearest_of_round
      (.inl (by omega)) (u := UnpackedFloat.ofScientific .binary64 n 0) rfl (a := .exact) ?_)
      (by norm_num) ?_
    · rw [UnpackedFloat.ofScientific, dif_neg positive, range, if_neg (by decide),
        if_neg (by omega), if_pos le_rfl]
      simp only [UnpackedFloat.mul, Nat.shiftLeft_eq]
      rfl
    · rw [mul_one, dyad_shift]
      exact dyad_le_iff.mpr (Nat.one_le_iff_ne_zero.mpr positive)

/-! ## Halves -/

theorem half_is : Is 0.5 (2 ^ 52) (-53) := ⟨by norm_num, rfl⟩

theorem two_is : Is 2 (2 ^ 52) (-51) := ⟨by norm_num, rfl⟩

/-- The least positive double, `2 ^ -1074`. -/
def least : Float := Float.ofBits 1

theorem least_is : Is least 1 (-1074) := ⟨one_ne_zero, rfl⟩

theorem Is.half (is : Is x m e) : ∃ m' e', Rounds (m * 2 ^ 52) (e + -53) m' e' ∧
    (x * 0.5).toModel.unpack = signed .positive m' e' := by
  refine (is.mul half_is).opened ?_
  obtain ⟨canonical, bounded⟩ := is.canonical
  have digits := canonical.log2_le
  rw [dyad_shift, ← one_mul (2 ^ 52), dyad_shift, ← not_le, power_le_iff is.nonzero]
  norm_num
  omega

/-- Half of a double above the least one has a leading digit. -/
theorem Is.half_is (is : Is x m e) (above : dyad 1 (-1074) < dyad m e) :
    ∃ m' e', Is (x * 0.5) m' e' := by
  obtain ⟨m', e', rounds, opened⟩ := is.half
  refine ⟨m', e', rounds.nonzero (k := -1074) le_rfl ?_, opened⟩
  have canonical := is.canonical.1
  have digits : 1 ≤ m.log2 + (e + 1074) := by
    by_cases bottom : e = -1074
    · rw [bottom, dyad_lt_iff] at above
      have : 1 ≤ m.log2 := (Nat.le_log2 is.nonzero).mpr above
      omega
    · have := canonical.least
      omega
  rw [dyad_shift, power_le_iff is.nonzero]
  push_cast
  omega

theorem twice_zero (opened : x.toModel.unpack = .zero .positive) :
    Scalar.eq (2 * x) 0 = true := by
  change (Float.Model.pack (UnpackedFloat.mul .binary64 (2 : Float).toModel.unpack
    x.toModel.unpack)).unpack.beq (0 : Float).toModel.unpack = true
  rw [opened, two_is.opened]
  rfl

/-- Twice a positive double is not zero. -/
theorem Is.twice_nonzero (is : Is x m e) : Scalar.eq (2 * x) 0 = false := by
  have two : AtLeast 1 2 := two_is.power_atLeast le_rfl
  have deep : AtLeast (-1074) x := .inr ⟨m, e, is, (power_le_iff is.nonzero).mpr (by
    have := is.canonical.1.least
    omega)⟩
  exact (two.mul deep (by norm_num)).nonzero

theorem half_finite (positive : Positive x) : Scalar.isFinite (x * 0.5) = true := by
  obtain ⟨m, e, is⟩ := is_of_positive positive.finite positive.above
  obtain ⟨m', e', _, opened⟩ := is.half
  rw [isFinite_eq, opened]
  unfold signed
  split <;> rfl

theorem half_positive (positive : Positive x) (above : Scalar.le x least = false) :
    Positive (x * 0.5) := by
  obtain ⟨m, e, is, large⟩ := is_of_above positive.finite least_is above
  obtain ⟨_, _, half⟩ := is.half_is large
  exact ⟨half.isFinite, half.positive⟩

/-- Half of the least positive double counts as zero. -/
theorem half_zero (positive : Positive x) (below : Scalar.le x least = true) :
    Scalar.eq (2 * (x * 0.5)) 0 = true := by
  obtain ⟨m, e, is⟩ := is_of_positive positive.finite positive.above
  have canonical := is.canonical.1
  have small : dyad m e ≤ dyad 1 (-1074) := (is.le_iff least_is).mp below
  have bottom : e = -1074 := by
    by_contra higher
    have less : -1074 < e := lt_of_le_of_ne canonical.least (Ne.symm higher)
    exact absurd small (not_le.mpr (least_is.canonical.1.dyad_lt canonical less))
  subst bottom
  have one : m = 1 := le_antisymm (dyad_le_iff.mp small) (Nat.one_le_iff_ne_zero.mpr is.nonzero)
  subst one
  refine twice_zero ?_
  change (Float.Model.pack (UnpackedFloat.mul .binary64 x.toModel.unpack
    (0.5 : Float).toModel.unpack)).unpack = _
  rw [is.opened, Double.half_is.opened]
  rfl

/-! ## What is left of a number, divided by another -/

/-- The place of the machine epsilon. -/
def epsPlace : Precision → ℤ
  | .single => -75
  | _ => -104

theorem eps_is (p : Precision) : Is p.eps (2 ^ 52) (epsPlace p) := by
  cases p <;> exact ⟨by norm_num, rfl⟩

theorem kept_is : Is (1 - safety) 8556839292003942 (-53) := ⟨by norm_num, rfl⟩

/-- The machine epsilon is a power of two, so it divides without an error. -/
theorem largest_is (p : Precision) :
    Is ((1 - safety) / p.eps) 8556839292003942 (-53 - (52 + epsPlace p)) := by
  cases p <;> exact ⟨by norm_num, rfl⟩

/-- Above the machine epsilon the inverse is a number, and at most that of the machine epsilon. -/
theorem inverse_is {p : Precision} (finite : Scalar.isFinite x = true)
    (above : Scalar.le x p.eps = false) : ∃ m e, Is ((1 - safety) / x) m e ∧
      dyad m e ≤ dyad 8556839292003942 (-53 - (52 + epsPlace p)) := by
  obtain ⟨n, f, is, large⟩ := is_of_above finite (eps_is p) above
  obtain ⟨canonical, bounded⟩ := is.canonical
  have digits := canonical.log2_le
  have leading : Nat.log2 8556839292003942 = 52 := by decide
  have place : epsPlace p = -75 ∨ epsPlace p = -104 := by cases p <;> simp [epsPlace]
  obtain ⟨q, t, nearest, least, floor⟩ := kept_is.div is (by
    rw [leading]
    omega)
  rw [leading] at least
  have small : dyad q t < dyad 8556839292003942 (-53 - (52 + epsPlace p)) := by
    have positive : 0 < dyad q t := (dyad_pos one_ne_zero _).trans_le least
    have scaled : dyad 8556839292003942 (-53 - (52 + epsPlace p)) =
        dyad 8556839292003942 (-53) / 2 ^ (52 + epsPlace p) := by
      rw [dyad, zpow_sub₀ two_ne_zero, ← mul_div_assoc]
      rfl
    rw [← one_mul (2 ^ 52), dyad_shift] at large
    rw [scaled, lt_div_iff₀ (by positivity)]
    calc dyad q t * 2 ^ (52 + epsPlace p) = dyad q t * dyad 1 (epsPlace p + (52 : ℕ)) := by
          rw [dyad_one, add_comm, Nat.cast_ofNat]
      _ < dyad q t * dyad n f := mul_lt_mul_of_pos_left large positive
      _ ≤ dyad 8556839292003942 (-53) := floor
  obtain ⟨m, e, rounds, opened⟩ := nearest.opened (small.trans (by
    rw [← not_le, ← one_mul (2 ^ 52), dyad_shift, power_le_iff (by norm_num), leading]
    norm_num
    omega))
  have nonzero : m ≠ 0 := rounds.nonzero (by omega) least
  exact ⟨m, e, ⟨nonzero, opened⟩, rounds.upper (by norm_num) (by omega) small⟩

/-! ## The rules -/

section

variable {u v : UnpackedFloat}

theorem finite_of_add (finite : (UnpackedFloat.add .binary64 u v).isFinite = true) :
    u.isFinite = true ∧ v.isFinite = true := by
  cases u <;> cases v <;> first | exact ⟨rfl, rfl⟩ | cases finite | skip
  -- Two infinities are left.
  rw [UnpackedFloat.add] at finite
  split at finite <;> cases finite

theorem finite_of_sub (finite : (UnpackedFloat.sub .binary64 u v).isFinite = true) :
    u.isFinite = true ∧ v.isFinite = true := by
  cases u <;> cases v <;> first | exact ⟨rfl, rfl⟩ | cases finite | skip
  rw [UnpackedFloat.sub] at finite
  split at finite <;> cases finite

theorem finite_of_mul (finite : (UnpackedFloat.mul .binary64 u v).isFinite = true) :
    u.isFinite = true ∧ v.isFinite = true := by
  cases u <;> cases v <;> first | exact ⟨rfl, rfl⟩ | cases finite

theorem finite_of_div (finite : (UnpackedFloat.div .binary64 u v).isFinite = true) :
    u.isFinite = true := by
  cases u <;> cases v <;> first | rfl | cases finite

theorem finite_of_sqrt (finite : (UnpackedFloat.sqrt .binary64 u).isFinite = true) :
    u.isFinite = true := by
  cases u with
  | zero | finite => rfl
  | notANumber => cases finite
  | infinity s => cases s <;> cases finite

theorem finite_of_narrow (finite : (narrow u).isFinite = true) : u.isFinite = true := by
  cases u with
  | zero | finite => rfl
  | notANumber | infinity => exact finite

theorem finite_of_widen (finite : (widen u).toModel.unpack.isFinite = true) :
    u.isFinite = true := by
  cases u with
  | zero | finite => rfl
  | notANumber | infinity => exact isFinite_of_pack finite

theorem isNaN_round (s : Sign) (m : ℕ) (e : ℤ) (acc : Accuracy) :
    (roundWithAccuracy .binary64 s m e acc).isNaN = false := by
  unfold roundWithAccuracy
  dsimp only
  split <;> rfl

theorem isNaN_add (hu : u.isFinite = true) (hv : v.isFinite = true) :
    (UnpackedFloat.add .binary64 u v).isNaN = false := by
  cases u with
  | notANumber | infinity => cases hu
  | zero s =>
      cases v with
      | notANumber | infinity => cases hv
      | finite => rfl
      | zero t =>
          rw [UnpackedFloat.add]
          split <;> rfl
  | finite s m e h =>
      cases v with
      | notANumber | infinity => cases hv
      | zero => rfl
      | finite t n f h' =>
          simp only [UnpackedFloat.add, UnpackedFloat.normalize]
          split
          · exact isNaN_round ..
          · rfl
          · exact isNaN_round ..

end

instance floating : Floating Float where
  of_add finite := finite_of_add (isFinite_of_pack finite)
  of_sub finite := finite_of_sub (isFinite_of_pack finite)
  of_mul finite := finite_of_mul (isFinite_of_pack finite)
  of_div finite := finite_of_div (isFinite_of_pack finite)
  of_sqrt finite := finite_of_sqrt (isFinite_of_pack finite)
  of_round {p x} finite := by
    change Scalar.isFinite (if p = .single then widen (narrow x.toModel.unpack) else x) = true
      at finite
    split at finite
    · exact finite_of_narrow (finite_of_widen finite)
    · exact finite
  of_normal {p x} finite := by
    change Scalar.isFinite (if x.abs < smallestNormal p then x * 0 else x) = true at finite
    split at finite
    · exact (finite_of_mul (isFinite_of_pack finite)).1
    · exact finite
  undefined_isNaN := rfl
  add_isNaN hx hy := by
    rw [isNaN_eq]
    exact isNaN_pack (isNaN_add hx hy)
  half {x} finite positive := by
    have usable : Positive x := ⟨finite, positive⟩
    cases above : Scalar.le x least with
    | false =>
        have half := half_positive usable above
        exact ⟨half.finite, .inl half.above⟩
    | true => exact ⟨half_finite usable, .inr (half_zero usable above)⟩
  one_above {p} := by cases p <;> exact ⟨rfl, rfl⟩
  inverse finite above := by
    obtain ⟨m, e, is, _⟩ := inverse_is finite above
    exact ⟨is.isFinite, is.positive⟩

end Double

end ForwardBackward
