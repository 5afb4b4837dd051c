/-
# ForwardBackward.Proofs.DoubleOrder -- doubles are in order, and products keep it

Two doubles are compared by their range, then by their exponents and then by their
mantissas: numbers stand in the order of their places (`rank`, `compare_eq_rank`), and
what is not a number has none.  So the rules for comparisons hold of binary floating
point as it runs (`Double.comparing`).

Rounding keeps the order (`round_mono`).  Of what is cut off a mantissa two digits are
left, and a mantissa with these two digits is cut and rounded in its order (`code_mono`,
`rounded_mono`).  Where two numbers are cut at different places there is a power of two
between them, and it is kept.  So a product of positive numbers grows with its factors
(`Is.mul_le_mul`), an infinity at its end, and the rules behind the standard predicate
hold too (`Double.scaling`).

Pole: nothing is compared with a multiple of what is not a number (`le_mul_undefined`).
-/
import ForwardBackward.Proofs.Comparisons
import ForwardBackward.Proofs.Doubles
import ForwardBackward.Proofs.Trajectory

namespace ForwardBackward

set_option autoImplicit false

open Float.Model (Format UnpackedFloat totalExponent)
open Float.Model.UnpackedFloat

namespace Double

variable {x y z : Float} {u v : UnpackedFloat} {m n k i j : ℕ} {e f g : ℤ}

/-! ## Comparisons -/

/-- The place of a number among the numbers: its range, its exponent and its mantissa. -/
def rank : UnpackedFloat → Option (ℤ ×ₗ ℤ ×ₗ ℤ)
  | .notANumber => none
  | .infinity .positive => some (toLex (2, toLex (0, 0)))
  | .infinity .negative => some (toLex (-2, toLex (0, 0)))
  | .zero _ => some (toLex (0, toLex (0, 0)))
  | .finite .positive m e _ => some (toLex (1, toLex (e, (m : ℤ))))
  | .finite .negative m e _ => some (toLex (-1, toLex (-e, -(m : ℤ))))

theorem compare_neg (e f : ℤ) : compare (-e) (-f) = (compare e f).swap := by
  rw [Int.compare_swap, ← cmp_eq_compare, ← cmp_eq_compare]
  exact StrictAnti.cmp_map_eq (f := (- · : ℤ → ℤ)) (fun _ _ less => neg_lt_neg less) e f

theorem compare_cast (m n : ℕ) : compare (m : ℤ) n = compare m n := by
  rw [← cmp_eq_compare, ← cmp_eq_compare]
  exact Nat.strictMono_cast.cmp_map_eq m n

/-- Numbers are compared as their places are, and nothing else is compared. -/
theorem compare_eq_rank (u v : UnpackedFloat) :
    u.compare v = (rank u).bind fun a => (rank v).map (compare a) := by
  have places (i j e f m n : ℤ) : compare (toLex (i, toLex (e, m))) (toLex (j, toLex (f, n))) =
      (compare i j).then ((compare e f).then (compare m n)) := rfl
  cases u with
  | notANumber => rfl
  | zero =>
      cases v with
      | notANumber | zero => rfl
      | infinity t | finite t => cases t <;> rfl
  | infinity s =>
      cases v with
      | notANumber | zero => cases s <;> rfl
      | infinity t | finite t => cases s <;> cases t <;> rfl
  | finite s m e =>
      cases v with
      | notANumber | zero => cases s <;> rfl
      | infinity t => cases s <;> cases t <;> rfl
      | finite t n f =>
          -- Only numbers of one sign are compared beyond their ranges.
          cases s <;> cases t
          · change _ = some (compare (toLex _) (toLex _))
            rw [places, compare_neg e f, compare_neg (m : ℤ) n, compare_cast,
              UnpackedFloat.compare, Ordering.swap_then]
            rfl
          · rfl
          · rfl
          · change _ = some (compare (toLex _) (toLex _))
            rw [places, compare_cast]
            rfl

theorem le_iff_rank : u.le v = true ↔ ∃ a b, rank u = some a ∧ rank v = some b ∧ a ≤ b := by
  rw [UnpackedFloat.le, compare_eq_rank]
  cases rank u <;> cases rank v <;> simp [Ordering.isLE_iff_ne_gt, compare_gt_iff_gt]

theorem lt_iff_rank : u.lt v = true ↔ ∃ a b, rank u = some a ∧ rank v = some b ∧ a < b := by
  rw [UnpackedFloat.lt, compare_eq_rank]
  cases rank u <;> cases rank v <;> simp [compare_lt_iff_lt]

theorem isNaN_iff_rank (x : Float) :
    Scalar.isNaN x = false ↔ ∃ a, rank x.toModel.unpack = some a := by
  rw [isNaN_eq]
  cases x.toModel.unpack with
  | notANumber => exact ⟨nofun, nofun⟩
  | zero s => exact ⟨fun _ => ⟨_, rfl⟩, fun _ => rfl⟩
  | infinity s | finite s => cases s <;> exact ⟨fun _ => ⟨_, rfl⟩, fun _ => rfl⟩

/-- What is too small for a precision counts as a zero of its sign; everything else is kept. -/
theorem normal_cases (p : Precision) (x : Float) : Scalar.normal p x = x ∨ ∃ u : UnpackedFloat,
    (u = .notANumber ∨ ∃ s, u = .zero s) ∧ Scalar.normal p x = .ofModel (.pack u) := by
  by_cases small : x.abs < smallestNormal p
  · have product : Scalar.normal p x = .ofModel (.pack (UnpackedFloat.mul .binary64
      x.toModel.unpack (.zero .positive))) := if_pos small
    rw [product]
    cases x.toModel.unpack with
    | notANumber | infinity s => exact .inr ⟨_, .inl rfl, rfl⟩
    | zero s | finite s => exact .inr ⟨_, .inr ⟨_, rfl⟩, rfl⟩
  · exact .inl (if_neg small)

theorem normal_normal (p : Precision) (x : Float) :
    Scalar.normal p (Scalar.normal p x) = Scalar.normal p x := by
  rcases normal_cases p x with kept | ⟨u, rfl | ⟨s, rfl⟩, replaced⟩
  · rw [kept, kept]
  · rw [replaced]
    cases p <;> rfl
  · rw [replaced]
    cases s <;> cases p <;> rfl

instance comparing : Comparing Float where
  numbers {x y} below := by
    obtain ⟨a, b, hx, hy, _⟩ := le_iff_rank.mp ((le_eq x y).symm.trans below)
    exact ⟨(isNaN_iff_rank x).mpr ⟨a, hx⟩, (isNaN_iff_rank y).mpr ⟨b, hy⟩⟩
  total {x y} hx hy := by
    obtain ⟨a, hx⟩ := (isNaN_iff_rank x).mp hx
    obtain ⟨b, hy⟩ := (isNaN_iff_rank y).mp hy
    rw [le_eq, lt_eq, le_iff_rank, lt_iff_rank]
    exact (le_or_gt a b).imp (fun below => ⟨a, b, hx, hy, below⟩) fun above => ⟨b, a, hy, hx, above⟩
  le_of_lt below := by
    rw [lt_eq, lt_iff_rank] at below
    obtain ⟨a, b, hx, hy, less⟩ := below
    rw [le_eq, le_iff_rank]
    exact ⟨a, b, hx, hy, less.le⟩
  trans {x y z} first second := by
    rw [le_eq, le_iff_rank] at first second ⊢
    obtain ⟨a, b, hx, hy, below⟩ := first
    obtain ⟨b', c, hy', hz, below'⟩ := second
    obtain rfl : b = b' := Option.some.inj (hy.symm.trans hy')
    exact ⟨a, c, hx, hz, below.trans below'⟩
  normal_normal := normal_normal _ _

/-! ## Rounding keeps the order -/

section

variable {a b : ExtendedMantissa}

/-- A mantissa with what was cut off from it, as one number: the digit cut off last, and whether
anything was cut off before. -/
def code (em : ExtendedMantissa) : ℕ :=
  4 * em.mantissa + 2 * em.roundBit.toNat + em.stickyBit.toNat

/-- A mantissa is rounded to nearest and ties to even, and both grow with it. -/
theorem rounded_mono (le : code a ≤ code b) : a.roundedMantissa ≤ b.roundedMantissa := by
  obtain ⟨m, round, sticky⟩ := a
  obtain ⟨n, round', sticky'⟩ := b
  cases round <;> cases sticky <;> cases round' <;> cases sticky' <;>
    simp only [code, Bool.toNat_true, Bool.toNat_false, ExtendedMantissa.roundedMantissa,
      ExtendedMantissa.accuracy, Accuracy.roundToNearestEven] at le ⊢ <;> omega

theorem code_shiftRightOne (em : ExtendedMantissa) :
    code em.shiftRightOne = 2 * (code em / 4) + min (code em % 4) 1 := by
  obtain ⟨m, round, sticky⟩ := em
  have digit : (m % 2 != 0).toNat = m % 2 := by
    rcases Nat.mod_two_eq_zero_or_one m with digit | digit <;> rw [digit] <;> rfl
  simp only [code, ExtendedMantissa.shiftRightOne, digit]
  cases round <;> cases sticky <;> simp only [Bool.toNat_true, Bool.toNat_false, Bool.or_true,
    Bool.or_false] <;> omega

theorem code_shift_mono (le : code a ≤ code b) (n : ℕ) : code (a >>> n) ≤ code (b >>> n) := by
  induction n with
  | zero => exact le
  | succ n ih =>
      change code (a >>> n).shiftRightOne ≤ code (b >>> n).shiftRightOne
      rw [code_shiftRightOne, code_shiftRightOne]
      omega

theorem shift_shift (em : ExtendedMantissa) (i j : ℕ) : em >>> i >>> j = em >>> (i + j) := by
  induction j with
  | zero => rfl
  | succ j ih => exact congrArg ExtendedMantissa.shiftRightOne ih

/-- Nothing is lost with zeros that are cut off. -/
theorem shift_zeros (m n : ℕ) : ExtendedMantissa.ofMantissaAndAccuracy (m * 2 ^ n) .exact >>> n =
    ExtendedMantissa.ofMantissaAndAccuracy m .exact := by
  induction n generalizing m with
  | zero =>
      rw [pow_zero, mul_one]
      rfl
  | succ n ih =>
      change ExtendedMantissa.shiftRightOne
        (ExtendedMantissa.ofMantissaAndAccuracy (m * 2 ^ (n + 1)) .exact >>> n) = _
      rw [pow_succ', ← mul_assoc, ih]
      simp [ExtendedMantissa.shiftRightOne, ExtendedMantissa.ofMantissaAndAccuracy]

/-- Whole numbers of one scale are cut in their order. -/
theorem code_mono (le : m * 2 ^ j ≤ n * 2 ^ i) :
    code (ExtendedMantissa.ofMantissaAndAccuracy m .exact >>> i) ≤
      code (ExtendedMantissa.ofMantissaAndAccuracy n .exact >>> j) := by
  rw [← shift_zeros m j, ← shift_zeros n i, shift_shift, shift_shift, Nat.add_comm i j]
  exact code_shift_mono (Nat.add_le_add_right (Nat.add_le_add_right (Nat.mul_le_mul_left 4 le) _) _) _

end

/-- Of two numbers the larger one is not rounded to a smaller number. -/
theorem round_mono (s : Sign) (nonzero : m ≠ 0) (nonzero' : n ≠ 0)
    (enough : 52 ≤ m.log2 ∨ e ≤ -1074) (enough' : 52 ≤ n.log2 ∨ f ≤ -1074)
    (le : dyad m e ≤ dyad n f) :
    ∃ m' e' n' f', roundWithAccuracy .binary64 s m e .exact = signed s m' e' ∧
      roundWithAccuracy .binary64 s n f .exact = signed s n' f' ∧
      Canonical m' e' ∧ Canonical n' f' ∧ dyad m' e' ≤ dyad n' f' := by
  -- The places of the last digits that are kept, and how far from the ends they are.
  obtain ⟨t, last⟩ : ∃ t : ℤ, max ((m.log2 : ℤ) + e - 52) (-1074) = t := ⟨_, rfl⟩
  obtain ⟨u, last'⟩ : ∃ u : ℤ, max ((n.log2 : ℤ) + f - 52) (-1074) = u := ⟨_, rfl⟩
  obtain ⟨i, place⟩ : ∃ i : ℕ, e + i = t := ⟨(t - e).toNat, by omega⟩
  obtain ⟨j, place'⟩ : ∃ j : ℕ, f + j = u := ⟨(u - f).toNat, by omega⟩
  obtain ⟨m', e', opened, same, rounds⟩ := opened_of_round s .exact enough last place
  obtain ⟨n', f', opened', same', rounds'⟩ := opened_of_round s .exact enough' last' place'
  refine ⟨m', e', n', f', opened, opened', rounds.canonical, rounds'.canonical, ?_⟩
  have leading : m.log2 + e ≤ n.log2 + f :=
    (power_le_iff nonzero').mp (((power_le_iff nonzero).mpr le_rfl).trans le)
  rcases (show t ≤ u by omega).lt_or_eq with less | rfl
  · -- Between two places there is a power of two, and it is kept.
    refine (rounds.upper (b := 1) (k := n.log2 + f) (by norm_num) (by omega) ?_).trans
      (rounds'.lower (by norm_num) (by omega) ?_)
    · rw [← not_le, power_le_iff nonzero]
      omega
    · exact (power_le_iff nonzero').mpr le_rfl
  · have scaled : m * 2 ^ j ≤ n * 2 ^ i := by
      rw [← dyad_le_iff (e := e - j), dyad_shift, dyad_shift]
      convert le using 2 <;> omega
    rw [same, same', dyad_le_iff]
    exact rounded_mono (code_mono scaled)

/-! ## Products grow with their factors -/

/-- Of two numbers in the form in which they are kept, packing keeps the order; what is out of
range is above everything. -/
theorem le_pack (first : Canonical m e) (second : Canonical n f) (le : dyad m e ≤ dyad n f) :
    (Float.Model.pack (signed .positive m e)).unpack.le
      (Float.Model.pack (signed .positive n f)).unpack = true := by
  by_cases inRange : f ≤ 971
  · have inRange' : e ≤ 971 := by
      by_contra outside
      exact absurd le (not_le.mpr (second.dyad_lt first (by omega)))
    rw [unpack_pack first inRange', unpack_pack second inRange]
    by_cases zero : m = 0
    · subst zero
      rw [show signed .positive 0 e = .zero .positive from rfl, signed]
      split <;> rfl
    · have zero' : n ≠ 0 := by
        rintro rfl
        rw [dyad, dyad, Nat.cast_zero, zero_mul] at le
        exact absurd (dyad_pos zero e) (not_lt.mpr le)
      exact (signed_le_iff zero zero' first second).mpr le
  · have full := second.full
    rw [unpack_pack_overflow (m := n) (by omega) (by omega)]
    by_cases inRange' : e ≤ 971
    · rw [unpack_pack first inRange']
      unfold signed
      split <;> rfl
    · have full' := first.full
      rw [unpack_pack_overflow (m := m) (by omega) (by omega)]
      rfl

theorem Is.mul_le_mul (hx : Is x m e) (hy : Is y n f) (hz : Is z k g)
    (le : Scalar.le x y = true) : Scalar.le (x * z) (y * z) = true := by
  have smaller : dyad (m * k) (e + g) ≤ dyad (n * k) (f + g) := by
    have scaled := mul_le_mul_of_nonneg_right ((hx.le_iff hy).mp le) (dyad_nonneg k g)
    simp only [dyad, Nat.cast_mul, zpow_add₀ (two_ne_zero : (2 : ℚ) ≠ 0)] at scaled ⊢
    linarith
  obtain ⟨m', e', n', f', rounded, rounded', canonical, canonical', le'⟩ := round_mono .positive
    (mul_ne_zero hx.nonzero hz.nonzero) (mul_ne_zero hy.nonzero hz.nonzero)
    (hx.enough_of_mul hz) (hy.enough_of_mul hz) smaller
  rw [le_eq, hx.mul_opened hz, hy.mul_opened hz, rounded, rounded']
  exact le_pack canonical canonical' le'

/-! ## What is not negative -/

/-- Below zero. -/
def isNegative : UnpackedFloat → Bool
  | .infinity .negative | .finite .negative .. => true
  | _ => false

theorem lt_zero_eq (x : Float) : Scalar.lt x 0 = isNegative x.toModel.unpack := by
  rw [lt_eq]
  cases x.toModel.unpack with
  | notANumber | zero => rfl
  | infinity s | finite s => cases s <;> rfl

theorem isNegative_signed (m : ℕ) (e : ℤ) : isNegative (signed .positive m e) = false := by
  unfold signed
  split <;> rfl

/-- Packing keeps the sign. -/
theorem isNegative_pack (unsigned : isNegative u = false) :
    isNegative (Float.Model.pack u).unpack = false := by
  cases u with
  | notANumber => rfl
  | zero s => cases s <;> rfl
  | infinity s =>
      cases s with
      | negative => cases unsigned
      | positive => rfl
  | finite s m e positive =>
      cases s with
      | negative => cases unsigned
      | positive =>
          change isNegative (UnpackedFloat.unpack .binary64 (UnpackedFloat.pack .binary64
            (.finite .positive m e positive))) = false
          simp only [UnpackedFloat.pack]
          split
          · rfl
          split <;> simp only [UnpackedFloat.unpack, unpackSign_packComponents,
            Sign.ofBitVec_toBitVec] <;> (repeat' split) <;> rfl

theorem sqrt_unsigned (x : Float) : Scalar.lt (Scalar.sqrt x) 0 = false := by
  have root : (Scalar.sqrt x).toModel.unpack =
    (Float.Model.pack (UnpackedFloat.sqrt .binary64 x.toModel.unpack)).unpack := rfl
  rw [lt_zero_eq, root]
  refine isNegative_pack ?_
  cases x.toModel.unpack with
  | notANumber | zero => rfl
  | infinity s => cases s <;> rfl
  | finite s m e =>
      cases s with
      | negative => rfl
      | positive => exact isNegative_signed _ _

theorem round_unsigned {p : Precision} (unsigned : Scalar.lt x 0 = false) :
    Scalar.lt (Scalar.round p x) 0 = false := by
  rw [lt_zero_eq] at unsigned
  by_cases single : p = .single
  · have narrowed : isNegative (narrow x.toModel.unpack) = false := by
      cases opened : x.toModel.unpack with
      | notANumber | zero => rfl
      | infinity s =>
          rw [opened] at unsigned
          exact unsigned
      | finite s m e =>
          rw [opened] at unsigned
          cases s with
          | negative => cases unsigned
          | positive => exact isNegative_signed _ _
    rw [lt_zero_eq, show Scalar.round p x = widen (narrow x.toModel.unpack) from if_pos single]
    revert narrowed
    cases narrow x.toModel.unpack with
    | notANumber | zero | infinity => exact isNegative_pack
    | finite s m e =>
        cases s with
        | negative => exact nofun
        | positive =>
            intro _
            refine isNegative_pack ?_
            split
            · rfl
            · exact isNegative_signed _ _
  · rw [show Scalar.round p x = x from if_neg single, lt_zero_eq]
    exact unsigned

theorem normal_unsigned {p : Precision} (unsigned : Scalar.lt x 0 = false) :
    Scalar.lt (Scalar.normal p x) 0 = false := by
  rcases normal_cases p x with kept | ⟨u, rfl | ⟨s, rfl⟩, replaced⟩
  · rw [kept]
    exact unsigned
  · rw [replaced]
    rfl
  · rw [replaced]
    cases s <;> rfl

/-! ## The rules -/

theorem mul_notANumber (u : UnpackedFloat) : UnpackedFloat.mul .binary64 u .notANumber =
    .notANumber := by
  cases u <;> rfl

/-- What is not above a positive double is one, if it is positive. -/
theorem is_of_below (positive : Scalar.lt 0 x = true) (le : Scalar.le x y = true)
    (hy : Is y n f) : ∃ m e, Is x m e := by
  refine is_of_positive ?_ positive
  rw [le_eq, hy.opened, signed_eq hy.nonzero] at le
  rw [lt_eq] at positive
  rw [isFinite_eq]
  cases opened : x.toModel.unpack with
  | notANumber =>
      rw [opened] at le
      cases le
  | infinity s =>
      rw [opened] at le positive
      cases s with
      | negative => cases positive
      | positive => cases le
  | zero | finite => rfl

/-- What is not below a positive number is positive. -/
theorem positive_of_above (positive : Scalar.lt 0 x = true) (le : Scalar.le x y = true) :
    Scalar.lt 0 y = true := by
  rw [lt_eq, lt_iff_rank] at positive ⊢
  rw [le_eq, le_iff_rank] at le
  obtain ⟨a, b, h0, hx, less⟩ := positive
  obtain ⟨b', c, hx', hy, le⟩ := le
  obtain rfl : b = b' := Option.some.inj (hx.symm.trans hx')
  exact ⟨a, c, h0, hy, less.trans_le le⟩

/-- A multiple of what is not negative grows with the factor. -/
theorem mul_le {t t' norm : Float} (positive : Scalar.lt 0 t = true)
    (larger : Scalar.le t t' = true) (finite : Scalar.isFinite t' = true)
    (unsigned : Scalar.lt norm 0 = false) (below : Scalar.le x (t * norm) = true) :
    Scalar.le x (t' * norm) = true := by
  obtain ⟨n, f, hy⟩ := is_of_positive finite (positive_of_above positive larger)
  obtain ⟨m, e, hx⟩ := is_of_below positive larger hy
  have product {m : ℕ} {e : ℤ} {t : Float} (is : Is t m e) : (t * norm).toModel.unpack =
      (Float.Model.pack (UnpackedFloat.mul .binary64
        (.finite .positive m e (Nat.pos_of_ne_zero is.nonzero)) norm.toModel.unpack)).unpack := by
    rw [← signed_eq is.nonzero, ← is.opened]
    rfl
  rw [lt_zero_eq] at unsigned
  cases opened : norm.toModel.unpack with
  | notANumber =>
      rw [le_eq, product hx, opened, mul_notANumber, le_iff_rank] at below
      obtain ⟨_, _, _, number, _⟩ := below
      cases number
  | infinity s | zero s =>
      rw [le_eq, product hx, opened] at below
      rw [le_eq, product hy, opened]
      exact below
  | finite s k g above =>
      cases s with
      | negative =>
          rw [opened] at unsigned
          cases unsigned
      | positive =>
          have hz : Is norm k g := ⟨above.ne', opened.trans (signed_eq above.ne' _).symm⟩
          exact Comparing.trans below (hx.mul_le_mul hy hz larger)

instance scaling : Scaling Float where
  sqrt_unsigned {x} := sqrt_unsigned x
  round_unsigned := round_unsigned
  normal_unsigned := normal_unsigned
  undefined_unsigned := rfl
  mul_le := mul_le

/-- Nothing is compared with a multiple of what is not a number. -/
theorem le_mul_undefined (x t : Float) : Scalar.le x (t * Scalar.undefined) = false := by
  have product : (t * Scalar.undefined).toModel.unpack =
    (Float.Model.pack (UnpackedFloat.mul .binary64 t.toModel.unpack .notANumber)).unpack := rfl
  rw [Bool.eq_false_iff, ne_eq, le_eq, product, mul_notANumber, le_iff_rank]
  rintro ⟨_, _, _, number, _⟩
  cases number

end Double

end ForwardBackward
