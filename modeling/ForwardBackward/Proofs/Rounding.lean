/-
# ForwardBackward.Proofs.Rounding -- what rounding to a double keeps

A number of double precision is opened to its sign, its mantissa `m` and its exponent
`e`, and stands for `± m * 2 ^ e`, here `dyad m e`.  It is kept in one form
(`Canonical`): a mantissa of 53 digits, or a shorter one at the least exponent `-1074`.

Rounding cuts a longer mantissa at the place of its last digit and may add one there.
Nothing else is used of it, neither to which side it rounds nor how it breaks ties, and
that is enough for an order: a number of 53 digits that is not above what is rounded is
not above the result, and one that is above it is not below the result (`Rounds`,
`rounds_of_round`).  So a number that has a leading digit at `2 ^ -1074` or higher is
not rounded to zero (`Rounds.nonzero`), and below that it may be.

The bits of a double hold the canonical form (`unpack_canonical`, `unpack_pack`), but
for an exponent above `971`, which is packed as an infinity (`unpack_pack_overflow`).
-/
import Mathlib

namespace ForwardBackward

set_option autoImplicit false

open Float.Model (Format UnpackedFloat totalExponent)
open Float.Model.UnpackedFloat

namespace Double

/-! ## Whole multiples of powers of two -/

/-- `m * 2 ^ e` -/
def dyad (m : ℕ) (e : ℤ) : ℚ := m * 2 ^ e

section

variable {m n : ℕ} {e k : ℤ}

theorem dyad_pos (nonzero : m ≠ 0) (e : ℤ) : 0 < dyad m e := by
  have := Nat.pos_of_ne_zero nonzero
  unfold dyad
  positivity

theorem dyad_nonneg (m : ℕ) (e : ℤ) : 0 ≤ dyad m e := by
  unfold dyad
  positivity

theorem dyad_one (e : ℤ) : dyad 1 e = 2 ^ e := by rw [dyad, Nat.cast_one, one_mul]

theorem dyad_shift (m n : ℕ) (e : ℤ) : dyad (m * 2 ^ n) e = dyad m (e + n) := by
  unfold dyad
  rw [Nat.cast_mul, Nat.cast_pow, Nat.cast_ofNat, zpow_add₀ two_ne_zero, zpow_natCast]
  ring

theorem dyad_le_iff : dyad m e ≤ dyad n e ↔ m ≤ n := by
  unfold dyad
  rw [mul_le_mul_iff_of_pos_right (by positivity), Nat.cast_le]

theorem dyad_lt_iff : dyad m e < dyad n e ↔ m < n := by
  unfold dyad
  rw [mul_lt_mul_iff_of_pos_right (by positivity), Nat.cast_lt]

/-- A power of two is compared with a number by the place of its leading digit. -/
theorem power_le_iff (hm : m ≠ 0) : dyad 1 k ≤ dyad m e ↔ k ≤ m.log2 + e := by
  have least : dyad 1 (m.log2 + e) ≤ dyad m e := by
    rw [add_comm, ← dyad_shift, dyad_le_iff, one_mul]
    exact Nat.log2_self_le hm
  have most : dyad m e < dyad 1 (m.log2 + e + 1) := by
    rw [show (m.log2 : ℤ) + e + 1 = e + (m.log2 + 1 : ℕ) by omega, ← dyad_shift, dyad_lt_iff,
      one_mul]
    exact Nat.lt_log2_self
  have order : ∀ i j : ℤ, dyad 1 i ≤ dyad 1 j ↔ i ≤ j := by
    intro i j
    rw [dyad_one, dyad_one]
    exact zpow_le_zpow_iff_right₀ one_lt_two
  constructor
  · intro le
    by_contra greater
    exact absurd ((order _ k).mpr (by omega)) (not_le.mpr (le.trans_lt most))
  · exact fun le => ((order _ _).mpr le).trans least

theorem log2_mul_ge (hm : m ≠ 0) (hn : n ≠ 0) : m.log2 + n.log2 ≤ (m * n).log2 := by
  rw [Nat.le_log2 (mul_ne_zero hm hn), pow_add]
  exact Nat.mul_le_mul (Nat.log2_self_le hm) (Nat.log2_self_le hn)

end

/-- The form in which a double is kept: as many digits as there is place for. -/
structure Canonical (m : ℕ) (e : ℤ) : Prop where
  short : m < 2 ^ 53
  least : -1074 ≤ e
  full : e = -1074 ∨ 2 ^ 52 ≤ m

/-- Of two numbers in that form the one with the larger exponent is larger. -/
theorem Canonical.dyad_lt {m n : ℕ} {e f : ℤ} (first : Canonical m e) (second : Canonical n f)
    (less : e < f) : dyad m e < dyad n f := by
  have whole : 2 ^ 52 ≤ n := by
    have := first.least
    have := second.full
    omega
  obtain ⟨i, rfl⟩ := Int.le.dest (show e + 1 ≤ f by omega)
  rw [add_assoc, ← Nat.cast_one, ← Nat.cast_add, ← dyad_shift, dyad_lt_iff, pow_add]
  have := first.short
  have : 1 ≤ 2 ^ i := Nat.one_le_two_pow
  nlinarith

theorem Canonical.log2_le {m : ℕ} {e : ℤ} (canonical : Canonical m e) : m.log2 ≤ 52 := by
  by_cases zero : m = 0
  · rw [zero, Nat.log2_zero]
    exact Nat.zero_le _
  · exact Nat.le_of_lt_succ ((Nat.log2_lt zero).mpr canonical.short)

/-- Sign and magnitude; a magnitude of zero is a zero. -/
def signed (s : Sign) (m : ℕ) (e : ℤ) : UnpackedFloat :=
  if h : m = 0 then .zero s else .finite s m e (Nat.pos_of_ne_zero h)

theorem signed_eq {m : ℕ} {e : ℤ} (nonzero : m ≠ 0) (s : Sign) :
    signed s m e = .finite s m e (Nat.pos_of_ne_zero nonzero) := dif_neg nonzero

/-! ## Rounding -/

theorem shift_mantissa (em : ExtendedMantissa) (n : ℕ) :
    (em >>> n).mantissa = em.mantissa / 2 ^ n := by
  induction n with
  | zero => exact (Nat.div_one _).symm
  | succ n ih =>
      change (em >>> n).mantissa / 2 = _
      rw [ih, Nat.div_div_eq_div_mul, Nat.pow_succ]

theorem accuracy_mantissa (m : ℕ) (acc : Accuracy) :
    (ExtendedMantissa.ofMantissaAndAccuracy m acc).mantissa = m := by
  cases acc with
  | exact => rfl
  | inexact order => cases order <;> rfl

/-- Whatever was cut off, at most one is added at the last place. -/
theorem rounded_bounds (em : ExtendedMantissa) :
    em.mantissa ≤ em.roundedMantissa ∧ em.roundedMantissa ≤ em.mantissa + 1 := by
  obtain ⟨m, round, sticky⟩ := em
  cases round <;> cases sticky <;>
    simp only [ExtendedMantissa.roundedMantissa, ExtendedMantissa.accuracy,
      Accuracy.roundToNearestEven] <;> omega

/-- The place of the last of 53 digits, or the least place there is. -/
theorem target_eq (m : ℕ) (e : ℤ) :
    Format.binary64.targetExponent (totalExponent m e) = max (m.log2 + e - 52) (-1074) := by
  simp only [Format.targetExponent, totalExponent, Format.mantissaBits, Format.minExponent]
  omega

/-- A digit added to 53 ones carries into a 54th, and the mantissa is shifted once more. -/
theorem shift_again {r : ℕ} {t : ℤ} (short : r ≤ 2 ^ 53) (least : -1074 ≤ t) :
    ∃ r' t', (shiftToTargetExponent .binary64 r t .exact).1.mantissa = r' ∧
      (shiftToTargetExponent .binary64 r t .exact).2 = t' ∧ dyad r' t' = dyad r t ∧
      (r < 2 ^ 53 ∧ r' = r ∧ t' = t ∨ r' = 2 ^ 52 ∧ t' = t + 1) := by
  refine ⟨_, _, rfl, rfl, ?_⟩
  simp only [shiftToTargetExponent, shiftToExponent, shift_mantissa, accuracy_mantissa, target_eq]
  rcases short.lt_or_eq with less | rfl
  · have none : (max ((r.log2 : ℤ) + t - 52) (-1074) - t).toNat = 0 := by
      have digits : r.log2 ≤ 52 := by
        by_cases zero : r = 0
        · rw [zero]
          decide
        · exact Nat.le_of_lt_succ ((Nat.log2_lt zero).mpr less)
      omega
    rw [none, pow_zero, Nat.div_one, Nat.cast_zero, add_zero]
    exact ⟨rfl, .inl ⟨less, rfl, rfl⟩⟩
  · have one : (max (((2 ^ 53 : ℕ).log2 : ℤ) + t - 52) (-1074) - t).toNat = 1 := by
      rw [Nat.log2_two_pow]
      omega
    rw [one]
    exact ⟨(dyad_shift (2 ^ 52) 1 t).symm, .inr ⟨rfl, rfl⟩⟩

/-- What becomes of a magnitude when it is rounded. -/
structure Rounds (m : ℕ) (e : ℤ) (m' : ℕ) (e' : ℤ) : Prop where
  canonical : Canonical m' e'
  lower {b : ℕ} {k : ℤ} : b ≤ 2 ^ 53 → -1074 ≤ k → dyad b k ≤ dyad m e → dyad b k ≤ dyad m' e'
  upper {b : ℕ} {k : ℤ} : b ≤ 2 ^ 53 → -1074 ≤ k → dyad m e < dyad b k → dyad m' e' ≤ dyad b k

/-- A number with a leading digit is not rounded to zero. -/
theorem Rounds.nonzero {m m' : ℕ} {e e' k : ℤ} (rounds : Rounds m e m' e') (deep : -1074 ≤ k)
    (large : dyad 1 k ≤ dyad m e) : m' ≠ 0 := by
  rintro rfl
  have still := rounds.lower (by norm_num) deep large
  rw [dyad_one, dyad, Nat.cast_zero, zero_mul] at still
  exact absurd still (not_le.mpr (by positivity))

/-- What is cut at the place `t` and left as it is or increased by one there, is rounded. -/
theorem rounds_of_cut {m n r r' : ℕ} {e t t' : ℤ} (place : e + n = t) (least : -1074 ≤ t)
    (large : t = -1074 ∨ 2 ^ 52 ≤ m / 2 ^ n) (below : m / 2 ^ n ≤ r) (above : r ≤ m / 2 ^ n + 1)
    (same : dyad r' t' = dyad r t) (canonical : Canonical r' t') : Rounds m e r' t' := by
  have fine : ∀ {b : ℕ} {k : ℤ}, t ≤ k →
      ∃ i : ℕ, t + i = k ∧ dyad b k = dyad (b * 2 ^ i * 2 ^ n) e := by
    intro b k le
    obtain ⟨i, rfl⟩ := Int.le.dest le
    refine ⟨i, rfl, ?_⟩
    rw [dyad_shift, dyad_shift, place]
  have coarse : ∀ {b f : ℕ} {k : ℤ}, b ≤ 2 ^ 53 → k < t → 2 ^ 52 ≤ f → dyad b k ≤ dyad f t := by
    intro b f k wide less whole
    obtain ⟨i, rfl⟩ := Int.le.dest (show k + 1 ≤ t by omega)
    rw [add_assoc, ← Nat.cast_one, ← Nat.cast_add, ← dyad_shift, dyad_le_iff, pow_add]
    have : 1 ≤ 2 ^ i := Nat.one_le_two_pow
    nlinarith
  refine ⟨canonical, fun {b k} wide deep le => ?_, fun {b k} wide deep less => ?_⟩
  · rw [same]
    by_cases here : t ≤ k
    · obtain ⟨i, rfl, cut⟩ := fine (b := b) here
      rw [cut, dyad_le_iff, ← Nat.le_div_iff_mul_le (Nat.two_pow_pos n)] at le
      rw [← dyad_shift, dyad_le_iff]
      exact le.trans below
    · exact coarse wide (by omega) (by omega)
  · rw [same]
    by_cases here : t ≤ k
    · obtain ⟨i, rfl, cut⟩ := fine (b := b) here
      rw [cut, dyad_lt_iff, ← Nat.div_lt_iff_lt_mul (Nat.two_pow_pos n)] at less
      rw [← dyad_shift, dyad_le_iff]
      exact above.trans less
    · -- A bound between two numbers that are kept would have a place of its own.
      have floor : dyad (m / 2 ^ n) t ≤ dyad m e := by
        rw [← place, ← dyad_shift, dyad_le_iff]
        exact Nat.div_mul_le_self m _
      exact absurd ((coarse wide (by omega) (by omega)).trans floor) (not_le.mpr less)

/-- A mantissa that is long enough to be cut is rounded at the place `t` of the last digit that is
kept. -/
theorem opened_of_round (s : Sign) {m n : ℕ} {e t : ℤ} (acc : Accuracy)
    (enough : 52 ≤ m.log2 ∨ e ≤ -1074) (last : max (m.log2 + e - 52) (-1074) = t)
    (place : e + n = t) :
    ∃ m' e', roundWithAccuracy .binary64 s m e acc = signed s m' e' ∧
      dyad m' e' =
        dyad (ExtendedMantissa.ofMantissaAndAccuracy m acc >>> n).roundedMantissa t ∧
      Rounds m e m' e' := by
  have shift : (max ((m.log2 : ℤ) + e - 52) (-1074) - e).toNat = n := by omega
  have least : -1074 ≤ t := by omega
  have digits : m.log2 ≤ 52 + n := by omega
  have full : t = -1074 ∨ m ≠ 0 ∧ m.log2 = 52 + n := by
    by_cases zero : m = 0
    · subst zero
      rw [Nat.log2_zero] at *
      omega
    · omega
  let first := ExtendedMantissa.ofMantissaAndAccuracy m acc >>> n
  have cut : first.mantissa = m / 2 ^ n := by rw [shift_mantissa, accuracy_mantissa]
  obtain ⟨below, above⟩ := rounded_bounds first
  obtain ⟨r, rounded⟩ : ∃ r, first.roundedMantissa = r := ⟨_, rfl⟩
  rw [cut, rounded] at below above
  have small : m / 2 ^ n < 2 ^ 53 := by
    rw [Nat.div_lt_iff_lt_mul (Nat.two_pow_pos n), ← pow_add]
    exact Nat.lt_log2_self.trans_le (Nat.pow_le_pow_right two_pos (by omega))
  have large : t = -1074 ∨ 2 ^ 52 ≤ m / 2 ^ n := by
    refine full.imp id fun ⟨nonzero, digits⟩ => ?_
    rw [Nat.le_div_iff_mul_le (Nat.two_pow_pos n), ← pow_add, ← digits]
    exact Nat.log2_self_le nonzero
  obtain ⟨r', t', mantissa, exponent, same, cases⟩ := shift_again (r := r) (by omega) least
  have canonical : Canonical r' t' := by
    rcases cases with ⟨less, rfl, rfl⟩ | ⟨rfl, rfl⟩
    · exact ⟨less, least, by omega⟩
    · exact ⟨by norm_num, by omega, .inr le_rfl⟩
  have opened : shiftToTargetExponent .binary64 m e acc = (first, t) := by
    simp only [shiftToTargetExponent, shiftToExponent, target_eq, shift, place]
    rfl
  refine ⟨r', t', ?_, same.trans (by rw [← rounded]),
    rounds_of_cut place least large below above same canonical⟩
  simp only [roundWithAccuracy, opened, rounded, mantissa, exponent]
  rfl

theorem rounds_of_round (s : Sign) {m : ℕ} {e : ℤ} (acc : Accuracy)
    (enough : 52 ≤ m.log2 ∨ e ≤ -1074) :
    ∃ m' e', roundWithAccuracy .binary64 s m e acc = signed s m' e' ∧ Rounds m e m' e' := by
  obtain ⟨n, shift⟩ : ∃ n : ℕ, (max ((m.log2 : ℤ) + e - 52) (-1074) - e).toNat = n := ⟨_, rfl⟩
  obtain ⟨m', e', same, _, rounds⟩ := opened_of_round (n := n) s acc enough rfl (by omega)
  exact ⟨m', e', same, rounds⟩

/-! ## Packing -/

theorem bitVec_ne {n : ℕ} {x y : BitVec n} (h : x.toNat ≠ y.toNat) : x ≠ y :=
  fun same => h (congrArg BitVec.toNat same)

/-- The leading digit of a full mantissa is not among its bits. -/
theorem implicit_append (m : BitVec 52) : (1#1 ++ m).toNat = 2 ^ 52 + m.toNat := by
  rw [BitVec.toNat_append, ← Nat.shiftLeft_add_eq_or_of_lt m.isLt]
  rfl

theorem unpack_canonical {x : Float.Model} {s : Sign} {m : ℕ} {e : ℤ} {h : 0 < m}
    (opened : x.unpack = .finite s m e h) : Canonical m e ∧ e ≤ 971 := by
  unfold Float.Model.unpack UnpackedFloat.unpack at opened
  dsimp only at opened
  split at opened
  · split at opened <;> cases opened
  next notTop =>
    have top : (@unpackExponent .binary64 x.toBits.toBitVec).toNat ≠ 2047 :=
      fun h => notTop (BitVec.eq_of_toNat_eq h)
    have narrow : (@unpackExponent .binary64 x.toBits.toBitVec).toNat < 2 ^ 11 :=
      BitVec.isLt _
    have short : (@unpackMantissa .binary64 x.toBits.toBitVec).toNat < 2 ^ 52 :=
      BitVec.isLt _
    have bias : (Format.binary64.exponentBias : ℤ) +
        (Format.binary64.mantissaBitsWithoutImplicit : ℕ) = 1075 := rfl
    split at opened
    · next bottom =>
      split at opened
      · cases opened
      · cases opened
        rw [bias, bottom]
        exact ⟨⟨by omega, by decide, .inl (by decide)⟩, by decide⟩
    · next notBottom =>
      have bottom : (@unpackExponent .binary64 x.toBits.toBitVec).toNat ≠ 0 :=
        fun h => notBottom (BitVec.eq_of_toNat_eq h)
      cases opened
      rw [bias, implicit_append]
      exact ⟨⟨by omega, by omega, .inr (by omega)⟩, by omega⟩

theorem unpack_pack {s : Sign} {m : ℕ} {e : ℤ} (canonical : Canonical m e) (bounded : e ≤ 971) :
    (Float.Model.pack (signed s m e)).unpack = signed s m e := by
  obtain ⟨short, least, full⟩ := canonical
  unfold signed
  split
  · cases s <;> rfl
  next nonzero =>
    have biased : e + (Format.binary64.exponentBias : ℤ) +
        (Format.binary64.mantissaBitsWithoutImplicit : ℕ) = e + 1075 := by
      change e + 1023 + 52 = _
      ring
    have inRange : ¬ 2 ^ Format.binary64.exponentBits ≤ (e + 1075).toNat + 1 := by
      change ¬ 2048 ≤ _
      omega
    have digits : m.log2 + 1 = Format.binary64.mantissaBits ↔ 2 ^ 52 ≤ m := by
      rw [← Nat.le_log2 nonzero]
      have := (Nat.log2_lt nonzero).mpr short
      change m.log2 + 1 = 53 ↔ _
      omega
    change UnpackedFloat.unpack .binary64 (UnpackedFloat.pack .binary64
      (.finite s m e (Nat.pos_of_ne_zero nonzero))) = _
    simp only [UnpackedFloat.pack, biased, if_neg inRange, digits]
    split
    · next whole =>
      have exponent : (BitVec.ofNat 11 (e + 1075).toNat).toNat = (e + 1075).toNat := by
        rw [BitVec.toNat_ofNat]
        omega
      have mantissa : (1#1 ++ BitVec.ofNat 52 m).toNat = m := by
        rw [implicit_append, BitVec.toNat_ofNat]
        omega
      have notTop : BitVec.ofNat 11 (e + 1075).toNat ≠ -1#11 := bitVec_ne (by
        rw [exponent]
        change _ ≠ 2047
        omega)
      have notBottom : BitVec.ofNat 11 (e + 1075).toNat ≠ 0#11 := bitVec_ne (by
        rw [exponent]
        change _ ≠ 0
        omega)
      simp only [UnpackedFloat.unpack, unpackMantissa_packComponents,
        unpackExponent_packComponents, unpackSign_packComponents, Sign.ofBitVec_toBitVec]
      rw [if_neg notTop, if_neg notBottom]
      congr 1
      rw [exponent]
      change _ - (1023 + 52 : ℤ) = e
      omega
    · next small =>
      have mantissa : (BitVec.ofNat 52 m).toNat = m := by
        rw [BitVec.toNat_ofNat]
        omega
      have notZero : BitVec.ofNat 52 m ≠ 0#52 := bitVec_ne (by rwa [mantissa])
      simp only [UnpackedFloat.unpack, unpackMantissa_packComponents,
        unpackExponent_packComponents, unpackSign_packComponents, Sign.ofBitVec_toBitVec]
      rw [if_neg (by decide), if_pos trivial, dif_neg notZero]
      congr 1
      change (0 : ℤ) - (1023 + 52) + 1 = e
      omega

theorem unpack_pack_overflow {s : Sign} {m : ℕ} {e : ℤ} (nonzero : m ≠ 0) (large : 971 < e) :
    (Float.Model.pack (signed s m e)).unpack = .infinity s := by
  have outside : 2 ^ Format.binary64.exponentBits ≤ (e + (Format.binary64.exponentBias : ℤ) +
      (Format.binary64.mantissaBitsWithoutImplicit : ℕ)).toNat + 1 := by
    change 2048 ≤ (e + 1023 + 52).toNat + 1
    omega
  rw [signed_eq nonzero]
  change UnpackedFloat.unpack .binary64 (UnpackedFloat.pack .binary64
    (.finite s m e (Nat.pos_of_ne_zero nonzero))) = _
  simp only [UnpackedFloat.pack, if_pos outside]
  cases s <;> rfl

/-- Packing makes nothing finite. -/
theorem isFinite_of_pack {u : UnpackedFloat}
    (finite : (Float.Model.pack u).unpack.isFinite = true) : u.isFinite = true := by
  cases u with
  | notANumber => exact finite
  | infinity s => cases s <;> exact finite
  | zero | finite => rfl

/-- What is a number is packed as a number. -/
theorem isNaN_pack {u : UnpackedFloat} (number : u.isNaN = false) :
    (Float.Model.pack u).unpack.isNaN = false := by
  cases u with
  | notANumber => cases number
  | infinity s | zero s => cases s <;> rfl
  | finite s m e positive =>
      change (UnpackedFloat.unpack .binary64 (UnpackedFloat.pack .binary64
        (.finite s m e positive))).isNaN = false
      simp only [UnpackedFloat.pack]
      split
      · cases s <;> rfl
      next inRange =>
      have notTop : ∀ b : ℕ, ¬ 2 ^ 11 ≤ b + 1 → BitVec.ofNat 11 b ≠ -1#11 := by
        intro b inRange
        refine bitVec_ne ?_
        rw [BitVec.toNat_ofNat]
        change _ ≠ 2047
        omega
      split
      · simp only [UnpackedFloat.unpack, unpackExponent_packComponents]
        rw [if_neg (notTop _ inRange)]
        split
        · split <;> rfl
        · rfl
      · simp only [UnpackedFloat.unpack, unpackExponent_packComponents]
        rw [if_neg (by decide), if_pos trivial]
        split <;> rfl

end Double

end ForwardBackward
