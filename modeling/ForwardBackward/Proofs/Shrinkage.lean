/-
# ForwardBackward.Proofs.Shrinkage -- steps that act on every entry alone

The regularizers `zero`, `l1`, `l0` and `l2` are sums over the entries of a vector,
and their steps move every entry by itself: an entry is left alone, its modulus is
lowered by a threshold, it becomes zero unless its modulus is above a threshold, or
it is divided by a number.  For each of them

* the move minimises `cost(u) + |u - z|² / (2 γ)` over all complex numbers `u`
  (`softened_least`, `hardened_least`, `shrunk_least`),
* the value of a vector is the sum of the costs (`Regularizer.value_l1` and its
  siblings), and the step moves every entry.

`Regularizer.Entrywise` says all of that of one regularizer.
-/
import ForwardBackward.Proofs.Points
import ForwardBackward.Regularizer

namespace ForwardBackward

set_option autoImplicit false

/-! ## One entry -/

section OneEntry

variable {t γ l : ℝ}

theorem sq_norm_sub_norm_le (u z : ℂ) : (‖u‖ - ‖z‖) ^ 2 ≤ ‖u - z‖ ^ 2 :=
  sq_le_sq.mpr (by simpa using abs_norm_sub_norm_le u z)

/-- A number with its modulus lowered by `t`, down to zero. -/
noncomputable def softened (t : ℝ) (z : ℂ) : ℂ :=
  z * ((max (‖z‖ - t) 0 / if 0 < ‖z‖ then ‖z‖ else 1 : ℝ) : ℂ)

/-- A number, or zero if its modulus is not above `t`. -/
noncomputable def hardened (t : ℝ) (z : ℂ) : ℂ := if t < ‖z‖ then z else 0

theorem norm_softened (nonneg : 0 ≤ t) (z : ℂ) : ‖softened t z‖ = max (‖z‖ - t) 0 := by
  by_cases zero : z = 0
  · simp [softened, zero, nonneg]
  · have positive : 0 < ‖z‖ := norm_pos_iff.mpr zero
    rw [softened, if_pos positive, norm_mul, Complex.norm_real, Real.norm_eq_abs,
      abs_of_nonneg (by positivity), mul_div_cancel₀ _ positive.ne']

theorem norm_softened_sub (nonneg : 0 ≤ t) (z : ℂ) : ‖softened t z - z‖ = min ‖z‖ t := by
  by_cases zero : z = 0
  · simp [softened, zero, nonneg]
  · have positive : 0 < ‖z‖ := norm_pos_iff.mpr zero
    have factored : softened t z - z = z * ((max (‖z‖ - t) 0 / ‖z‖ - 1 : ℝ) : ℂ) := by
      rw [softened, if_pos positive]
      push_cast
      ring
    have factor : max (‖z‖ - t) 0 / ‖z‖ - 1 = -(min ‖z‖ t / ‖z‖) := by
      rw [div_sub_one positive.ne', ← neg_div]
      congr 1
      rcases le_total ‖z‖ t with below | above
      · rw [min_eq_left below, max_eq_right (by linarith)]
        ring
      · rw [min_eq_right above, max_eq_left (by linarith)]
        ring
    rw [factored, factor, norm_mul, Complex.norm_real, Real.norm_eq_abs, abs_neg,
      abs_of_nonneg (by positivity), mul_div_cancel₀ _ positive.ne']

theorem softened_least (positive : 0 < γ) (nonneg : 0 ≤ l) (z u : ℂ) :
    l * ‖softened (γ * l) z‖ + ‖softened (γ * l) z - z‖ ^ 2 / (2 * γ) ≤
      l * ‖u‖ + ‖u - z‖ ^ 2 / (2 * γ) := by
  have threshold : 0 ≤ γ * l := by positivity
  rw [norm_softened threshold, norm_softened_sub threshold]
  have apart := sq_norm_sub_norm_le u z
  have scaled : ∀ a b : ℝ, a + b / (2 * γ) = (2 * (γ * a) + b) / (2 * γ) := by
    intro a b
    field_simp
  rw [scaled, scaled, div_le_div_iff_of_pos_right (by positivity)]
  rcases le_total ‖z‖ (γ * l) with below | above
  · rw [max_eq_right (by linarith), min_eq_left below]
    nlinarith [norm_nonneg u, norm_nonneg z, mul_nonneg (norm_nonneg u) (sub_nonneg.mpr below)]
  · rw [max_eq_left (by linarith), min_eq_right above]
    nlinarith [sq_nonneg (‖u‖ - ‖z‖ + γ * l)]

theorem hardened_least (positive : 0 < γ) (nonneg : 0 ≤ l) (z u : ℂ) :
    (if hardened √(2 * γ * l) z = 0 then 0 else l) +
        ‖hardened √(2 * γ * l) z - z‖ ^ 2 / (2 * γ) ≤
      (if u = 0 then 0 else l) + ‖u - z‖ ^ 2 / (2 * γ) := by
  have root : √(2 * γ * l) ^ 2 / (2 * γ) = l := by
    rw [Real.sq_sqrt (by positivity), mul_div_cancel_left₀ _ (by positivity)]
  have move : 0 ≤ ‖u - z‖ ^ 2 / (2 * γ) := by positivity
  have stay : (if z = 0 then 0 else l) ≤ l := by
    split
    · exact nonneg
    · exact le_rfl
  unfold hardened
  by_cases above : √(2 * γ * l) < ‖z‖
  · have gain : l ≤ ‖z‖ ^ 2 / (2 * γ) := by
      rw [← root]
      gcongr
    rw [if_pos above, sub_self, norm_zero]
    by_cases zero : u = 0
    · rw [if_pos zero, zero, zero_sub, norm_neg]
      simp only [ne_eq, OfNat.ofNat_ne_zero, not_false_eq_true, zero_pow, zero_div, add_zero,
        zero_add]
      linarith
    · rw [if_neg zero]
      simp only [ne_eq, OfNat.ofNat_ne_zero, not_false_eq_true, zero_pow, zero_div, add_zero]
      linarith
  · rw [if_neg above, if_pos rfl, zero_sub, norm_neg, zero_add]
    by_cases zero : u = 0
    · rw [if_pos zero, zero, zero_sub, norm_neg, zero_add]
    · have loss : ‖z‖ ^ 2 / (2 * γ) ≤ l := by
        rw [← root]
        gcongr
        exact not_lt.mp above
      rw [if_neg zero]
      linarith

theorem shrunk_least (positive : 0 < γ) (nonneg : 0 ≤ l) (z u : ℂ) :
    1 / 2 * l * ‖z / ((1 + γ * l : ℝ) : ℂ)‖ ^ 2 + ‖z / ((1 + γ * l : ℝ) : ℂ) - z‖ ^ 2 / (2 * γ) ≤
      1 / 2 * l * ‖u‖ ^ 2 + ‖u - z‖ ^ 2 / (2 * γ) := by
  have divisor : 0 < 1 + γ * l := by positivity
  have shorter : ‖z / ((1 + γ * l : ℝ) : ℂ)‖ = ‖z‖ / (1 + γ * l) := by
    rw [norm_div, Complex.norm_real, Real.norm_eq_abs, abs_of_pos divisor]
  have moved : ‖z / ((1 + γ * l : ℝ) : ℂ) - z‖ = ‖z‖ * (γ * l) / (1 + γ * l) := by
    have factored : z / ((1 + γ * l : ℝ) : ℂ) - z = -(z * ((γ * l / (1 + γ * l) : ℝ) : ℂ)) := by
      have nonzero : ((1 + γ * l : ℝ) : ℂ) ≠ 0 := by exact_mod_cast divisor.ne'
      push_cast at nonzero ⊢
      field_simp
      ring
    rw [factored, norm_neg, norm_mul, Complex.norm_real, Real.norm_eq_abs,
      abs_of_nonneg (by positivity), ← mul_div_assoc]
  have apart := sq_norm_sub_norm_le u z
  have best : 1 / 2 * l * (‖z‖ / (1 + γ * l)) ^ 2 +
      (‖z‖ * (γ * l) / (1 + γ * l)) ^ 2 / (2 * γ) = l * ‖z‖ ^ 2 / (2 * (1 + γ * l)) := by
    field_simp
  have other : l * ‖z‖ ^ 2 / (2 * (1 + γ * l)) ≤
      1 / 2 * l * ‖u‖ ^ 2 + (‖u‖ - ‖z‖) ^ 2 / (2 * γ) := by
    have gap : 1 / 2 * l * ‖u‖ ^ 2 + (‖u‖ - ‖z‖) ^ 2 / (2 * γ) - l * ‖z‖ ^ 2 / (2 * (1 + γ * l)) =
        ((1 + γ * l) * ‖u‖ - ‖z‖) ^ 2 / (2 * γ * (1 + γ * l)) := by
      field_simp
      ring
    have square : 0 ≤ ((1 + γ * l) * ‖u‖ - ‖z‖) ^ 2 / (2 * γ * (1 + γ * l)) := by positivity
    linarith
  rw [shorter, moved, best]
  refine le_trans other ?_
  gcongr

end OneEntry

/-! ## Arrays -/

namespace NDArray

variable {a : NDArray Exact} {us : List ℂ}

theorem withMagnitude_denotes {f : Precision → Exact → Exact → Exact}
    {g : Precision → Cartesian Exact → Exact → Cartesian Exact} (op : ℂ → ℝ → ℂ)
    (hf : ∀ (p : Precision) (x m : ℝ), ∃ z : ℝ, f p (.real x) (.real m) = .real z ∧ op x m = z)
    (hg : ∀ (p : Precision) (z : ℂ) (m : ℝ), g p (.ofComplex z) (.real m) = .ofComplex (op z m))
    (ha : a.entries.Denotes us) :
    (a.withMagnitude f g).shape = a.shape ∧
      (a.withMagnitude f g).entries.Denotes (us.map fun z => op z ‖z‖) := by
  have means : Rule.Means ⟨fun _ x _ => x, f, fun p z m => g p z m.re⟩ fun z w => op z w.re :=
    ⟨fun p x y => by simpa using hf p x y, fun p z w => hg p z w.re⟩
  have inexact : a.magnitudes.toFractional .loose = a.magnitudes := by
    have kind := ha.magnitudes.kind_ne_whole
    unfold toFractional
    split
    · next w whole => exact absurd whole (kind w)
    · rfl
  refine ⟨rfl, ?_⟩
  change (Entries.zipWith ⟨fun _ x _ => x, f, fun p z m => g p z m.re⟩ a.entries
    (a.magnitudes.toFractional .loose).entries).Denotes _
  rw [inexact]
  have zipped := ha.zipWith means ha.magnitudes
  rw [List.zipWith_map_right, List.zipWith_self] at zipped
  exact zipped

theorem softThreshold_denotes (t : ℝ) (ha : a.entries.Denotes us) :
    (a.softThreshold (.real t)).shape = a.shape ∧
      (a.softThreshold (.real t)).entries.Denotes (us.map (softened t)) := by
  have factor : ∀ (p : Precision) (m : ℝ),
      p.div (p.max (p.sub (Exact.real m) (p.ofNumber (.real t))) 0)
          (if p.lt 0 (Exact.real m) then Exact.real m else 1) =
        Exact.real (max (m - t) 0 / if 0 < m then m else 1) := by
    intro p m
    rw [Precision.ofNumber_exact, Precision.sub_exact, Exact.real_sub, Exact.zero_eq,
      Precision.max_exact, Exact.max_real, Precision.lt_exact, Precision.div_exact]
    by_cases positive : 0 < m
    · rw [if_pos ((Exact.lt_real _ _).mpr positive), if_pos positive,
        Exact.real_div _ _ positive.ne']
    · rw [if_neg (fun less => positive ((Exact.lt_real _ _).mp less)), if_neg positive,
        Exact.one_eq, Exact.real_div _ _ one_ne_zero]
  refine withMagnitude_denotes (fun z m => z * ((max (m - t) 0 / if 0 < m then m else 1 : ℝ) : ℂ))
    (fun p x m => ?_) (fun p z m => ?_) ha
  · refine ⟨x * (max (m - t) 0 / if 0 < m then m else 1), ?_, (Complex.ofReal_mul _ _).symm⟩
    simp only [factor, Precision.mul_exact, Exact.real_mul]
  · simp only [factor, Cartesian.ofReal_real, Cartesian.mul_ofComplex]

theorem hardThreshold_denotes (t : ℝ) (ha : a.entries.Denotes us) :
    (a.hardThreshold (.real t)).shape = a.shape ∧
      (a.hardThreshold (.real t)).entries.Denotes (us.map (hardened t)) := by
  refine withMagnitude_denotes (fun z m => if t < m then z else 0)
    (fun p x m => ?_) (fun p z m => ?_) ha
  · rw [Precision.ofNumber_exact, Precision.lt_exact]
    by_cases above : t < m
    · exact ⟨x, by rw [if_pos ((Exact.lt_real _ _).mpr above)], if_pos above⟩
    · refine ⟨0, ?_, by rw [if_neg above, Complex.ofReal_zero]⟩
      rw [if_neg (fun less => above ((Exact.lt_real _ _).mp less)), Exact.zero_eq]
  · rw [Precision.ofNumber_exact, Precision.lt_exact]
    by_cases above : t < m
    · rw [if_pos ((Exact.lt_real _ _).mpr above), if_pos above]
    · rw [if_neg (fun less => above ((Exact.lt_real _ _).mp less)), if_neg above,
        Cartesian.zero_eq]

theorem divide_denotes {c : ℝ} (nonzero : c ≠ 0) (ha : a.entries.Denotes us) :
    ∃ b, a.divide (.real c) = .ok b ∧ b.shape = a.shape ∧
      b.entries.Denotes (us.map fun z => z / c) := by
  have divisor : Scalar.eq (Exact.real c) 0 = false := by
    rw [Exact.zero_eq]
    exact Bool.eq_false_iff.mpr fun equal => nonzero ((Exact.eq_real c 0).mp equal)
  have quotient : ∀ (p : Precision) (z : ℂ),
      Cartesian.divReal p (.ofComplex z) (.real c) = .ofComplex (z / c) := by
    intro p z
    have real : (z / c).re = z.re / c := Complex.div_ofReal_re z c
    have imaginary : (z / c).im = z.im / c := Complex.div_ofReal_im z c
    simp [Cartesian.divReal, Cartesian.ofComplex, Exact.real_div _ _ nonzero, real,
      imaginary]
  unfold divide
  rw [divisor, Bool.and_false, if_neg Bool.false_ne_true]
  refine ⟨_, rfl, rfl, ?_⟩
  change (Entries.mapInexact (fun p x => p.div x (p.ofNumber (.real c)))
    (fun p z => Cartesian.divReal p z (p.ofNumber (.real c))) a.entries).Denotes _
  refine ha.mapInexact (fun p x => ⟨x / c, ?_, by simp⟩) fun p z => ?_
  · rw [Precision.ofNumber_exact, Precision.div_exact, Exact.real_div _ _ nonzero]
  · rw [Precision.ofNumber_exact, quotient]

end NDArray

/-! ## Values -/

namespace Entries

variable {e : Entries Exact} {us : List ℂ}

theorem looseZero_totals : (looseZero : Entries Exact).Totals 0 :=
  .some (Denotes.real_iff.mpr ⟨[0], by simp, by simp⟩)

/-! ### Counts -/

/-- One for a number that is not zero. -/
noncomputable def flagOf (z : ℂ) : ℤ := if z = 0 then 0 else 1

theorem Denotes.nonzeros (denotes : e.Denotes us) : e.nonzeros = .whole .flag (us.map flagOf) := by
  cases denotes with
  | real p xs =>
      have each : ∀ x : ℝ, (if p.eq (Exact.real x) 0 = true then (0 : ℤ) else 1) = flagOf x := by
        intro x
        simp [flagOf]
      simp only [Entries.nonzeros, List.map_map]
      exact congrArg _ (List.map_congr_left fun x _ => each x)
  | complex p =>
      have each : ∀ z : ℂ, (if (Cartesian.ofComplex z).isZero p = true then (0 : ℤ) else 1) =
          flagOf z := by
        intro z
        simp [flagOf, Cartesian.isZero, Cartesian.ofComplex, Complex.ext_iff]
      simp only [Entries.nonzeros, List.map_map]
      exact congrArg _ (List.map_congr_left fun z _ => each z)

/-- A count does not wrap around: an array has fewer entries than the wide width can count. -/
theorem sum_bits (ns : List ℤ) (bits : ∀ n ∈ ns, 0 ≤ n ∧ n ≤ 1) (few : ns.length < 2 ^ 63) :
    Width.word64.sum ns = ns.sum := by
  have general : ∀ (ns : List ℤ) (m : ℤ), (∀ n ∈ ns, 0 ≤ n ∧ n ≤ 1) → 0 ≤ m →
      m + ns.length < 2 ^ 63 →
      ns.foldl (fun a x => Width.word64.wrap (a + x)) m = m + ns.sum := by
    intro ns
    induction ns with
    | nil => simp
    | cons n ns ih =>
        intro m bits nonneg few
        obtain ⟨⟨low, high⟩, rest⟩ := List.forall_mem_cons.mp bits
        rw [List.length_cons] at few
        push_cast at few
        have kept : Width.word64.wrap (m + n) = m + n :=
          Int.bmod_eq_of_le_mul_two (by norm_num; omega) (by norm_num; omega)
        rw [List.foldl_cons, kept, ih _ rest (by omega) (by omega), List.sum_cons, add_assoc]
  have summed := general ns 0 bits le_rfl (by rw [zero_add]; exact_mod_cast few)
  rwa [zero_add] at summed

/-- Counts added up as fractions. -/
theorem total_counts (x : ℝ) (ns : List ℤ) :
    total (.real .loose [Exact.real x]) (ns.map fun n => whole .word64 [n]) =
      .real .loose [Exact.real (x + (ns.map fun n : ℤ => (n : ℝ)).sum)] := by
  induction ns generalizing x with
  | nil => simp [total]
  | cons n ns ih =>
      have next : zipWith .add (.real .loose [Exact.real x]) (whole .word64 [n]) =
          .real .loose [Exact.real (x + n)] := rfl
      rw [List.map_cons, total, List.foldl_cons, next]
      refine (ih (x + n)).trans ?_
      rw [List.map_cons, List.sum_cons, add_assoc]

end Entries

namespace Regularizer

variable {S : Structure} {x : Vec Exact} {us : List ℂ}

theorem weigh_totals (c : ℝ) {e : Entries Exact} {z : ℂ} (total : e.Totals z) :
    weigh (.real c) e = .real (c * z.re) := by
  unfold weigh
  cases total with
  | none => simp [Entries.zero, Entries.mapInexact, Entries.first]
  | some denotes =>
      have weighed : (e.mapInexact (fun p x => p.mul (p.ofNumber (.real c)) x)
          fun p w => Cartesian.mul p (.ofReal (p.ofNumber (.real c))) w).Denotes [(c : ℂ) * z] :=
        denotes.mapInexact (fun p x => ⟨c * x, by simp, by simp⟩) fun p w => by simp
      rw [weighed.first, Complex.re_ofReal_mul]

/-- A sum over the entries of all leaves. -/
theorem sumLeaves_totals {f : Entries Exact → Entries Exact} {cost : ℂ → ℝ}
    (computed : ∀ {e : Entries Exact} {zs : List ℂ}, e.Denotes zs →
      (f e).Denotes (zs.map fun z => (cost z : ℂ)))
    (hx : x.Denotes S us) : (sumLeaves f x).Totals (((us.map cost).sum : ℝ) : ℂ) := by
  obtain ⟨ts, each, total⟩ := hx.leaves.sums (fun a => (f a.entries).sum)
    (fun z => (cost z : ℂ)) fun denotes => (computed denotes).sum
  have summed : 0 + ts.sum = (((us.map cost).sum : ℝ) : ℂ) := by
    rw [zero_add, total, ← sum_map_ofReal, List.map_map]
    rfl
  rw [← summed]
  exact Entries.total_totals Entries.looseZero_totals each

theorem weigh_sumLeaves (c : ℝ) {f : Entries Exact → Entries Exact} {cost : ℂ → ℝ}
    (computed : ∀ {e : Entries Exact} {zs : List ℂ}, e.Denotes zs →
      (f e).Denotes (zs.map fun z => (cost z : ℂ)))
    (hx : x.Denotes S us) :
    weigh (.real c) (sumLeaves f x) = .real (us.map fun z => c * cost z).sum := by
  rw [weigh_totals c (sumLeaves_totals computed hx), Complex.ofReal_re, List.sum_map_mul_left]

theorem value_l1 (l : ℝ) (hx : x.Denotes S us) :
    value (.l1 (.real l)) x = .ok (.real (us.map fun z => l * ‖z‖).sum) := by
  obtain ⟨y, arrays, hy⟩ := hx.asArrays
  unfold value
  rw [arrays]
  exact congrArg Except.ok (weigh_sumLeaves l (fun denotes => denotes.magnitudes) hy)

theorem value_l2 (l : ℝ) (hx : x.Denotes S us) :
    value (.l2 (.real l)) x = .ok (.real (us.map fun z => 1 / 2 * l * ‖z‖ ^ 2).sum) := by
  obtain ⟨y, arrays, hy⟩ := hx.asArrays
  have squared : ∀ {e : Entries Exact} {zs : List ℂ}, e.Denotes zs →
      e.magnitudes.squares.Denotes (zs.map fun z => ((‖z‖ ^ 2 : ℝ) : ℂ)) := by
    intro e zs denotes
    simpa [Function.comp_def] using denotes.magnitudes.squares
  unfold value
  rw [arrays]
  change Except.ok (weigh (0.5 * .real l) (sumLeaves (fun e => e.magnitudes.squares) y)) = _
  rw [Exact.half_eq, Exact.real_mul, weigh_sumLeaves (1 / 2 * l) squared hy]

theorem value_l0 (l : ℝ) (few : ∀ p ∈ S.leaves, volume p.shape < 2 ^ 63) (hx : x.Denotes S us) :
    value (.l0 (.real l)) x = .ok (.real (us.map fun z => if z = 0 then 0 else l).sum) := by
  have counted : ∀ {as : List (NDArray Exact)} {ps : List Spec} {zs : List ℂ},
      LeavesDenote as ps zs → (∀ p ∈ ps, volume p.shape < 2 ^ 63) →
      ∃ ns : List ℤ, (as.map fun a => a.entries.nonzeros.sum) =
        ns.map (fun n => Entries.whole .word64 [n]) ∧ ns.sum = (zs.map Entries.flagOf).sum := by
    intro as ps zs leaves
    induction leaves with
    | nil => exact fun _ => ⟨[], rfl, rfl⟩
    | @cons a p zs ws _ _ shape denotes _ ih =>
        intro few
        obtain ⟨ns, rest, total⟩ := ih fun p inside => few p (List.mem_cons_of_mem _ inside)
        have short : zs.length < 2 ^ 63 := by
          rw [denotes.length_eq, a.fits, shape]
          exact few p List.mem_cons_self
        have bits : ∀ n ∈ zs.map Entries.flagOf, 0 ≤ n ∧ n ≤ 1 := by
          intro n inside
          obtain ⟨z, _, rfl⟩ := List.mem_map.mp inside
          unfold Entries.flagOf
          split <;> omega
        refine ⟨(zs.map Entries.flagOf).sum :: ns, ?_, ?_⟩
        · rw [List.map_cons, List.map_cons, rest, denotes.nonzeros, Entries.sum,
            Entries.sum_bits _ bits (by rwa [List.length_map])]
        · rw [List.sum_cons, total, List.map_append, List.sum_append]
  obtain ⟨ns, sums, total⟩ := counted hx.leaves few
  have real : (ns.map fun n : ℤ => (n : ℝ)).sum = (us.map fun z => (Entries.flagOf z : ℝ)).sum := by
    have cast := congrArg (Int.cast : ℤ → ℝ) total
    rw [Int.cast_list_sum, Int.cast_list_sum, List.map_map] at cast
    exact cast
  have weighed : ∀ z : ℂ, l * (Entries.flagOf z : ℝ) = if z = 0 then 0 else l := by
    intro z
    unfold Entries.flagOf
    split <;> simp
  change Except.ok (weigh (.real l) (Entries.total (.real .loose [(0 : Exact)])
    (x.leaves.map fun a => a.entries.nonzeros.sum))) = _
  have number : ∀ x : ℝ, (Entries.real .loose [Exact.real x]).Totals (x : ℂ) :=
    fun x => .some (Entries.Denotes.real_iff.mpr ⟨[x], rfl, rfl⟩)
  rw [sums, Exact.zero_eq, Entries.total_counts, zero_add, real, weigh_totals l (number _),
    Complex.ofReal_re, ← List.sum_map_mul_left]
  simp only [weighed]

end Regularizer

/-! ## The regularizers that are sums over the entries -/

/-- The value is a sum over the entries and the step acts on every entry, where it minimises. -/
structure Regularizer.Entrywise (g : Regularizer Exact) (S : Structure) (γ : ℝ) (cost : ℂ → ℝ)
    (move : ℂ → ℂ) : Prop where
  value : ∀ {x : Vec Exact} {us : List ℂ}, x.Denotes S us →
    g.value x = .ok (.real (us.map cost).sum)
  point : ∀ {v : Vec Exact} {us : List ℂ}, v.Denotes S us →
    ∃ p, g.point v (.real γ) = .ok p ∧ p.Denotes S (us.map move)
  least : ∀ z u, cost (move z) + ‖move z - z‖ ^ 2 / (2 * γ) ≤ cost u + ‖u - z‖ ^ 2 / (2 * γ)

namespace Regularizer

variable {g : Regularizer Exact} {S : Structure} {γ l : ℝ} {cost : ℂ → ℝ} {move : ℂ → ℂ}

theorem entrywise_zero (positive : 0 < γ) : zero.Entrywise S γ (fun _ => 0) id where
  value _ := by
    rw [List.map_const', List.sum_replicate, smul_zero]
    exact congrArg Except.ok Exact.zero_eq
  point {v us} hv := ⟨v, rfl, by rwa [List.map_id]⟩
  least z u := by
    have away : 0 ≤ ‖u - z‖ ^ 2 / (2 * γ) := by positivity
    simpa using away

theorem entrywise_l1 (positive : 0 < γ) (nonneg : 0 ≤ l) :
    (l1 (.real l)).Entrywise S γ (fun z => l * ‖z‖) (softened (γ * l)) where
  value hx := value_l1 l hx
  point {v us} hv := by
    obtain ⟨y, arrays, hy⟩ := hv.asArrays
    refine ⟨_, ?_, hy.map (NDArray.softThreshold_denotes (γ * l))⟩
    change (do pure ((← v.asArrays).map (NDArray.softThreshold _))) = _
    rw [arrays]
    rfl
  least := softened_least positive nonneg

theorem entrywise_l0 (positive : 0 < γ) (nonneg : 0 ≤ l)
    (few : ∀ p ∈ S.leaves, volume p.shape < 2 ^ 63) :
    (l0 (.real l)).Entrywise S γ (fun z => if z = 0 then 0 else l)
      (hardened √(2 * γ * l)) where
  value hx := value_l0 l few hx
  point {v us} hv := by
    obtain ⟨y, arrays, hy⟩ := hv.asArrays
    refine ⟨_, ?_, hy.map (NDArray.hardThreshold_denotes √(2 * γ * l))⟩
    have threshold : Precision.loose.sqrt (2 * .real γ * .real l) = Exact.real √(2 * γ * l) := by
      rw [Exact.two_eq, Exact.real_mul, Exact.real_mul, Precision.sqrt_exact,
        Exact.sqrt_real _ (by positivity)]
    change (do pure ((← v.asArrays).map (NDArray.hardThreshold _))) = _
    rw [arrays, threshold]
    rfl
  least := hardened_least positive nonneg

theorem entrywise_l2 (positive : 0 < γ) (nonneg : 0 ≤ l) :
    (l2 (.real l)).Entrywise S γ (fun z => 1 / 2 * l * ‖z‖ ^ 2)
      (fun z => z / ((1 + γ * l : ℝ) : ℂ)) where
  value hx := value_l2 l hx
  point {v us} hv := by
    have nonzero : 1 + γ * l ≠ 0 := by positivity
    have divisor : (1 + .real γ * .real l : Exact) = .real (1 + γ * l) := by
      rw [Exact.one_eq, Exact.real_mul, Exact.real_add]
    change ∃ p, v.traverse (fun a => a.divide (1 + .real γ * .real l)) = .ok p ∧ _
    rw [divisor]
    exact hv.traverse (NDArray.divide_denotes nonzero)
  least := shrunk_least positive nonneg

/-- What minimises entry by entry minimises. -/
theorem Entrywise.least_sum (entrywise : g.Entrywise S γ cost move) {zs us : List ℂ}
    (same : us.length = zs.length) :
    ((zs.map move).map cost).sum +
        (List.zipWith (fun z w => ‖z - w‖ ^ 2) (zs.map move) zs).sum / (2 * γ) ≤
      (us.map cost).sum + (List.zipWith (fun z w => ‖z - w‖ ^ 2) us zs).sum / (2 * γ) := by
  induction zs generalizing us with
  | nil =>
      obtain rfl := List.length_eq_zero_iff.mp same
      simp
  | cons z zs ih =>
      cases us with
      | nil => cases same
      | cons u us =>
          have first := entrywise.least z u
          have rest := ih (Nat.succ.inj same)
          simp only [List.map_cons, List.sum_cons, List.zipWith_cons_cons, add_div] at rest ⊢
          linarith

end Regularizer

end ForwardBackward
