/-
# ForwardBackward.Proofs.Flattening -- a run over trees is a run over rows

The catalogue of regularizers acts on every entry by itself, so its steps cannot
tell a vector from the row of its numbers either (`Regularizer.prox_paired`), if the
bounds of a box are single numbers: an array of bounds would have to be flattened as
well.  The values of `l0` count in 64 bits, leaf by leaf, which is why there must not
be too many entries to count.

Let an operator `A` work on trees of real arrays of one precision, and `A'` on rows,
in such a way that `A'` does to the row of a tree what `A` does to the tree
(`Operator.Flattens`).  Then the run of `A'` from the row of a starting point is the
run of `A`: it makes the same moves, and it ends with the same result but for its
point, which is the row of the other one, or with the same failure
(`Solver.solve_flat`).
-/
import ForwardBackward.Proofs.Multiples
import ForwardBackward.Proofs.Rows
import ForwardBackward.Proofs.Shrinkage
import ForwardBackward.Proofs.Slots

namespace ForwardBackward

set_option autoImplicit false

/-! ## Number by number -/

/-- A single entry in many places. -/
theorem Entries.reals_gather_single {e : Entries Exact} (one : e.length = 1) (n : Nat) :
    (e.gather n fun _ => 0).reals .double = List.replicate n ((e.reals .double).headD 0) := by
  have constant : ∀ {α : Type} (x : α) (f : α → Exact),
      (List.map (fun _ => x) (List.range n)).map f = List.replicate n (f x) := by
    intro α x f
    rw [List.map_const', List.map_replicate, List.length_range]
  cases e with
  | whole w xs =>
      obtain ⟨x, rfl⟩ := List.length_eq_one_iff.mp (one : xs.length = 1)
      exact constant x _
  | real r xs =>
      obtain ⟨x, rfl⟩ := List.length_eq_one_iff.mp (one : xs.length = 1)
      exact constant x _
  | complex r zs =>
      obtain ⟨z, rfl⟩ := List.length_eq_one_iff.mp (one : zs.length = 1)
      exact constant z _

namespace NDArray

variable {p q : Precision} {a b : NDArray Exact} {us : List Exact}

/-- What an operation does to arrays of real numbers of precision `p`: either it is refused for a
reason of its own, or it does the same to every number. -/
inductive Entrywise (p : Precision) (f : NDArray Exact → Except Fault (NDArray Exact)) : Prop where
  | refused (e : Fault) (each : ∀ a us, a.entries = .real p us → f a = .error e)
  | taken (q : Precision) (op : Exact → Exact) (firm : q ≠ .bare)
      (each : ∀ a us, a.entries = .real p us →
        ∃ b, f a = .ok b ∧ b.shape = a.shape ∧ b.entries = .real q (us.map op))

theorem Entrywise.bind {f g : NDArray Exact → Except Fault (NDArray Exact)}
    (first : Entrywise p f) (rest : ∀ q, q ≠ .bare → Entrywise q g) :
    Entrywise p fun a => f a >>= g := by
  cases first with
  | refused e each =>
      refine .refused e fun a us entries => ?_
      rw [each a us entries]
      rfl
  | taken q op firm each =>
      cases rest q firm with
      | refused e each' =>
          refine .refused e fun a us entries => ?_
          obtain ⟨b, made, _, entries'⟩ := each a us entries
          rw [made]
          exact each' b _ entries'
      | taken r op' firm' each' =>
          refine .taken r (op' ∘ op) firm' fun a us entries => ?_
          obtain ⟨b, made, shape, entries'⟩ := each a us entries
          obtain ⟨c, made', shape', entries''⟩ := each' b _ entries'
          rw [made, ← List.map_map]
          exact ⟨c, made', shape'.trans shape, entries''⟩

theorem Entrywise.congr {f g : NDArray Exact → Except Fault (NDArray Exact)}
    (same : ∀ a us, a.entries = .real p us → g a = f a) (entrywise : Entrywise p f) :
    Entrywise p g := by
  cases entrywise with
  | refused e each =>
      exact .refused e fun a us entries => (same a us entries).trans (each a us entries)
  | taken q op firm each =>
      refine .taken q op firm fun a us entries => ?_
      rw [same a us entries]
      exact each a us entries

/-- The number of an array without axes stands at every entry. -/
theorem boundsOn_single (single : b.shape = []) :
    ∃ l, ∀ s, b.boundsOn s = List.replicate (volume s) l := by
  have one : b.enter.entries.length = 1 := b.enter.fits.trans (congrArg volume single)
  refine ⟨(b.enter.entries.reals .double).headD 0, fun s => ?_⟩
  unfold boundsOn expandTo gathered
  rw [show b.enter.shape = [] from single]
  exact Entries.reals_gather_single one _

/-- A single number meets every number of an array. -/
theorem zipWith_single {f : Rule Exact} (firm : p ≠ .bare) (single : b.shape = [])
    (real : b.kind.isComplex = false) : Entrywise p (zipWith f b) := by
  cases array : b.asArray with
  | error e =>
      refine .refused e fun a us entries => ?_
      unfold zipWith meet
      rw [isBare_of_real entries firm, Bool.and_false, if_neg Bool.false_ne_true, array]
      rfl
  | ok c =>
      obtain ⟨l, everywhere⟩ := boundsOn_single single
      obtain ⟨q, firmQ, joined⟩ := join_real (isComplex_enter.trans real) firm
      refine .taken q (f.real q l) firmQ fun a us entries => ?_
      have meets : broadcast b.shape a.shape = some a.shape := by
        rw [single]
        simp [broadcast, commonShape]
      obtain ⟨d, made, shape, _⟩ :=
        zipWith_expands (f := f) ⟨c, array⟩ meets (isBare_of_real entries firm)
      obtain ⟨_, zipped⟩ := zipWith_bound ⟨⟨c, array⟩, real, meets⟩ entries rfl firm joined made
      have bounds : b.boundsOn a.shape = us.map fun _ => l := by
        rw [everywhere, List.map_const', length_of_real entries]
      rw [bounds, List.zipWith_map_left, List.zipWith_self] at zipped
      exact ⟨d, made, shape, zipped⟩

theorem clip_entrywise {lower upper : NDArray Exact} (firm : p ≠ .bare)
    (below : lower.shape = []) (above : upper.shape = []) :
    Entrywise p fun a => a.clip lower upper := by
  have plain : ∀ (a : NDArray Exact) us, a.entries = .real p us →
      a.asArray = .ok a ∧ a.kind.isComplex = false := by
    intro a us entries
    refine ⟨(asArray_of_firm (isBare_of_real entries firm)).2, ?_⟩
    unfold kind
    rw [entries]
    rfl
  by_cases complex : (lower.kind.isComplex || upper.kind.isComplex) = true
  · refine .refused .clipOfComplex fun a us entries => ?_
    obtain ⟨array, real⟩ := plain a us entries
    unfold clip
    rw [array]
    simp only [bind, Except.bind, real, Bool.false_or, complex, if_true]
    rfl
  · obtain ⟨realL, realU⟩ : lower.kind.isComplex = false ∧ upper.kind.isComplex = false := by
      simpa using complex
    have clamps : Entrywise p fun a => zipWith .max lower a >>= zipWith .min upper :=
      (zipWith_single firm below realL).bind fun q firmQ => zipWith_single firmQ above realU
    refine clamps.congr fun a us entries => ?_
    obtain ⟨array, real⟩ := plain a us entries
    unfold clip
    rw [array]
    simp only [bind, Except.bind, real, realL, realU, Bool.or_self, Bool.false_eq_true, if_false]

theorem divide_entrywise (firm : p ≠ .bare) (c : Exact) : Entrywise p fun a => a.divide c := by
  refine .taken p (fun u => p.div u (p.ofNumber c)) firm fun a us entries => ?_
  unfold divide
  rw [isBare_of_real entries firm, Bool.false_and, if_neg Bool.false_ne_true]
  exact ⟨_, rfl, map_real entries⟩

/-- A function of the numbers and their moduli. -/
theorem withMagnitude_real {f : Precision → Exact → Exact → Exact}
    {g : Precision → Cartesian Exact → Exact → Cartesian Exact} (entries : a.entries = .real p us) :
    (a.withMagnitude f g).shape = a.shape ∧
      (a.withMagnitude f g).entries = .real p (us.map fun u => f p u (Scalar.abs u)) := by
  have moduli : (a.magnitudes.toFractional .loose).entries = .real p (us.map Scalar.abs) := by
    have known : a.magnitudes.entries = .real p (us.map Scalar.abs) := by
      change a.entries.magnitudes = _
      rw [entries]
      rfl
    unfold toFractional kind
    rw [known]
    exact known
  refine ⟨rfl, ?_⟩
  unfold withMagnitude
  change Entries.zipWith _ a.entries (a.magnitudes.toFractional .loose).entries = _
  rw [entries, moduli]
  unfold Entries.zipWith
  change Entries.real (p.join p) (List.zipWith (f (p.join p)) ((Entries.real p us).reals (p.join p))
    ((Entries.real p (us.map Scalar.abs)).reals (p.join p))) = _
  rw [reals_real, reals_real, Precision.join_self, List.zipWith_map_right, List.zipWith_self]

end NDArray

/-! ## Steps of the catalogue -/

namespace Structure

/-- How many entries the vectors of a structure have. -/
def volume (S : Structure) : Nat := (S.leaves.map fun p => ForwardBackward.volume p.shape).sum

end Structure

namespace LeavesRead

variable {p : Precision} {ps : List Spec} {as : List (NDArray Exact)} {xs : List Exact}

theorem volume (rows : LeavesRead p ps as xs) :
    xs.length = (ps.map fun q => ForwardBackward.volume q.shape).sum := by
  induction rows with
  | nil => rfl
  | cons shape entries _ ih =>
      rw [List.length_append, ih, NDArray.length_of_real entries, shape, List.map_cons,
        List.sum_cons]

theorem shaped (rows : LeavesRead p ps as xs) : List.Forall₂ NDArray.Shaped ps as := by
  induction rows with
  | nil => exact .nil
  | cons shape _ _ ih => exact .cons shape ih

theorem of_shaped (shapes : List.Forall₂ NDArray.Shaped ps as)
    (kinds : ∀ a ∈ as, a.kind = .real p) : ∃ xs, LeavesRead p ps as xs := by
  induction shapes with
  | nil => exact ⟨[], .nil⟩
  | @cons q a _ _ shape _ ih =>
      obtain ⟨kind, rest⟩ := List.forall_mem_cons.mp kinds
      obtain ⟨xs, rows⟩ := ih rest
      obtain ⟨us, entries⟩ : ∃ us, a.entries = .real p us := by
        unfold NDArray.kind at kind
        cases same : a.entries with
        | whole | complex =>
            rw [same] at kind
            cases kind
        | real r us =>
            rw [same] at kind
            cases kind
            exact ⟨us, rfl⟩
      exact ⟨us ++ xs, .cons shape entries rows⟩

end LeavesRead

namespace Vec

variable {S S' : Structure} {p : Precision} {xs : List Exact} {x x' : Vec Exact}

/-- What is done to every number by itself is done alike. -/
theorem Reads.traverse_agrees {f : NDArray Exact → Except Fault (NDArray Exact)}
    (occupied : S.leaves ≠ []) (occupied' : S'.leaves ≠ []) (entrywise : NDArray.Entrywise p f)
    (hx : x.Reads S p xs) (hx' : x'.Reads S' p xs) :
    Agrees (Alike S S') (Tree.traverse f x) (Tree.traverse f x') := by
  cases entrywise with
  | refused e each =>
      have refuses : ∀ {T : Structure} {y : Vec Exact}, T.leaves ≠ [] → y.Reads T p xs →
          Tree.traverse f y = .error e := by
        intro T y occupied hy
        refine Tree.traverse_refused (hy.rows.occupied occupied) fun a inside => ?_
        obtain ⟨us, entries⟩ := hy.rows.real a inside
        exact each a us entries
      rw [refuses occupied hx, refuses occupied' hx']
      exact .error
  | taken q op firm each =>
      obtain ⟨z, made, hz⟩ := hx.traverse each
      obtain ⟨z', made', hz'⟩ := hx'.traverse each
      rw [made, made']
      exact .ok ⟨q, _, firm, hz, hz'⟩

end Vec

namespace Regularizer

variable {σ : Type} {S S' : Structure} {g : Regularizer Exact} {v v' : Vec Exact} {gamma : Exact}
  {p : Precision} {xs : List Exact} {x : Vec Exact}

/-- The parameters of a regularizer are single numbers, and it can count up to `n` entries. -/
def Uniform (n : Nat) : Regularizer Exact → Prop
  | .box lower upper => lower.shape = [] ∧ upper.shape = []
  | .l0 _ => n < 2 ^ 63
  | _ => True

theorem point_agrees {n : Nat} (uniform : g.Uniform n) (occupied : S.leaves ≠ [])
    (occupied' : S'.leaves ≠ []) (alike : Vec.Alike S S' v v') :
    Agrees (Vec.Alike S S') (g.point v gamma) (g.point v' gamma) := by
  obtain ⟨p, xs, firm, hv, hv'⟩ := alike
  cases g with
  | zero => exact .ok ⟨p, xs, firm, hv, hv'⟩
  | l1 weight | l0 weight =>
      unfold point
      rw [hv.asArrays firm, hv'.asArrays firm]
      exact .ok ⟨p, _, firm, hv.map fun _ _ => NDArray.withMagnitude_real,
        hv'.map fun _ _ => NDArray.withMagnitude_real⟩
  | l2 weight =>
      exact hv.traverse_agrees occupied occupied' (NDArray.divide_entrywise firm _) hv'
  | box lower upper =>
      exact hv.traverse_agrees occupied occupied'
        (NDArray.clip_entrywise firm uniform.1 uniform.2) hv'

theorem weigh_sumsTo (c : Exact) {e : Entries Exact} {t : Exact} (sums : e.SumsTo t) :
    weigh c e = c * t := by
  cases sums with
  | none =>
      change (Precision.ofNumber _ c) * 0 = c * 0
      rw [Precision.ofNumber_exact]
  | some p =>
      change (Precision.ofNumber p c) * t = c * t
      rw [Precision.ofNumber_exact]

/-- A sum over the entries of all leaves is one over the row. -/
theorem sumLeaves_sumsTo {f : Entries Exact → Entries Exact} {op : Exact → Exact}
    (computed : ∀ us, ∃ q, (f (.real p us)).sum = .real q [Exact.sum (us.map op)])
    (hx : x.Reads S p xs) : (sumLeaves f x).SumsTo (0 + Exact.sum (xs.map op)) := by
  refine hx.rows.total (P := Entries.SumsTo) (fun a us e t _ entries sums => ?_) le_rfl
    (.some .loose 0)
  obtain ⟨q, sum⟩ := computed us
  rw [entries, sum]
  exact sums.add _ _

/-- One for a number that is not zero. -/
noncomputable def countOf (u : Exact) : ℤ := if Scalar.eq u 0 then 0 else 1

theorem sum_counts (ns : List ℤ) :
    Exact.sum (ns.map fun n : ℤ => .real n) = .real (ns.sum : ℤ) := by
  induction ns with
  | nil => simp [Exact.sum]
  | cons n ns ih =>
      rw [List.map_cons, ← List.singleton_append, Exact.sum_append, ih, List.sum_cons, Int.cast_add]
      change 0 + Exact.real n + Exact.real (ns.sum : ℤ) = _
      rw [Exact.zero_add, Exact.real_add]

/-- A count over the entries of all leaves is one over the row, if no leaf has too many of them. -/
theorem sumLeaves_nonzeros (few : xs.length < 2 ^ 63) (hx : x.Reads S p xs) :
    (sumLeaves Entries.nonzeros x).SumsTo
      (0 + Exact.sum (xs.map fun u => .real (countOf u : ℤ))) := by
  have counted : ∃ q, sumLeaves Entries.nonzeros x =
      .real q [0 + Exact.sum (xs.map fun u => .real (countOf u : ℤ))] := by
    refine hx.rows.total (P := fun e t => ∃ q, e = .real q [t])
      (fun a us e t short entries sums => ?_) (Nat.le_sub_one_of_lt few) ⟨.loose, rfl⟩
    obtain ⟨q, rfl⟩ := sums
    have bits : ∀ n ∈ us.map countOf, 0 ≤ n ∧ n ≤ 1 := by
      intro n inside
      obtain ⟨u, _, rfl⟩ := List.mem_map.mp inside
      unfold countOf
      split <;> omega
    have count : a.entries.nonzeros.sum = .whole .word64 [(us.map countOf).sum] := by
      rw [entries, ← Entries.sum_bits _ bits (by rw [List.length_map]; omega)]
      rfl
    have real : Exact.sum (us.map fun u => .real (countOf u : ℤ)) =
        .real ((us.map countOf).sum : ℤ) := by
      rw [← sum_counts, List.map_map]
      rfl
    rw [count, real]
    cases q <;> exact ⟨_, rfl⟩
  obtain ⟨q, total⟩ := counted
  rw [total]
  exact .some q _

/-- The value at the vectors that read as a row; a box has none without looking at its bounds. -/
noncomputable def valueAt (xs : List Exact) : Regularizer Exact → Exact
  | .l1 weight => weight * (0 + Exact.sum (xs.map Scalar.abs))
  | .l0 weight => weight * (0 + Exact.sum (xs.map fun u => .real (countOf u : ℤ)))
  | .l2 weight => 0.5 * weight * (0 + Exact.sum (xs.map fun u => Scalar.abs u * Scalar.abs u))
  | .zero | .box _ _ => 0

theorem value_of_reads (uniform : g.Uniform xs.length) (looks : ∀ lower upper, g ≠ .box lower upper)
    (firm : p ≠ .bare) (hx : x.Reads S p xs) : g.value x = .ok (g.valueAt xs) := by
  cases g with
  | zero => rfl
  | l1 weight =>
      unfold value
      rw [hx.asArrays firm]
      exact congrArg Except.ok (weigh_sumsTo _ (sumLeaves_sumsTo (fun us => ⟨_, rfl⟩) hx))
  | l0 weight =>
      exact congrArg Except.ok (weigh_sumsTo _ (sumLeaves_nonzeros uniform hx))
  | l2 weight =>
      unfold value
      rw [hx.asArrays firm]
      refine congrArg Except.ok (weigh_sumsTo _ (sumLeaves_sumsTo (fun us => ⟨p.firm, ?_⟩) hx))
      change Entries.real p.firm [Exact.sum ((us.map Scalar.abs).map fun u => u * u)] = _
      rw [List.map_map]
      rfl
  | box lower upper => exact absurd rfl (looks lower upper)

/-- Steps from vectors that read as the same row lead to such vectors, with the same value. -/
theorem prox_paired (uniform : g.Uniform S.volume) (occupied : S.leaves ≠ [])
    (occupied' : S'.leaves ≠ []) :
    Prox.Paired (Vec.Alike S S') (.ofRegularizer g : Prox σ Exact) (.ofRegularizer g) := by
  intro v v' gamma alike
  have looking : (∀ lower upper, g ≠ .box lower upper) → ∀ z z', Vec.Alike S S' z z' →
      g.value z' = g.value z := by
    rintro looks z z' ⟨p, xs, firm, hz, hz'⟩
    have count : xs.length = S.volume := hz.rows.volume
    rw [value_of_reads (count ▸ uniform) looks firm hz,
      value_of_reads (count ▸ uniform) looks firm hz']
  refine .lift (.bind (point_agrees uniform occupied occupied' alike) fun z z' related => ?_)
  cases g with
  | box lower upper => exact .ok ⟨related, rfl⟩
  | zero | l1 | l0 | l2 =>
      exact .bind_eq (looking (fun _ _ same => by cases same) z z' related)
        fun G => .pure ⟨related, rfl⟩

end Regularizer

/-! ## Rows -/

namespace Structure

/-- The structure of a row with as many entries. -/
def flat (S : Structure) (p : Precision) : Structure := .leaf ⟨[S.volume], .real p⟩

end Structure

namespace Vec

variable {S : Structure} {p q : Precision} {xs : List Exact} {x x' : Vec Exact}

/-- The entries of all leaves in one row, leaf after leaf. -/
def flat {R : Type} [Scalar R] (x : Vec R) : Vec R := Tree.leaf (NDArray.concat x.leaves)

/-- A vector of a structure, all of whose leaves are arrays of real numbers of one precision. -/
def Uniform (S : Structure) (x : Vec Exact) : Prop :=
  x.Shaped S ∧ ∃ p : Precision, p ≠ .bare ∧ ∀ a ∈ x.leaves, a.kind = .real p

/-- A vector and its row. -/
def Flattened (S : Structure) (x x' : Vec Exact) : Prop := x.Uniform S ∧ x' = x.flat

theorem Uniform.reads (uniform : x.Uniform S) : ∃ p xs, p ≠ .bare ∧ x.Reads S p xs := by
  obtain ⟨⟨skeleton, shapes⟩, p, firm, kinds⟩ := uniform
  obtain ⟨xs, rows⟩ := LeavesRead.of_shaped shapes kinds
  exact ⟨p, xs, firm, skeleton, rows⟩

theorem Reads.uniform (firm : p ≠ .bare) (hx : x.Reads S p xs) : x.Uniform S := by
  refine ⟨⟨hx.skeleton, hx.rows.shaped⟩, p, firm, fun a inside => ?_⟩
  obtain ⟨us, entries⟩ := hx.rows.real a inside
  exact congrArg Entries.kind entries

/-- The row of a vector reads as the vector. -/
theorem Reads.flat (occupied : S.leaves ≠ []) (hx : x.Reads S p xs) (q : Precision) :
    x.flat.Reads (S.flat q) p xs := by
  obtain ⟨shape, entries⟩ := hx.rows.concat occupied
  have shape' : (NDArray.concat x.leaves).shape = [S.volume] := by
    rw [shape, hx.rows.volume]
    rfl
  have rows : LeavesRead p (S.flat q).leaves [NDArray.concat x.leaves] (xs ++ []) :=
    .cons shape' entries .nil
  rw [List.append_nil] at rows
  exact ⟨rfl, rows⟩

/-- What reads as the row of a vector is the row. -/
theorem Reads.eq_flat (occupied : S.leaves ≠ []) (hx : x.Reads S p xs)
    (hx' : x'.Reads (S.flat q) p xs) : x' = x.flat := by
  obtain ⟨shape, entries⟩ := hx.rows.concat occupied
  obtain ⟨skeleton, leaves, fits⟩ := x'
  obtain ⟨one, rows⟩ := hx'
  change LeavesRead p [⟨[S.volume], .real q⟩] leaves xs at rows
  cases rows with
  | @cons _ _ a _ us _ shape' entries' rest =>
      cases rest
      rw [List.append_nil] at shape entries
      have count : us.length = S.volume :=
        (NDArray.length_of_real entries').trans (by rw [shape']; exact Nat.mul_one _)
      have same : a = NDArray.concat x.leaves :=
        NDArray.eq_of_entries (by rw [shape, shape', count]) (entries'.trans entries.symm)
      ext1
      · exact one
      · exact congrArg (fun b => [b]) same

theorem flattened_eq (occupied : S.leaves ≠ []) (q : Precision) :
    Flattened S = Alike S (S.flat q) := by
  funext x x'
  refine propext ⟨?_, ?_⟩
  · rintro ⟨uniform, rfl⟩
    obtain ⟨p, xs, firm, hx⟩ := uniform.reads
    exact ⟨p, xs, firm, hx, hx.flat occupied q⟩
  · rintro ⟨p, xs, firm, hx, hx'⟩
    exact ⟨hx.uniform firm, hx.eq_flat occupied hx'⟩

end Vec

/-! ## Runs -/

/-- An operator between trees of real arrays of one precision. -/
structure Operator.Uniform {σ : Type} (p : Precision) (A : Operator σ Exact) : Prop where
  firm : p ≠ .bare
  occupied : A.domain.leaves ≠ []
  occupied' : A.codomain.leaves ≠ []
  kinds : ∀ q ∈ A.domain.leaves, q.kind = .real p
  apply {x y : Vec Exact} {env env' : σ} : x.Uniform A.domain → A.apply x env = .ok y env' →
    y.Uniform A.codomain
  linearPart {x y : Vec Exact} {env env' : σ} : x.Uniform A.domain →
    A.linearPart.apply x env = .ok y env' → y.Uniform A.codomain
  applyAdjoint {y x : Vec Exact} {env env' : σ} : y.Uniform A.codomain →
    A.applyAdjoint y env = .ok x env' → x.Uniform A.domain

/-- The operator `A'` does to rows what `A` does to the vectors that they are rows of. -/
structure Operator.Flattens {σ : Type} (p : Precision) (A A' : Operator σ Exact) : Prop where
  domain : A'.domain = A.domain.flat p
  apply {x : Vec Exact} : x.Uniform A.domain → A'.apply x.flat = Vec.flat <$> A.apply x
  linearPart {x : Vec Exact} : x.Uniform A.domain →
    A'.linearPart.apply x.flat = Vec.flat <$> A.linearPart.apply x
  applyAdjoint {y : Vec Exact} : y.Uniform A.codomain →
    A'.applyAdjoint y.flat = Vec.flat <$> A.applyAdjoint y

/-- The result with the row of its point. -/
def Result.flat {R : Type} [Scalar R] (r : Result R) : Result R := { r with x := r.x.flat }

section Runs

open Vec (Flattened)

variable {σ : Type} {p : Precision} {A A' : Operator σ Exact} {g : Regularizer Exact}
  {c : Config σ Exact} {x0 : Option (Vec Exact)}

/-- Calls of which one answers the rows of what the other one answers. -/
theorem Parallel.flattened {S : Structure} {m m' : Call σ (Vec Exact)}
    (same : m' = Vec.flat <$> m) (uniform : ∀ env y env', m env = .ok y env' → y.Uniform S) :
    Parallel (Flattened S) m m' := by
  intro env
  subst same
  change Alike _ (m env) (EStateM.map Vec.flat m env)
  unfold EStateM.map
  cases answered : m env with
  | ok y env' => exact .ok ⟨uniform env y env' answered, rfl⟩
  | error e env' => exact .error

theorem Operator.Flattens.paired (uniform : A.Uniform p) (flattens : A.Flattens p A') :
    A.Paired (Flattened A.domain) (Flattened A.codomain) A' where
  apply := by
    rintro x _ ⟨hx, rfl⟩
    exact Parallel.flattened (flattens.apply hx) fun _ _ _ => uniform.apply hx
  linearPart := by
    rintro x _ ⟨hx, rfl⟩
    exact Parallel.flattened (flattens.linearPart hx) fun _ _ _ => uniform.linearPart hx
  applyAdjoint := by
    rintro y _ ⟨hy, rfl⟩
    exact Parallel.flattened (flattens.applyAdjoint hy) fun _ _ _ => uniform.applyAdjoint hy

/-- A run over trees and the run over their rows are in lockstep, if the standard predicate is
asked. -/
theorem Solver.lockstep_flat (uniform : A.Uniform p) (flattens : A.Flattens p A')
    (hg : g.Uniform A.domain.volume) (standard : c.halt = none) :
    Lockstep (Flattened A.domain) (Flattened A.codomain) A A' (.ofRegularizer g) (.ofRegularizer g)
      c where
  congruence := by
    rw [Vec.flattened_eq uniform.occupied p]
    exact Vec.alike_congruence uniform.occupied (List.cons_ne_nil _ _)
  additive := by
    rw [Vec.flattened_eq uniform.occupied' p]
    exact Vec.alike_additive _ _
  operator := flattens.paired uniform
  prox := by
    rw [Vec.flattened_eq uniform.occupied p]
    exact Regularizer.prox_paired hg uniform.occupied (List.cons_ne_nil _ _)
  asked := by
    intro s s' paired env
    have predicate : c.predicate = .standard := by
      unfold Config.predicate
      rw [standard]
      rfl
    rw [predicate]
    exact paired.reads fun n => Predicate.standard.judge c.tolerance n env

theorem firstShapeDifference_none {ss ts : List Spec}
    (same : ss.map Spec.shape = ts.map Spec.shape) : firstShapeDifference ss ts = none := by
  induction ss generalizing ts with
  | nil => rfl
  | cons s ss ih =>
      cases ts with
      | nil => rfl
      | cons t ts =>
          obtain ⟨here, rest⟩ := List.cons.inj same
          unfold firstShapeDifference
          rw [if_pos here]
          exact ih rest

namespace Vec.Reads

variable {S : Structure} {q : Precision} {xs : List Exact} {x : Vec Exact}

theorem toInexact (firm : q ≠ .bare) (hx : x.Reads S q xs) : x.toInexact = .ok x := by
  have same : x.map (NDArray.toFractional .double) = x := by
    ext1
    · rfl
    · refine (List.map_congr_left fun a inside => ?_).trans (List.map_id _)
      obtain ⟨us, entries⟩ := hx.rows.real a inside
      unfold NDArray.toFractional NDArray.kind
      rw [entries]
      rfl
  unfold Vec.toInexact
  rw [hx.asArrays firm]
  exact congrArg Except.ok same

theorem check (firm : q ≠ .bare) (hx : x.Reads S q xs) (name : String) :
    x.check name S = .ok () := by
  have shapes : x.spec.leaves.map Spec.shape = S.leaves.map Spec.shape := by
    change (x.leaves.map NDArray.spec).map Spec.shape = _
    rw [List.map_map, eq_comm, ← List.forall₂_eq_eq_eq, List.forall₂_map_left_iff,
      List.forall₂_map_right_iff]
    exact hx.rows.shaped.imp fun _ _ shape => Eq.symm shape
  have structured : x.toStructure = .ok x.spec := by
    unfold toStructure
    rw [hx.asArrays firm]
    rfl
  unfold Vec.check
  rw [structured]
  change checkStructure name x.spec S = _
  unfold checkStructure
  rw [if_pos (show x.spec.skeleton = S.skeleton from hx.skeleton), firstShapeDifference_none shapes]

end Vec.Reads

/-- A vector of real arrays that has the structure of the operator is a starting point as it
stands. -/
theorem Solver.startingPoint_of_reads {q : Precision} {xs : List Exact} (firm : q ≠ .bare)
    (hx : (x0.getD (Vec.zeros A.domain)).Reads A.domain q xs) :
    startingPoint A x0 = .ok (x0.getD (Vec.zeros A.domain)) := by
  unfold startingPoint
  rw [hx.toInexact firm]
  change (do (x0.getD (Vec.zeros A.domain)).check "x0" A.domain; pure _) = _
  rw [hx.check firm]
  rfl

theorem LeavesRead.zeros {ps : List Spec} (kinds : ∀ q ∈ ps, q.kind = .real p) :
    LeavesRead p ps (ps.map NDArray.zeros)
      (List.replicate (ps.map fun q => ForwardBackward.volume q.shape).sum 0) := by
  induction ps with
  | nil => exact .nil
  | cons q ps ih =>
      obtain ⟨kind, rest⟩ := List.forall_mem_cons.mp kinds
      rw [List.map_cons, List.map_cons, List.sum_cons, List.replicate_add]
      refine .cons rfl ?_ (ih rest)
      change Entries.zeros (ForwardBackward.volume q.shape) q.kind = _
      rw [kind]
      rfl

theorem Solver.startingPoint_flat (uniform : A.Uniform p) (flattens : A.Flattens p A')
    (start : ∀ x, x0 = some x → x.Uniform A.domain) :
    Agrees (Flattened A.domain) (startingPoint A x0) (startingPoint A' (x0.map Vec.flat)) := by
  suffices alike : Vec.Alike A.domain A'.domain (x0.getD (Vec.zeros A.domain))
      ((x0.map Vec.flat).getD (Vec.zeros A'.domain)) by
    obtain ⟨q, xs, firm, hx, hx'⟩ := alike
    rw [startingPoint_of_reads firm hx, startingPoint_of_reads firm hx',
      Vec.flattened_eq uniform.occupied p, ← flattens.domain]
    exact .ok ⟨q, xs, firm, hx, hx'⟩
  rw [flattens.domain]
  cases x0 with
  | some x =>
      rw [← Vec.flattened_eq uniform.occupied p]
      exact ⟨start x rfl, rfl⟩
  | none =>
      have row : LeavesRead p (A.domain.flat p).leaves
          ((A.domain.flat p).leaves.map NDArray.zeros) _ :=
        LeavesRead.zeros (by simp [Structure.flat, Tree.leaf])
      have count : ((A.domain.flat p).leaves.map fun q => volume q.shape).sum =
          A.domain.volume := by
        simp [Structure.flat, Tree.leaf, volume]
      rw [count] at row
      exact ⟨p, _, uniform.firm, ⟨rfl, LeavesRead.zeros uniform.kinds⟩, rfl, row⟩

/-- The run over the rows is the run over the trees: from a starting point that is a row, and with
an operator that works on rows, it has the outcome of the run over the trees, and it makes the same
moves on the way. -/
theorem Solver.solve_flat (uniform : A.Uniform p) (flattens : A.Flattens p A')
    (hg : g.Uniform A.domain.volume) (standard : c.halt = none)
    (start : ∀ x, x0 = some x → x.Uniform A.domain) :
    solve A' (.ofRegularizer g) (x0.map Vec.flat) c =
      Result.flat <$> solve A (.ofRegularizer g) x0 c ∧
    ∀ {w : World σ Exact} {vs : List (Snapshot σ Exact)} {b : Snapshot σ Exact},
      Passes A (.ofRegularizer g) x0 c w vs b →
      ∃ vs' b', Passes A' (.ofRegularizer g) (x0.map Vec.flat) c w vs' b' ∧
        List.Forall₂ (Snapshot.Paired (Flattened A.domain) (Flattened A.codomain)) vs vs' ∧
        b.Paired (Flattened A.domain) (Flattened A.codomain) b' := by
  have lockstep := lockstep_flat uniform flattens hg standard
  have started := startingPoint_flat uniform flattens start
  refine ⟨?_, fun passes => passes.paired lockstep started⟩
  funext w
  have alike := solve_parallel lockstep started w
  change _ = EStateM.map Result.flat _ w
  unfold EStateM.map
  generalize solve A (.ofRegularizer g) x0 c w = outcome at alike ⊢
  generalize solve A' (.ofRegularizer g) (x0.map Vec.flat) c w = outcome' at alike ⊢
  cases alike with
  | @ok r r' w' related =>
      obtain ⟨⟨_, point⟩, rest⟩ := related
      rw [rest, point]
      rfl
  | error => rfl

end Runs

/-! ## Multiples of trees and of rows -/

namespace Operator

variable {S : Structure} {p : Precision} {a : ℝ} {x : Vec Exact}

theorem scale_uniform (c : Exact) (uniform : x.Uniform S) : (x.scale c).Uniform S := by
  obtain ⟨q, xs, firm, hx⟩ := uniform.reads
  exact (hx.scale c).uniform firm

theorem scale_flat (occupied : S.leaves ≠ []) (c : Exact) (uniform : x.Uniform S) :
    x.flat.scale c = (x.scale c).flat := by
  obtain ⟨q, xs, firm, hx⟩ := uniform.reads
  exact (hx.scale c).eq_flat occupied ((hx.flat occupied q).scale c)

theorem multiple_uniform (firm : p ≠ .bare) (occupied : S.leaves ≠ [])
    (kinds : ∀ q ∈ S.leaves, q.kind = .real p) : (multiple S a).Uniform p := by
  have answers : ∀ {x y : Vec Exact} {env env' : Unit}, x.Uniform S →
      (pure (x.scale (.real a)) : Call Unit (Vec Exact)) env = .ok y env' → y.Uniform S := by
    intro x y env env' uniform answered
    obtain ⟨rfl, _⟩ := pure_returns.mp answered
    exact scale_uniform _ uniform
  exact ⟨firm, occupied, occupied, kinds, answers, answers, answers⟩

/-- To multiply a tree by a number is to multiply its row. -/
theorem multiple_flattens (occupied : S.leaves ≠ []) :
    (multiple S a).Flattens p (multiple (S.flat p) a) := by
  have same : ∀ {x : Vec Exact}, x.Uniform S →
      (pure (x.flat.scale (.real a)) : Call Unit (Vec Exact)) =
        Vec.flat <$> (pure (x.scale (.real a)) : Call Unit (Vec Exact)) := by
    intro x uniform
    rw [scale_flat occupied _ uniform]
    rfl
  exact ⟨rfl, same, same, same⟩

end Operator

namespace Plain

/-- Two numbers and a third one, in a dictionary. -/
def table : Structure := .node (.dict ["a", "b"])
  [.leaf ⟨[2], .real .double⟩, .leaf ⟨[1], .real .double⟩]

def origin : Vec Exact := .node (.dict ["a", "b"])
  [start, .leaf ⟨[1], .real .double [.real 5], rfl⟩]

theorem table_kinds : ∀ q ∈ table.leaves, q.kind = .real .double :=
  List.forall_mem_cons.mpr ⟨rfl, List.forall_mem_cons.mpr ⟨rfl, List.forall_mem_nil _⟩⟩

theorem origin_uniform : origin.Uniform table := by
  refine ⟨⟨rfl, .cons rfl (.cons rfl .nil)⟩, .double, Precision.noConfusion, ?_⟩
  exact List.forall_mem_cons.mpr ⟨rfl, List.forall_mem_cons.mpr ⟨rfl, List.forall_mem_nil _⟩⟩

/-- Two iterations with the step size `1 / 2` and the standard predicate. -/
noncomputable def standardConfig : Config Unit Exact := { config (1 / 2) with halt := none }

theorem standardConfig_checked : standardConfig.Checked :=
  (config_checked one_half_pos).withHalt none

theorem table_served : Solver.Served (.multiple table 1) prox standardConfig 32 where
  total := Operator.multiple_total table 1
  answers := Prox.zero_total
  stays := Prox.zero_staysIn
  decides := fun _ _ env => ⟨_, env, rfl⟩
  budget := rfl

theorem table_returns : ∃ r w', Solver.solve (.multiple table 1) prox (some origin) standardConfig
    world = .ok r w' := by
  obtain ⟨q, xs, firm, hx⟩ := origin_uniform.reads
  have started : Solver.startingPoint (.multiple table 1) (some origin) = .ok origin :=
    Solver.startingPoint_of_reads firm hx
  refine Solver.returns (Operator.multipleMeaning table 1) table_served standardConfig_checked rfl
    rfl rfl ?_ started world
  rintro v ⟨⟩
  rfl

end Plain

/-- Three numbers in a dictionary and in a row. -/
theorem Solver.plain_solve_flat : ∃ r w',
    solve (.multiple Plain.table 1) Plain.prox (some Plain.origin) Plain.standardConfig
      Plain.world = .ok r w' ∧
    solve (.multiple (Plain.table.flat .double) 1) Plain.prox (some Plain.origin.flat)
      Plain.standardConfig Plain.world = .ok r.flat w' := by
  obtain ⟨r, w', returned⟩ := Plain.table_returns
  have occupied : Plain.table.leaves ≠ [] := List.cons_ne_nil _ _
  have started : ∀ x, some Plain.origin = some x → x.Uniform Plain.table := by
    rintro x ⟨⟩
    exact Plain.origin_uniform
  have outcomes := (solve_flat (g := .zero) (c := Plain.standardConfig)
    (Operator.multiple_uniform (a := 1) Precision.noConfusion occupied Plain.table_kinds)
    (Operator.multiple_flattens (a := 1) occupied) trivial rfl started).1
  refine ⟨r, w', returned, (congrFun outcomes Plain.world).trans ?_⟩
  change EStateM.map Result.flat _ Plain.world = _
  unfold EStateM.map
  rw [returned]

end ForwardBackward
