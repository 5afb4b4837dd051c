/-
# ForwardBackward.Proofs.Matrices -- products with matrices and with bands

The rows of a matrix stand one after the other in one row of numbers.  The product with
a column is the list of the sums along the rows (`NDArray.matmul_denotes`), the number
in row `i` and column `j` is the one in row `j` and column `i` of the transposed matrix
(`getD_transposed`), and exchanging two finite sums gives that the two products are
transposes of each other (`matmul_transposes`).

The product with a band adds what the two outer diagonals contribute to the product of
the inner one, and stores the sum in the kind of that product each time: if that is a
real kind, the contributions lose their imaginary parts (`Kind.kept`).  Numbers without
imaginary parts move across such a product as they move across any other
(`Kind.kept_mul`), so a band and the band with its outer diagonals exchanged are
transposes of each other whatever the kinds of the outer diagonals
(`Band.transposes`).
-/
import ForwardBackward.Proofs.Boxes
import ForwardBackward.Proofs.Pairings

namespace ForwardBackward

set_option autoImplicit false

/-! ## Maps of one array -/

theorem Vec.numbers_leaf (a : NDArray Exact) : Vec.numbers (.leaf a) = a.entries.numbers :=
  List.append_nil _

/-- Maps of one array each are transposes of each other if the numbers that they compute
have one pairing on either side. -/
theorem Transposes.ofArrays {p q : Spec} {f g : NDArray Exact → Except Fault (NDArray Exact)}
    {F G : List ℂ → List ℂ}
    (forth : ∀ {a : NDArray Exact} {us : List ℂ}, a.Inhabits p → a.entries.Denotes us →
      ∃ c, f a = .ok c ∧ c.Inhabits q ∧ c.entries.Denotes (F us))
    (back : ∀ {b : NDArray Exact} {vs : List ℂ}, b.Inhabits q → b.entries.Denotes vs →
      ∃ c, g b = .ok c ∧ c.Inhabits p ∧ c.entries.Denotes (G vs))
    (pairs : ∀ {a b : NDArray Exact} {us vs : List ℂ}, a.Inhabits p → a.entries.Denotes us →
      b.Inhabits q → b.entries.Denotes vs → sumProducts (F us) vs = sumProducts us (G vs)) :
    Transposes (.leaf p) (.leaf q) (fun x => do pure (.leaf (← f (← x.theArray))))
      (fun y => do pure (.leaf (← g (← y.theArray)))) := by
  have onward : ∀ {p q : Spec} {f : NDArray Exact → Except Fault (NDArray Exact)}
      {F : List ℂ → List ℂ},
      (∀ {a : NDArray Exact} {us : List ℂ}, a.Inhabits p → a.entries.Denotes us →
        ∃ c, f a = .ok c ∧ c.Inhabits q ∧ c.entries.Denotes (F us)) →
      ∀ {x : Vec Exact}, x.Inhabits (.leaf p) → ∃ a c us, x = .leaf a ∧ a.Inhabits p ∧
        a.entries.Denotes us ∧
        (do pure (.leaf (← f (← x.theArray)))) = Except.ok (Tree.leaf c : Vec Exact) ∧
        c.Inhabits q ∧ c.entries.Denotes (F us) := by
    intro p q f F computed x hx
    obtain ⟨a, rfl, ha⟩ := hx.eq_leaf
    obtain ⟨us, denotes⟩ := ha.finite
    obtain ⟨c, made, hc, denotes'⟩ := computed ha denotes
    refine ⟨a, c, us, rfl, ha, denotes, ?_, hc, denotes'⟩
    change (do pure (Tree.leaf (← f a))) = _
    rw [made]
    rfl
  have leaf : ∀ {p : Spec} {c : NDArray Exact}, c.Inhabits p →
      Vec.Inhabits (.leaf p) (.leaf c) := fun hc => ⟨rfl, .cons hc .nil⟩
  refine ⟨?_, ?_, ?_⟩
  · intro x hx
    obtain ⟨a, c, us, _, _, _, made, hc, _⟩ := onward forth hx
    exact ⟨_, made, leaf hc⟩
  · intro y hy
    obtain ⟨b, c, vs, _, _, _, made, hc, _⟩ := onward back hy
    exact ⟨_, made, leaf hc⟩
  · intro x y z w hx hy forward backward
    obtain ⟨a, c, us, rfl, ha, denotes, made, _, value⟩ := onward forth hx
    obtain ⟨b, c', vs, rfl, hb, denotes', made', _, value'⟩ := onward back hy
    cases forward.symm.trans made
    cases backward.symm.trans made'
    unfold Vec.pairing
    simp only [Vec.numbers_leaf, denotes.numbers_eq, denotes'.numbers_eq, value.numbers_eq,
      value'.numbers_eq]
    exact pairs ha denotes hb denotes'

/-! ## Numbers picked by position -/

theorem getD_map_range (n : Nat) (f : Nat → ℂ) (k : Nat) :
    ((List.range n).map f).getD k 0 = if k < n then f k else 0 := by
  by_cases inside : k < n <;> simp [inside]

theorem Entries.Denotes.gather {a : Entries Exact} {us : List ℂ} (n : Nat)
    (position : Nat → Nat) (ha : a.Denotes us) :
    (a.gather n position).Denotes ((List.range n).map fun k => us.getD (position k) 0) := by
  cases a with
  | whole w xs => cases ha
  | real p xs =>
      obtain ⟨ys, rfl, rfl⟩ := Denotes.real_iff.mp ha
      refine Denotes.ofReal p (fun k => ys.getD (position k) 0) (List.range n) ?_ ?_
      · intro k
        by_cases inside : position k < ys.length <;> simp [inside]
      · intro k
        by_cases inside : position k < ys.length <;> simp [inside]
  | complex p zs =>
      obtain rfl := Denotes.complex_iff.mp ha
      refine Denotes.ofComplex p (List.range n) fun k => ?_
      by_cases inside : position k < us.length <;> simp [inside]

/-! ## Rows times columns -/

theorem Cartesian.sum_products (p : Precision) (r c : List ℂ) :
    Cartesian.sum p (List.zipWith (Cartesian.mul p) (r.map ofComplex) (c.map ofComplex)) =
      ofComplex (sumProducts r c) := by
  rw [sumProducts, ← sum_ofComplex p, List.map_zipWith, List.zipWith_map]
  simp only [mul_ofComplex]

theorem Precision.sum_products (p : Precision) (r c : List ℝ) :
    p.sum (List.zipWith p.mul (r.map Exact.real) (c.map Exact.real)) =
      .real (List.zipWith (· * ·) r c).sum := by
  rw [← Precision.sum_real p, List.map_zipWith, List.zipWith_map]
  rfl

theorem sumProducts_ofReal (r c : List ℝ) :
    sumProducts (r.map Complex.ofReal) (c.map Complex.ofReal) =
      Complex.ofReal (List.zipWith (· * ·) r c).sum := by
  rw [sumProducts, ← sum_map_ofReal, List.map_zipWith, List.zipWith_map]
  simp only [Complex.ofReal_mul]

/-! ## Tables -/

namespace Entries

theorem pieces_eq {α : Type} (count n : Nat) (xs : List α) :
    pieces count n xs = (List.range count).map fun i => (xs.drop (i * n)).take n := by
  induction count generalizing xs with
  | zero => rfl
  | succ count ih =>
      rw [pieces, ih, List.range_succ_eq_map, List.map_cons, List.map_map, Nat.zero_mul,
        List.drop_zero]
      refine congrArg _ (List.map_congr_left fun i _ => ?_)
      simp [List.drop_drop, Nat.succ_mul, Nat.add_comm]

theorem pieces_map {α β : Type} (g : α → β) (count n : Nat) (xs : List α) :
    pieces count n (xs.map g) = (pieces count n xs).map (List.map g) := by
  simp only [pieces_eq, List.map_map, ← List.map_drop, ← List.map_take, Function.comp_def]

/-- Tables of what a map makes of numbers, if the entries are what it makes of entries. -/
theorem tables_map {α β : Type} (f : List β → List β → β) {f' : List α → List α → α}
    (g : α → β) (entry : ∀ r c, f (r.map g) (c.map g) = g (f' r c))
    (count rows n columns : Nat) (xs ys : List α) :
    tables f count rows n columns (xs.map g) (ys.map g) =
      (tables f' count rows n columns xs ys).map g := by
  have table_map : ∀ xs ys : List α, table f rows n columns (xs.map g) (ys.map g) =
      (table f' rows n columns xs ys).map g := by
    intro xs ys
    simp only [table, pieces_map, List.flatMap_map, List.map_flatMap, List.map_map,
      Function.comp_def, entry]
  simp only [tables, pieces_map, List.zipWith_map, table_map, List.map_flatten, List.map_zipWith]

/-- The products of matrices are tables of sums of products. -/
theorem Denotes.product {a b : Entries Exact} {us vs : List ℂ} (ha : a.Denotes us)
    (hb : b.Denotes vs) (count rows n columns : Nat) :
    (Entries.product count rows n columns a b).Denotes
      (tables sumProducts count rows n columns us vs) := by
  have onComplex : ∀ p, a.kind.join b.kind = .complex p →
      (Entries.product count rows n columns a b).Denotes
        (tables sumProducts count rows n columns us vs) := by
    intro p joined
    have tabled := tables_map (fun r c => Cartesian.sum p (List.zipWith (Cartesian.mul p) r c))
      Cartesian.ofComplex (Cartesian.sum_products p) count rows n columns us vs
    simp only [Entries.product, joined, ha.complexes_eq, hb.complexes_eq, tabled]
    exact .complex p _
  cases ha with
  | complex p => cases hb <;> exact onComplex _ rfl
  | real p xs =>
      cases hb with
      | complex q => exact onComplex _ rfl
      | real q ys =>
          have entries := tables_map (fun r c => (p.join q).sum (List.zipWith (p.join q).mul r c))
            Exact.real (Precision.sum_products (p.join q)) count rows n columns xs ys
          have numbers := tables_map sumProducts Complex.ofReal sumProducts_ofReal count rows n
            columns xs ys
          simp only [Entries.product, kind, Kind.join, NDArray.reals_real, entries, numbers]
          exact .real _ _

theorem kind_product {R : Type} [Scalar R] (count rows n columns : Nat) (a b : Entries R) :
    (product count rows n columns a b).kind = a.kind.join b.kind := by
  unfold product
  split <;> simp_all [kind]

end Entries

/-- The number in row `i` of the product of a matrix with one column. -/
theorem getD_tables {rows n i : Nat} {ms us : List ℂ} (hm : ms.length = rows * n)
    (hu : us.length = n) (inside : i < rows) :
    (Entries.tables sumProducts 1 rows n 1 ms us).getD i 0 =
      ∑ j ∈ Finset.range n, ms.getD (i * n + j) 0 * us.getD j 0 := by
  have row : i * n + n ≤ ms.length := by
    rw [hm, ← Nat.succ_mul]
    exact Nat.mul_le_mul_right n inside
  have cut : ((ms.drop (i * n)).take n).length = n := by simp; omega
  have entry : (Entries.tables sumProducts 1 rows n 1 ms us).getD i 0 =
      sumProducts ((ms.drop (i * n)).take n) us := by
    have all : ms.take (rows * n) = ms := List.take_of_length_le hm.le
    have whole : us.take n = us := List.take_of_length_le hu.le
    simp [Entries.tables, Entries.table, Entries.pieces_eq, all, whole, inside,
      ← List.map_eq_flatMap]
  rw [entry, sumProducts_eq_sum cut hu]
  refine Finset.sum_congr rfl fun j member => ?_
  have small := Finset.mem_range.mp member
  simp [List.getD_eq_getElem?_getD, small]

/-! ## Matrices -/

namespace NDArray

variable {rows columns : Nat} {m a : NDArray Exact} {ms us : List ℂ}

theorem reshape_entries {shape : List Nat} (same : volume shape = volume a.shape) :
    (a.reshape shape).entries = a.entries :=
  Entries.gather_self (by rw [a.fits, same]) fun _ _ => rfl

/-- A stack without axes is repeated to itself. -/
theorem repeatStack_nil {s : MatrixShape} (stack : s.stack = [])
    (same : volume [s.rows, s.columns] = volume a.shape) :
    (a.repeatStack [] s).entries = a.entries := by
  have shape : s.toShape = [s.rows, s.columns] := by rw [MatrixShape.toShape, stack]; rfl
  unfold repeatStack
  have own : ([] : List Nat) ++ [s.rows, s.columns] = (a.toMatrices s).shape := shape.symm
  rw [own, expandTo_self]
  exact reshape_entries (by rw [shape, same])

/-- One column is the transpose of one row. -/
theorem transposed_column {n : Nat} (length : a.entries.length = n) :
    a.entries.transposed 1 n 1 = a.entries := by
  refine Entries.gather_self (by omega) fun k inside => ?_
  have small : k < n := by omega
  simp [Nat.mod_eq_of_lt small, Nat.div_eq_of_lt small]

/-- A matrix times a column. -/
theorem matmul_eq (hm : m.isBare = false) (ha : a.isBare = false)
    (shape : m.shape = [rows, columns]) (shape' : a.shape = [columns]) :
    ∃ c, m.matmul a = .ok c ∧ c.shape = [rows] ∧
      c.entries = Entries.product 1 rows columns 1 m.entries a.entries := by
  have left : MatrixShape.left? m.shape = some ⟨[], rows, columns⟩ := by rw [shape]; rfl
  have right : MatrixShape.right? a.shape = some ⟨[], columns, 1⟩ := by rw [shape']; rfl
  have kept : keptAxis m.shape rows = [rows] := by rw [shape]; rfl
  have dropped : keptAxis a.shape 1 = [] := by rw [shape']; rfl
  have entries : (m.repeatStack [] ⟨[], rows, columns⟩).entries = m.entries :=
    repeatStack_nil rfl (by rw [shape])
  have entries' : (a.repeatStack [] ⟨[], columns, 1⟩).entries = a.entries :=
    repeatStack_nil rfl (by rw [shape']; simp [volume])
  have column : a.entries.transposed 1 columns 1 = a.entries :=
    transposed_column (by rw [a.fits, shape']; simp [volume])
  unfold matmul
  simp only [(asArray_of_firm hm).2, (asArray_of_firm ha).2, left, right, bind, Except.bind]
  simp only [broadcast_self, entries, entries', kept, dropped, ne_eq, not_true_eq_false, if_false]
  refine ⟨_, rfl, rfl, ?_⟩
  rw [reshape_entries (by simp [volume])]
  exact congrArg (Entries.product 1 rows columns 1 m.entries) column

theorem matmul_denotes (hm : m.isBare = false) (ha : a.isBare = false)
    (shape : m.shape = [rows, columns]) (shape' : a.shape = [columns])
    (denotes : m.entries.Denotes ms) (denotes' : a.entries.Denotes us) :
    ∃ c, m.matmul a = .ok c ∧ c.shape = [rows] ∧ c.kind = m.kind.join a.kind ∧
      c.entries.Denotes (Entries.tables sumProducts 1 rows columns 1 ms us) := by
  obtain ⟨c, made, shape, entries⟩ := matmul_eq hm ha shape shape'
  refine ⟨c, made, shape, ?_, ?_⟩
  · rw [kind, entries, Entries.kind_product]
    rfl
  · rw [entries]
    exact denotes.product denotes' 1 rows columns 1

/-- The numbers of the transposed matrix. -/
theorem transpose_denotes (shape : m.shape = [rows, columns]) (denotes : m.entries.Denotes ms) :
    m.transpose.kind = m.kind ∧ ∃ ns, m.transpose.entries.Denotes ns ∧
      ∀ i < rows, ∀ j < columns, ns.getD (j * rows + i) 0 = ms.getD (i * columns + j) 0 := by
  have entries : m.transpose.entries = m.entries.transposed 1 rows columns := by
    unfold transpose
    split
    · next m' n' found =>
        rw [shape] at found
        cases found
        exact reshape_entries (by simp [transposeMatrices, volume])
    · next other => exact absurd shape (other rows columns)
  refine ⟨?_, _, by rw [entries]; exact denotes.gather _ _, ?_⟩
  · rw [kind, entries]
    exact Entries.kind_gather _ _ _
  · intro i hi j hj
    have inside : j * rows + i < 1 * (columns * rows) := by
      rw [Nat.one_mul]
      calc j * rows + i < j * rows + rows := Nat.add_lt_add_left hi _
        _ = (j + 1) * rows := (Nat.succ_mul j rows).symm
        _ ≤ columns * rows := Nat.mul_le_mul_right rows hj
    have block : j * rows + i < rows * columns := by
      rw [Nat.mul_comm rows columns]
      omega
    have row : (j * rows + i) % rows = i := by
      rw [Nat.add_comm, Nat.add_mul_mod_self_right, Nat.mod_eq_of_lt hi]
    have column : (j * rows + i) / rows = j := by
      rw [Nat.add_comm, Nat.add_mul_div_right _ _ (by omega), Nat.div_eq_of_lt hi, Nat.zero_add]
    rw [getD_map_range, if_pos inside]
    simp only [Nat.div_eq_of_lt block, Nat.mod_eq_of_lt block, row, column, Nat.zero_mul,
      Nat.zero_add]

/-- A matrix and its transpose. -/
theorem matmul_transposes (solid : m.Solid) (shape : m.shape = [rows, columns]) :
    Transposes (.leaf ⟨[columns], m.kind⟩) (.leaf ⟨[rows], m.kind⟩)
      (fun x => do pure (.leaf (← m.matmul (← x.theArray))))
      (fun y => do pure (.leaf (← m.transpose.matmul (← y.theArray)))) := by
  obtain ⟨ms, denotes⟩ := solid.finite
  obtain ⟨kind, ns, denotesT, swapped⟩ := transpose_denotes shape denotes
  have shapeT := shape_transpose shape
  have solidT : m.transpose.isBare = false := by
    rw [isBare, kind]
    exact solid.notBare
  have image : ∀ {m a : NDArray Exact} {rows columns : Nat} {ms us : List ℂ},
      m.isBare = false → m.shape = [rows, columns] → m.entries.Denotes ms →
      a.Inhabits ⟨[columns], m.kind⟩ → a.entries.Denotes us →
      ∃ c, m.matmul a = .ok c ∧ c.Inhabits ⟨[rows], m.kind⟩ ∧
        c.entries.Denotes (Entries.tables sumProducts 1 rows columns 1 ms us) := by
    intro m a rows columns ms us notBare shape denotes ha denotes'
    obtain ⟨c, made, shape', kind', value⟩ :=
      matmul_denotes notBare ha.notBare shape ha.shape denotes denotes'
    have same : c.kind = m.kind := by
      rw [kind', ha.toKeeps.kind]
      exact (Kind.within_self notBare denotes.kind_ne_whole).joined
    refine ⟨c, made, ⟨⟨shape', same⟩, ?_, _, value⟩, value⟩
    rw [isBare, same]
    exact notBare
  refine .ofArrays (F := Entries.tables sumProducts 1 rows columns 1 ms)
    (G := Entries.tables sumProducts 1 columns rows 1 ns) (image solid.notBare shape denotes) ?_ ?_
  · rw [← kind]
    exact image solidT shapeT denotesT
  · intro a b us vs ha denotes' hb denotes''
    have hu : us.length = columns := by
      rw [denotes'.length_eq, a.fits, ha.shape]
      simp [volume]
    have hv : vs.length = rows := by
      rw [denotes''.length_eq, b.fits, hb.shape]
      simp [volume]
    have hm : ms.length = rows * columns := by
      rw [denotes.length_eq, m.fits, shape]
      simp [volume]
    have hn : ns.length = columns * rows := by
      rw [denotesT.length_eq, m.transpose.fits, shapeT]
      simp [volume]
    rw [sumProducts_eq_sum (by rw [Entries.length_tables]; omega) hv,
      sumProducts_eq_sum hu (by rw [Entries.length_tables]; omega)]
    calc ∑ i ∈ Finset.range rows,
          (Entries.tables sumProducts 1 rows columns 1 ms us).getD i 0 * vs.getD i 0
        = ∑ i ∈ Finset.range rows, ∑ j ∈ Finset.range columns,
            us.getD j 0 * (ns.getD (j * rows + i) 0 * vs.getD i 0) := by
          refine Finset.sum_congr rfl fun i inside => ?_
          have hi := Finset.mem_range.mp inside
          rw [getD_tables hm hu hi, Finset.sum_mul]
          refine Finset.sum_congr rfl fun j inside' => ?_
          rw [swapped i hi j (Finset.mem_range.mp inside')]
          ring
      _ = ∑ j ∈ Finset.range columns, ∑ i ∈ Finset.range rows,
            us.getD j 0 * (ns.getD (j * rows + i) 0 * vs.getD i 0) := Finset.sum_comm
      _ = ∑ j ∈ Finset.range columns, us.getD j 0 *
            (Entries.tables sumProducts 1 columns rows 1 ns vs).getD j 0 := by
          refine Finset.sum_congr rfl fun j inside => ?_
          rw [getD_tables hn hv (Finset.mem_range.mp inside), Finset.mul_sum]

end NDArray

/-! ## Bands -/

namespace Kind

/-- What a kind keeps of a number: everything, or the real part. -/
def kept (k : Kind) (z : ℂ) : ℂ := if k.isComplex then z else z.re

variable (k : Kind) (z w : ℂ)

theorem kept_add : k.kept (z + w) = k.kept z + k.kept w := by
  unfold kept
  split <;> simp

theorem kept_kept : k.kept (k.kept z) = k.kept z := by
  unfold kept
  split <;> simp

theorem kept_zero : k.kept 0 = 0 := by
  unfold kept
  split <;> simp

/-- A number that a kind keeps moves to the other side of a product. -/
theorem kept_mul {k : Kind} {z w : ℂ} (d : ℂ) (left : k.kept z = z) (right : k.kept w = w) :
    k.kept (d * z) * w = z * k.kept (d * w) := by
  cases complex : k.isComplex with
  | true =>
      simp only [kept, complex, if_true]
      ring
  | false =>
      simp only [kept, complex, Bool.false_eq_true, if_false] at left right ⊢
      rw [← left, ← right]
      simp only [Complex.re_mul_ofReal, Complex.ofReal_mul]
      ring

end Kind

namespace Entries.Denotes

variable {a : Entries Exact} {us : List ℂ}

theorem cast_kept {k : Kind} (inexact : ∀ w, k ≠ .whole w) (ha : a.Denotes us) :
    (a.cast k).Denotes (us.map k.kept) := by
  cases k with
  | whole w => exact absurd rfl (inexact w)
  | real q => exact ha.cast_real q
  | complex q =>
      have all : us.map (Kind.kept (.complex q)) = us := List.map_id us
      rw [all]
      exact ha.cast_complex q

/-- A kind that is complex where the entries are keeps them. -/
theorem map_kept {k : Kind} (ha : a.Denotes us)
    (wide : a.kind.isComplex = true → k.isComplex = true) : ∀ z ∈ us, k.kept z = z := by
  intro z inside
  unfold Kind.kept
  split
  · rfl
  · next real =>
      cases ha with
      | real p xs =>
          obtain ⟨x, _, rfl⟩ := List.mem_map.mp inside
          simp
      | complex p => exact absurd (wide rfl) real

end Entries.Denotes

namespace NDArray

variable {n : Nat} {a b : NDArray Exact} {us vs : List ℂ}

/-- Stored in a kind that is wide enough, an array keeps its numbers. -/
theorem cast_denotes {k : Kind} (inexact : ∀ w, k ≠ .whole w)
    (wide : b.kind.isComplex = true → k.isComplex = true) (denotes : b.entries.Denotes vs) :
    (b.cast k).entries.Denotes vs := by
  have cast := denotes.cast_kept inexact
  rwa [List.map_congr_left (denotes.map_kept wide), List.map_id'] at cast

/-- An array over a part of its shape, in a kind that is wide enough. -/
theorem storedIn_slot (slot : NDArray Exact) (inexact : ∀ w, slot.kind ≠ .whole w)
    (wide : b.kind.isComplex = true → slot.kind.isComplex = true) (same : b.shape = slot.shape)
    (finite : ∃ ws, slot.entries.Denotes ws) (denotes : b.entries.Denotes vs) :
    ∃ c, slot.storedIn b = .ok c ∧ c.shape = slot.shape ∧ c.kind = slot.kind ∧
      c.entries.Denotes vs := by
  unfold storedIn
  split
  · next none =>
      -- there are no numbers on either side
      obtain ⟨ws, empty⟩ := finite
      obtain rfl : ws = [] := by
        rw [← List.length_eq_zero_iff, empty.length_eq, slot.fits]
        exact none
      obtain rfl : vs = [] := by
        rw [← List.length_eq_zero_iff, denotes.length_eq, b.fits, same]
        exact none
      exact ⟨slot, rfl, rfl, rfl, empty⟩
  · have meets : b.shape.length ≤ slot.shape.length ∧
        broadcast slot.shape b.shape = some slot.shape := by
      rw [same]
      exact ⟨le_rfl, broadcast_self _⟩
    rw [if_pos meets]
    exact ⟨_, rfl, same, Entries.kind_cast _ _, cast_denotes inexact wide denotes⟩

/-- The numbers of a row with zeros around it. -/
def padded (start n : Nat) (vs : List ℂ) : List ℂ :=
  (List.range n).map fun k => if k < start then 0 else vs.getD (k - start) 0

theorem axes_row (shape : a.shape = [n]) : a.axes = (n, 1) := by
  unfold axes
  rw [shape]
  rfl

theorem pad_denotes (start count : Nat) (shape : b.shape = [n]) (denotes : b.entries.Denotes vs) :
    (b.pad start count).shape = [count] ∧ (b.pad start count).kind = b.kind ∧
      (b.pad start count).entries.Denotes (padded start count vs) := by
  have row : b.shapeWith count = [count] := by
    unfold shapeWith
    rw [shape]
    rfl
  have size : volume (b.shapeWith count) = count := by simp [row, volume]
  have numbers : (padded start count vs) = (List.range (volume (b.shapeWith count))).map
      fun k =>
        vs.getD (if k < start * b.axes.2 then b.entries.length else k - start * b.axes.2) 0 := by
    rw [size, axes_row shape, ← denotes.length_eq]
    refine List.map_congr_left fun k _ => ?_
    simp only [Nat.mul_one]
    split <;> simp
  refine ⟨row, Entries.kind_gather _ _ _, ?_⟩
  rw [numbers]
  exact denotes.gather _ _

theorem slice_denotes (start count : Nat) (shape : a.shape = [n]) (ha : a.isBare = false)
    (denotes : a.entries.Denotes us) :
    (a.slice start count).shape = [count] ∧ (a.slice start count).isBare = false ∧
      (a.slice start count).entries.Denotes
        ((List.range count).map fun k => us.getD (k + start) 0) := by
  have row : a.shapeWith count = [count] := by
    unfold shapeWith
    rw [shape]
    rfl
  have kind : (a.slice start count).kind = a.kind := Entries.kind_gather _ _ _
  have numbers : ((List.range count).map fun k => us.getD (k + start) 0) =
      (List.range (volume (a.shapeWith count))).map fun k => us.getD (k + start * a.axes.2) 0 := by
    simp [row, volume, axes_row shape]
  refine ⟨row, by rwa [isBare, kind], ?_⟩
  rw [numbers]
  exact denotes.gather _ _

/-- Two arrays of one shape meet entry by entry. -/
theorem meets_solid {f : Rule Exact} {op : ℂ → ℂ → ℂ} (means : f.Means op)
    (ha : a.isBare = false) (hb : b.isBare = false) (same : a.shape = b.shape)
    (denotes : a.entries.Denotes us) (denotes' : b.entries.Denotes vs) :
    ∃ c, zipWith f a b = .ok c ∧ c.shape = a.shape ∧ c.isBare = false ∧
      c.kind = a.kind.join b.kind ∧ c.entries.Denotes (List.zipWith op us vs) := by
  refine ⟨_, zipWith_solid f ha hb same, rfl, ?_, kind_zipSame f same,
    denotes.zipWith means denotes'⟩
  rw [isBare, kind_zipSame]
  exact Kind.isBare_join hb

/-- An array added to a part of another one, in the kind of the other one. -/
theorem addedAt_denotes (start : Nat) (ha : a.isBare = false) (hb : b.isBare = false)
    (shape : a.shape = [n + 1]) (shape' : b.shape = [n]) (denotes : a.entries.Denotes us)
    (denotes' : b.entries.Denotes vs) :
    ∃ c, a.addedAt start n b = .ok c ∧ c.shape = [n + 1] ∧ c.kind = a.kind ∧
      c.entries.Denotes
        ((List.zipWith (· + ·) us (padded start (n + 1) vs)).map a.kind.kept) := by
  have inexact : ∀ w, a.kind.join b.kind ≠ .whole w :=
    Kind.join_inexact denotes.kind_ne_whole b.kind
  have wide : b.kind.isComplex = true → (a.kind.join b.kind).isComplex = true := by
    intro complex
    rw [Kind.isComplex_join, complex, Bool.or_true]
  have slot : ((a.slice start n).cast (a.kind.join b.kind)).shape = [n] := by
    change n :: a.shape.drop 1 = [n]
    rw [shape]
    rfl
  have kind : ((a.slice start n).cast (a.kind.join b.kind)).kind = a.kind.join b.kind :=
    Entries.kind_cast _ _
  obtain ⟨c, stored, shapeC, kindC, denotesC⟩ := storedIn_slot (b := b)
    ((a.slice start n).cast (a.kind.join b.kind)) (by rwa [kind]) (by rwa [kind])
    (shape'.trans slot.symm) ⟨_, (denotes.gather _ _).cast_kept inexact⟩ denotes'
  obtain ⟨shapeP, kindP, denotesP⟩ :=
    pad_denotes start (n + 1) (shapeC.trans slot) denotesC
  have solidP : (c.pad start (n + 1)).isBare = false := by
    rw [isBare, kindP, kindC, kind]
    exact Kind.isBare_join hb
  obtain ⟨e, sum, shapeE, _, _, denotesE⟩ :=
    meets_solid Rule.means_add ha solidP (shape.trans shapeP.symm) denotes denotesP
  refine ⟨e.cast a.kind, ?_, shapeE.trans shape, Entries.kind_cast _ _,
    denotesE.cast_kept denotes.kind_ne_whole⟩
  unfold addedAt
  simp only [stored, bind, Except.bind, axes_row shape, NDArray.add, sum]
  rfl

end NDArray

/-- Three diagonals of finite numbers, for a matrix with `n + 1` rows. -/
structure Band.Denotes (n : Nat) (b : Band Exact) (ds ls us : List ℂ) : Prop where
  shape : b.diagonal.shape = [n + 1]
  lowerShape : b.lower.shape = [n]
  upperShape : b.upper.shape = [n]
  lowerNotBare : b.lower.isBare = false
  upperNotBare : b.upper.isBare = false
  diagonal : b.diagonal.entries.Denotes ds
  lower : b.lower.entries.Denotes ls
  upper : b.upper.entries.Denotes us

/-- A band of finite arrays that fit, and the band with the outer ones exchanged. -/
theorem NDArray.Solid.band {n : Nat} {d lower upper : NDArray Exact} (hd : d.Solid)
    (hl : lower.Solid) (hu : upper.Solid)
    (fits : d.shape = [n + 1] ∧ lower.shape = [n] ∧ upper.shape = [n]) :
    ∃ ds ls us, (Band.mk d lower upper).Denotes n ds ls us ∧
      (Band.mk d upper lower).Denotes n ds us ls := by
  obtain ⟨ds, denotes⟩ := hd.finite
  obtain ⟨ls, denotesL⟩ := hl.finite
  obtain ⟨us, denotesU⟩ := hu.finite
  exact ⟨ds, ls, us,
    ⟨fits.1, fits.2.1, fits.2.2, hl.notBare, hu.notBare, denotes, denotesL, denotesU⟩,
    ⟨fits.1, fits.2.2, fits.2.1, hu.notBare, hl.notBare, denotes, denotesU, denotesL⟩⟩

namespace Band

variable {n : Nat} {b b' : Band Exact} {p : Spec} {ds ls us xs ys : List ℂ}

/-- The product of a band with a row of numbers, as a kind keeps it. -/
noncomputable def image (k : Kind) (n : Nat) (ds ls us xs : List ℂ) : List ℂ :=
  let own := List.zipWith (· * ·) ds xs
  let above := List.zipWith (· * ·) us ((List.range n).map fun k => xs.getD (k + 1) 0)
  let below := List.zipWith (· * ·) ls ((List.range n).map fun k => xs.getD k 0)
  let withUpper := (List.zipWith (· + ·) own (NDArray.padded 0 (n + 1) above)).map k.kept
  (List.zipWith (· + ·) withUpper (NDArray.padded 1 (n + 1) below)).map k.kept

/-- The product of a band with an array of its structure. -/
theorem mul_denotes (hb : b.Denotes n ds ls us) (within : b.diagonal.kind.Within p.kind)
    (row : p.shape = [n + 1]) {a : NDArray Exact} (ha : a.Inhabits p)
    (denotes : a.entries.Denotes xs) :
    ∃ c, b.mul a = .ok c ∧ c.Inhabits p ∧ c.entries.Denotes (image p.kind n ds ls us xs) := by
  have shape : a.shape = [n + 1] := ha.shape.trans row
  obtain ⟨shapeU, notBareU, denotesU⟩ := NDArray.slice_denotes 1 n shape ha.notBare denotes
  obtain ⟨shapeL, notBareL, denotesL⟩ := NDArray.slice_denotes 0 n shape ha.notBare denotes
  obtain ⟨above, madeU, shapeA, notBareA, _, denotesA⟩ :=
    NDArray.meets_solid Rule.means_mul hb.upperNotBare notBareU (hb.upperShape.trans shapeU.symm)
      hb.upper denotesU
  obtain ⟨below, madeL, shapeB, notBareB, _, denotesB⟩ :=
    NDArray.meets_solid Rule.means_mul hb.lowerNotBare notBareL (hb.lowerShape.trans shapeL.symm)
      hb.lower denotesL
  obtain ⟨own, madeD, shapeD, notBareD, kindD, denotesD⟩ :=
    NDArray.meets_solid Rule.means_mul within.notBare ha.notBare (hb.shape.trans shape.symm)
      hb.diagonal denotes
  obtain ⟨c, first, shapeC, kindC, denotesC⟩ := NDArray.addedAt_denotes 0 notBareD
    notBareA (shapeD.trans hb.shape) (shapeA.trans hb.upperShape) denotesD denotesA
  obtain ⟨e, second, shapeE, kindE, denotesE⟩ := NDArray.addedAt_denotes 1 (a := c)
    (by rwa [NDArray.isBare, kindC]) notBareB shapeC (shapeB.trans hb.lowerShape) denotesC denotesB
  have kindP : own.kind = p.kind := by rw [kindD, ha.toKeeps.kind, within.joined]
  have kind : e.kind = p.kind := kindE.trans (kindC.trans kindP)
  refine ⟨e, ?_, ⟨⟨shapeE.trans row.symm, kind⟩, ?_, _, denotesE⟩, ?_⟩
  · have rest : own.axes.1 - 1 = n := by rw [NDArray.axes_row (shapeD.trans hb.shape)]; rfl
    unfold mul
    simp only [ha.notBare, shape, NDArray.mul, Nat.add_sub_cancel, madeU, madeD, madeL, rest, bind,
      Except.bind, first, second, Bool.false_eq_true, if_false]
  · rwa [NDArray.isBare, kind, ← kindP]
  · rw [kindC, kindP] at denotesE
    exact denotesE

theorem getD_padded {start k : Nat} {vs : List ℂ} (inside : k < n + 1) :
    (NDArray.padded start (n + 1) vs).getD k 0 =
      if k < start then 0 else vs.getD (k - start) 0 := by
  rw [NDArray.padded, getD_map_range, if_pos inside]

theorem length_image {k : Kind} (hd : ds.length = n + 1) (hx : xs.length = n + 1) :
    (image k n ds ls us xs).length = n + 1 := by
  simp [image, NDArray.padded, hd, hx]

/-- The number in row `i` of the product of a band with a row of numbers. -/
theorem getD_image (k : Kind) (hd : ds.length = n + 1) (hl : ls.length = n) (hu : us.length = n)
    (hx : xs.length = n + 1) {i : Nat} (inside : i < n + 1) :
    (image k n ds ls us xs).getD i 0 = k.kept (ds.getD i 0 * xs.getD i 0) +
      (if i < n then k.kept (us.getD i 0 * xs.getD (i + 1) 0) else 0) +
      (if i < 1 then 0 else k.kept (ls.getD (i - 1) 0 * xs.getD (i - 1) 0)) := by
  have getD_kept : ∀ zs : List ℂ, (zs.map k.kept).getD i 0 = k.kept (zs.getD i 0) := by
    intro zs
    by_cases within : i < zs.length <;> simp [within, k.kept_zero]
  have widths : ∀ {zs : List ℂ} (start : Nat) (vs : List ℂ), zs.length = n + 1 →
      zs.length = (NDArray.padded start (n + 1) vs).length := by
    intro zs start vs length
    rw [length, NDArray.padded, List.length_map, List.length_range]
  have own : (List.zipWith (· * ·) ds xs).length = n + 1 := by simp [hd, hx]
  have upper : ((List.zipWith (· + ·) (List.zipWith (· * ·) ds xs)
      (NDArray.padded 0 (n + 1) (List.zipWith (· * ·) us
        ((List.range n).map fun k => xs.getD (k + 1) 0)))).map k.kept).length = n + 1 := by
    simp [hd, hx, NDArray.padded]
  unfold image
  rw [getD_kept, getD_zipWith (add_zero 0) (widths _ _ upper), getD_kept,
    getD_zipWith (add_zero 0) (widths _ _ own), getD_zipWith (mul_zero 0) (hd.trans hx.symm),
    getD_padded inside, getD_padded inside, getD_zipWith (mul_zero 0) (by simp [hu]),
    getD_zipWith (mul_zero 0) (by simp [hl]), getD_map_range, getD_map_range]
  simp only [Kind.kept_add, Kind.kept_kept, Nat.not_lt_zero, if_false, Nat.sub_zero]
  congr 1
  · congr 1
    split
    · rfl
    · rw [mul_zero, k.kept_zero]
  · split
    · exact k.kept_zero
    · rw [if_pos (by omega)]

/-- The pairing of the product of a band with a row: what each diagonal adds to it. -/
theorem sumProducts_image (k : Kind) (hd : ds.length = n + 1) (hl : ls.length = n)
    (hu : us.length = n) (hx : xs.length = n + 1) (hy : ys.length = n + 1) :
    sumProducts (image k n ds ls us xs) ys =
      ∑ i ∈ Finset.range (n + 1), k.kept (ds.getD i 0 * xs.getD i 0) * ys.getD i 0 +
      ∑ i ∈ Finset.range n, k.kept (us.getD i 0 * xs.getD (i + 1) 0) * ys.getD i 0 +
      ∑ i ∈ Finset.range n, k.kept (ls.getD i 0 * xs.getD i 0) * ys.getD (i + 1) 0 := by
  have upper : ∑ i ∈ Finset.range (n + 1),
      (if i < n then k.kept (us.getD i 0 * xs.getD (i + 1) 0) else 0) * ys.getD i 0 =
        ∑ i ∈ Finset.range n, k.kept (us.getD i 0 * xs.getD (i + 1) 0) * ys.getD i 0 := by
    rw [Finset.sum_range_succ, if_neg (lt_irrefl n), zero_mul, add_zero]
    refine Finset.sum_congr rfl fun i inside => ?_
    rw [if_pos (Finset.mem_range.mp inside)]
  have lower : ∑ i ∈ Finset.range (n + 1),
      (if i < 1 then 0 else k.kept (ls.getD (i - 1) 0 * xs.getD (i - 1) 0)) * ys.getD i 0 =
        ∑ i ∈ Finset.range n, k.kept (ls.getD i 0 * xs.getD i 0) * ys.getD (i + 1) 0 := by
    rw [Finset.sum_range_succ', if_pos one_pos, zero_mul, add_zero]
    refine Finset.sum_congr rfl fun i _ => ?_
    rw [if_neg (by omega), Nat.add_sub_cancel]
  rw [sumProducts_eq_sum (length_image hd hx) hy, ← upper, ← lower, ← Finset.sum_add_distrib,
    ← Finset.sum_add_distrib]
  refine Finset.sum_congr rfl fun i inside => ?_
  rw [getD_image k hd hl hu hx (Finset.mem_range.mp inside), add_mul, add_mul]

/-- Across a product with a band, the outer diagonals change places. -/
theorem image_swaps {k : Kind} (hd : ds.length = n + 1) (hl : ls.length = n) (hu : us.length = n)
    (hx : xs.length = n + 1) (hy : ys.length = n + 1) (left : ∀ z ∈ xs, k.kept z = z)
    (right : ∀ z ∈ ys, k.kept z = z) :
    sumProducts (image k n ds ls us xs) ys = sumProducts xs (image k n ds us ls ys) := by
  have member : ∀ {zs : List ℂ}, (∀ z ∈ zs, k.kept z = z) →
      ∀ i, k.kept (zs.getD i 0) = zs.getD i 0 := by
    intro zs kept i
    by_cases inside : i < zs.length
    · simp [inside, kept]
    · simp [inside, k.kept_zero]
  have swap : ∀ (d : ℂ) (i j : Nat), k.kept (d * xs.getD i 0) * ys.getD j 0 =
      k.kept (d * ys.getD j 0) * xs.getD i 0 := by
    intro d i j
    rw [Kind.kept_mul d (member left i) (member right j), mul_comm]
  rw [sumProducts_comm xs, sumProducts_image k hd hl hu hx hy, sumProducts_image k hd hu hl hy hx,
    add_right_comm]
  simp only [swap]

/-- A band and the band with its outer diagonals exchanged. -/
theorem transposes (hb : b.Denotes n ds ls us) (hb' : b'.Denotes n ds us ls)
    (within : b.diagonal.kind.Within p.kind) (within' : b'.diagonal.kind.Within p.kind)
    (row : p.shape = [n + 1]) :
    Transposes (.leaf p) (.leaf p) (fun x => do pure (.leaf (← b.mul (← x.theArray))))
      (fun y => do pure (.leaf (← b'.mul (← y.theArray)))) := by
  have length : ∀ {a : NDArray Exact} {m : Nat} {zs : List ℂ}, a.shape = [m] →
      a.entries.Denotes zs → zs.length = m := by
    intro a m zs shape denotes
    rw [denotes.length_eq, a.fits, shape]
    simp [volume]
  have kept : ∀ {a : NDArray Exact} {zs : List ℂ}, a.Inhabits p → a.entries.Denotes zs →
      ∀ z ∈ zs, p.kind.kept z = z := by
    intro a zs ha denotes
    refine denotes.map_kept fun complex => ?_
    rw [← ha.toKeeps.kind]
    exact complex
  refine .ofArrays (mul_denotes hb within row) (mul_denotes hb' within' row) ?_
  intro a c xs ys ha denotes hc denotes'
  exact image_swaps (length hb.shape hb.diagonal) (length hb.lowerShape hb.lower)
    (length hb.upperShape hb.upper) (length (ha.shape.trans row) denotes)
    (length (hc.shape.trans row) denotes') (kept ha denotes) (kept hc denotes')

end Band

end ForwardBackward
