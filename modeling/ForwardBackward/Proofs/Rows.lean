/-
# ForwardBackward.Proofs.Rows -- vectors by the numbers they hold

A vector of real arrays of one precision *reads* as a row of numbers, its leaves in
leaf order and every leaf in row-major order (`Vec.Reads`).  In exact arithmetic the
algebra of vectors is the algebra of these rows: what a leaf contributes to a sum or
to a norm is added to what the others contribute, and a sum of sums is the sum over
the row (`Exact.sum_append`), with infinities and numbers that are none among them.

So two vectors that read as the same row, in structures that need not have more in
common than the length of it, cannot be told apart by the operations on vectors
(`Vec.alike_congruence`).
-/
import ForwardBackward.Proofs.Boxes
import ForwardBackward.Proofs.Shapes
import ForwardBackward.Proofs.Slots

namespace ForwardBackward

set_option autoImplicit false

/-! ## Sums -/

namespace Exact

protected theorem add_assoc (x y z : Exact) : x + y + z = x + (y + z) := by
  change (x.add y).add z = x.add (y.add z)
  rcases x with a | (_ | _) | _ <;> rcases y with b | (_ | _) | _ <;>
    rcases z with c | (_ | _) | _
  case real.real.real => exact congrArg real (add_assoc a b c)
  all_goals rfl

protected theorem zero_add (x : Exact) : 0 + x = x := by
  rw [zero_eq]
  cases x with
  | real a => exact congrArg real (zero_add a)
  | infinite | undefined => rfl

protected theorem add_zero (x : Exact) : x + 0 = x := by
  rw [zero_eq]
  cases x with
  | real a => exact congrArg real (add_zero a)
  | infinite | undefined => rfl

/-- The sum of numbers, from left to right. -/
noncomputable def sum (xs : List Exact) : Exact := xs.foldl (· + ·) 0

theorem foldl_add (x : Exact) (xs : List Exact) : xs.foldl (· + ·) x = x + sum xs := by
  induction xs generalizing x with
  | nil => exact (Exact.add_zero x).symm
  | cons y ys ih =>
      unfold sum
      rw [List.foldl_cons, List.foldl_cons, ih, ih (0 + y), Exact.zero_add, Exact.add_assoc]

theorem sum_append (xs ys : List Exact) : sum (xs ++ ys) = sum xs + sum ys := by
  unfold sum
  rw [List.foldl_append]
  exact foldl_add _ ys

end Exact

theorem Precision.join_self (p : Precision) : p.join p = p := by cases p <;> rfl

namespace Entries

/-- A sum of entries is a number; nothing at all is zero. -/
inductive SumsTo : Entries Exact → Exact → Prop where
  | none : SumsTo .zero 0
  | some (p : Precision) (x : Exact) : SumsTo (.real p [x]) x

namespace SumsTo

variable {e : Entries Exact} {t : Exact}

theorem add (sums : e.SumsTo t) (p : Precision) (x : Exact) :
    (zipWith .add e (.real p [x])).SumsTo (t + x) := by
  cases sums with
  | none => cases p <;> exact .some _ _
  | some q =>
      unfold zipWith
      change SumsTo (.real (q.join p) [Precision.convert q (q.join p) t +
        Precision.convert p (q.join p) x]) _
      rw [Precision.convert_exact, Precision.convert_exact]
      exact .some _ _

theorem root (sums : e.SumsTo t) : e.root = Scalar.sqrt t := by
  cases sums <;> rfl

theorem first (sums : e.SumsTo t) : e.first = t := by
  cases sums <;> rfl

end SumsTo

end Entries

/-! ## Arrays of real numbers -/

namespace NDArray

variable {p q : Precision} {a b : NDArray Exact} {us vs : List Exact}

theorem length_of_real (entries : a.entries = .real p us) : us.length = volume a.shape := by
  have fits := a.fits
  rw [entries] at fits
  exact fits

/-- A function of every entry is one of every number. -/
theorem map_real {f : Precision → Exact → Exact}
    {g : Precision → Cartesian Exact → Cartesian Exact} (entries : a.entries = .real p us) :
    (a.map f g).shape = a.shape ∧ (a.map f g).entries = .real p (us.map (f p)) := by
  refine ⟨rfl, ?_⟩
  change a.entries.mapInexact f g = _
  rw [entries]
  rfl

/-- Two arrays of one shape are combined number by number. -/
theorem zipWith_real {f : Rule Exact} {op : Exact → Exact → Exact} (computes : ∀ r, f.real r = op)
    (firmA : p ≠ .bare) (firmB : q ≠ .bare) (ha : a.entries = .real p us)
    (hb : b.entries = .real q vs) (same : a.shape = b.shape) :
    ∃ c, zipWith f a b = .ok c ∧ c.shape = a.shape ∧
      c.entries = .real (p.join q) (List.zipWith op us vs) := by
  have notBare := isBare_of_real ha firmA
  have meeting : meet a b = .ok (a, b) := by
    unfold meet
    rw [notBare, Bool.false_and, if_neg Bool.false_ne_true, (asArray_of_firm notBare).2,
      (asArray_of_firm (isBare_of_real hb firmB)).2]
    rfl
  refine ⟨zipSame f a b same, ?_, rfl, ?_⟩
  · unfold zipWith
    rw [meeting]
    change zipArrays f a b = _
    unfold zipArrays
    rw [dif_pos same]
  · change Entries.zipWith f a.entries b.entries = _
    rw [ha, hb]
    change Entries.real (p.join q) (List.zipWith (f.real (p.join q))
      ((Entries.real p us).reals (p.join q)) ((Entries.real q vs).reals (p.join q))) = _
    rw [reals_real, reals_real, computes]

theorem sub_real (firmA : p ≠ .bare) (firmB : q ≠ .bare) (ha : a.entries = .real p us)
    (hb : b.entries = .real q vs) (same : a.shape = b.shape) :
    ∃ c, a.sub b = .ok c ∧ c.shape = a.shape ∧
      c.entries = .real (p.join q) (List.zipWith (· - ·) us vs) := by
  have inexact : a.kind.join b.kind ≠ .whole .flag := by
    unfold kind
    rw [ha, hb]
    exact Kind.noConfusion
  unfold sub
  rw [if_neg inexact]
  exact zipWith_real (f := .sub) (fun _ => rfl) firmA firmB ha hb same

theorem dot_real (firmA : p ≠ .bare) (firmB : q ≠ .bare) (ha : a.entries = .real p us)
    (hb : b.entries = .real q vs) (same : a.shape = b.shape) :
    (do (← a.asArray).dot (← Vec.toArray (Tree.leaf b))) =
      .ok (.real (p.join q) [Exact.sum (List.zipWith (· * ·) us vs)]) := by
  have arrayA := (asArray_of_firm (isBare_of_real ha firmA)).2
  have arrayB := (asArray_of_firm (isBare_of_real hb firmB)).2
  have sizes : ¬ a.size ≠ b.size := by simp [size, same]
  have narrow : a.entries.narrows b.entries = false := by
    rw [ha]
    rfl
  rw [Vec.toArray_leaf, arrayA, arrayB]
  change a.dot b = _
  unfold dot
  rw [arrayA, arrayB]
  simp only [bind, Except.bind, if_neg sizes, narrow]
  change Except.ok (Entries.dot .conjMul a.entries b.entries) = _
  rw [ha, hb]
  change Except.ok (Entries.real (p.join q) [Exact.sum (List.zipWith (· * ·)
    ((Entries.real p us).reals (p.join q)) ((Entries.real q vs).reals (p.join q)))]) = _
  rw [reals_real, reals_real]

/-- An array stored over a slot of its shape. -/
theorem storedIn_real (firmB : q ≠ .bare) (ha : a.entries = .real p us)
    (hb : b.entries = .real q vs) (same : a.shape = b.shape) :
    ∃ c, (do a.storedIn (← Vec.toArray (Tree.leaf b))) = .ok c ∧ c.shape = a.shape ∧
      c.entries = .real p (List.zipWith (fun _ v => v) us vs) := by
  have count : us.length = vs.length := by
    rw [length_of_real ha, length_of_real hb, same]
  have second : List.zipWith (fun _ v => v) us vs = vs := by
    rw [← List.map_uncurry_zip_eq_zipWith]
    exact List.map_snd_zip count.ge
  rw [Vec.toArray_leaf, (asArray_of_firm (isBare_of_real hb firmB)).2, second]
  change ∃ c, a.storedIn b = .ok c ∧ _
  unfold storedIn
  by_cases vacant : a.size = 0
  · rw [if_pos vacant]
    obtain rfl : us = [] := List.length_eq_zero_iff.mp ((length_of_real ha).trans vacant)
    obtain rfl : vs = [] := List.length_eq_zero_iff.mp count.symm
    exact ⟨a, rfl, rfl, ha⟩
  · have fits : b.shape.length ≤ a.shape.length ∧ broadcast a.shape b.shape = some a.shape := by
      rw [same]
      exact ⟨le_rfl, broadcast_self _⟩
    rw [if_neg vacant, if_pos fits, if_pos same.symm]
    refine ⟨_, rfl, same.symm, ?_⟩
    change b.entries.cast a.entries.kind = _
    rw [ha, hb]
    exact congrArg _ (reals_real q p vs)

end NDArray

/-! ## Rows -/

/-- Arrays of real numbers of one precision, of the shapes of a list, and all their numbers. -/
inductive LeavesRead (p : Precision) : List Spec → List (NDArray Exact) → List Exact → Prop where
  | nil : LeavesRead p [] [] []
  | cons {q : Spec} {qs : List Spec} {a : NDArray Exact} {as : List (NDArray Exact)}
      {us xs : List Exact} : a.shape = q.shape → a.entries = .real p us → LeavesRead p qs as xs →
      LeavesRead p (q :: qs) (a :: as) (us ++ xs)

namespace LeavesRead

variable {p q r : Precision} {ps : List Spec} {as bs : List (NDArray Exact)} {xs ys : List Exact}

theorem map {f : NDArray Exact → NDArray Exact} {op : Exact → Exact}
    (each : ∀ a us, a.entries = .real p us →
      (f a).shape = a.shape ∧ (f a).entries = .real q (us.map op))
    (rows : LeavesRead p ps as xs) : LeavesRead q ps (as.map f) (xs.map op) := by
  induction rows with
  | nil => exact .nil
  | cons shape entries _ ih =>
      obtain ⟨shape', entries'⟩ := each _ _ entries
      rw [List.map_append]
      exact .cons (shape'.trans shape) entries' ih

theorem traverse {f : NDArray Exact → Except Fault (NDArray Exact)} {op : Exact → Exact}
    (each : ∀ a us, a.entries = .real p us →
      ∃ b, f a = .ok b ∧ b.shape = a.shape ∧ b.entries = .real q (us.map op))
    (rows : LeavesRead p ps as xs) :
    ∃ bs, List.Forall₂ (fun a b => f a = .ok b) as bs ∧ LeavesRead q ps bs (xs.map op) := by
  induction rows with
  | nil => exact ⟨[], .nil, .nil⟩
  | cons shape entries _ ih =>
      obtain ⟨b, made, shape', entries'⟩ := each _ _ entries
      obtain ⟨bs, rest, rows⟩ := ih
      rw [List.map_append]
      exact ⟨b :: bs, .cons made rest, .cons (shape'.trans shape) entries' rows⟩

theorem zip {f : NDArray Exact → NDArray Exact → Except Fault (NDArray Exact)}
    {op : Exact → Exact → Exact}
    (each : ∀ a b us vs, a.entries = .real p us → b.entries = .real q vs → a.shape = b.shape →
      ∃ c, f a b = .ok c ∧ c.shape = a.shape ∧ c.entries = .real r (List.zipWith op us vs))
    (left : LeavesRead p ps as xs) (right : LeavesRead q ps bs ys) :
    ∃ cs, List.Forall₂ (fun c d => f c.1 c.2 = .ok d) (as.zip bs) cs ∧
      LeavesRead r ps cs (List.zipWith op xs ys) := by
  induction left generalizing bs ys with
  | nil =>
      cases right
      exact ⟨[], .nil, .nil⟩
  | @cons s _ a _ us _ shape entries _ ih =>
      cases right with
      | @cons _ _ b _ vs _ shape' entries' right =>
          have same : a.shape = b.shape := shape.trans shape'.symm
          obtain ⟨c, made, shape'', entries''⟩ := each a b us vs entries entries' same
          obtain ⟨cs, rest, rows⟩ := ih right
          have count : us.length = vs.length := by
            rw [NDArray.length_of_real entries, NDArray.length_of_real entries', same]
          rw [List.zipWith_append count]
          exact ⟨c :: cs, .cons made rest, .cons (shape''.trans shape) entries'' rows⟩

/-- What the leaves contribute to a total, the row contributes.  The limit is one that no leaf is
longer than. -/
theorem total {P : Entries Exact → Exact → Prop} {f : NDArray Exact → Entries Exact}
    {op : Exact → Exact} {limit : Nat}
    (each : ∀ a us e t, us.length ≤ limit → a.entries = .real p us → P e t →
      P (Entries.zipWith .add e (f a)) (t + Exact.sum (us.map op)))
    (rows : LeavesRead p ps as xs) (short : xs.length ≤ limit) {start : Entries Exact} {t : Exact}
    (first : P start t) : P (Entries.total start (as.map f)) (t + Exact.sum (xs.map op)) := by
  induction rows generalizing start t with
  | nil =>
      change P start (t + 0)
      rw [Exact.add_zero]
      exact first
  | cons _ entries _ ih =>
      rw [List.length_append] at short
      rw [List.map_append, Exact.sum_append, ← Exact.add_assoc]
      exact ih (by omega) (each _ _ _ _ (by omega) entries first)

theorem dot (firmA : p ≠ .bare) (firmB : q ≠ .bare) (left : LeavesRead p ps as xs)
    (right : LeavesRead q ps bs ys) :
    ∃ es, List.Forall₂ (fun c e => (do (← c.1.asArray).dot (← Vec.toArray (Tree.leaf c.2))) =
        .ok e) (as.zip bs) es ∧
      ∀ start t, start.SumsTo t →
        (Entries.total start es).SumsTo (t + Exact.sum (List.zipWith (· * ·) xs ys)) := by
  induction left generalizing bs ys with
  | nil =>
      cases right
      exact ⟨[], .nil, fun start t first => (Exact.add_zero t).symm ▸ first⟩
  | @cons s _ a _ us _ shape entries _ ih =>
      cases right with
      | @cons _ _ b _ vs _ shape' entries' right =>
          have same : a.shape = b.shape := shape.trans shape'.symm
          obtain ⟨es, rest, sums⟩ := ih right
          refine ⟨_ :: es, .cons (NDArray.dot_real firmA firmB entries entries' same) rest,
            fun start t first => ?_⟩
          have count : us.length = vs.length := by
            rw [NDArray.length_of_real entries, NDArray.length_of_real entries', same]
          rw [List.zipWith_append count, Exact.sum_append, ← Exact.add_assoc]
          exact sums _ _ (first.add _ _)

theorem length_eq (rows : LeavesRead p ps as xs) :
    as.foldr (fun a n => a.size + n) 0 = xs.length := by
  induction rows with
  | nil => rfl
  | cons _ entries _ ih =>
      rw [List.foldr_cons, ih, List.length_append, NDArray.length_of_real entries]
      rfl

theorem real (rows : LeavesRead p ps as xs) : ∀ a ∈ as, ∃ us, a.entries = .real p us := by
  induction rows with
  | nil => simp
  | cons _ entries _ ih => exact List.forall_mem_cons.mpr ⟨⟨_, entries⟩, ih⟩

theorem firm (notBare : p ≠ .bare) (rows : LeavesRead p ps as xs) : ∀ a ∈ as, a.isBare = false := by
  intro a inside
  obtain ⟨us, entries⟩ := rows.real a inside
  exact NDArray.isBare_of_real entries notBare

theorem occupied (rows : LeavesRead p ps as xs) (some : ps ≠ []) : as ≠ [] := by
  cases rows with
  | nil => exact absurd rfl some
  | cons => exact List.cons_ne_nil _ _

theorem allFinite (rows : LeavesRead p ps as xs) :
    as.all NDArray.allFinite = xs.all Scalar.isFinite := by
  induction rows with
  | nil => rfl
  | cons _ entries _ ih =>
      rw [List.all_cons, List.all_append, ih, NDArray.allFinite, entries]
      rfl

theorem isFinite (notBare : p ≠ .bare) (rows : LeavesRead p ps as xs) :
    Vec.finiteLeaves as = .ok (xs.all Scalar.isFinite) := by
  induction rows with
  | nil => rfl
  | @cons _ _ a _ us xs _ entries _ ih =>
      have finite : a.allFinite = us.all Scalar.isFinite := by
        rw [NDArray.allFinite, entries]
        rfl
      unfold Vec.finiteLeaves
      rw [(NDArray.asArray_of_firm (NDArray.isBare_of_real entries notBare)).2, List.all_append]
      simp only [bind, Except.bind, finite]
      cases us.all Scalar.isFinite with
      | true => exact ih
      | false => rfl

/-- Several arrays, or one, in one row. -/
theorem concat (rows : LeavesRead p ps as xs) (occupied : ps ≠ []) :
    (NDArray.concat as).shape = [xs.length] ∧ (NDArray.concat as).entries = .real p xs := by
  induction rows with
  | nil => exact absurd rfl occupied
  | @cons _ _ a as us xs _ entries rest ih =>
      have count := NDArray.length_of_real entries
      cases rest with
      | nil =>
          rw [List.append_nil]
          exact ⟨congrArg (fun n => [n]) count.symm, entries⟩
      | @cons _ _ b bs vs ys shape' entries' rest' =>
          obtain ⟨shape, joined⟩ := ih (List.cons_ne_nil _ _)
          have size : (NDArray.concat (b :: bs)).size = (vs ++ ys).length := by
            unfold NDArray.size
            rw [shape]
            exact Nat.mul_one _
          refine ⟨?_, ?_⟩
          · change [a.size + (NDArray.concat (b :: bs)).size] = _
            have total : (us ++ (vs ++ ys)).length = us.length + (vs ++ ys).length :=
              List.length_append
            rw [size, total, count]
            rfl
          · change a.entries.append (NDArray.concat (b :: bs)).entries = _
            rw [entries, joined]
            change Entries.real (p.join p) ((Entries.real p us).reals (p.join p) ++
              (Entries.real p (vs ++ ys)).reals (p.join p)) = _
            rw [NDArray.reals_real, NDArray.reals_real, Precision.join_self]

end LeavesRead

/-! ## Vectors -/

theorem Precision.join_firm {p q : Precision} (left : p ≠ .bare) (right : q ≠ .bare) :
    p.join q ≠ .bare := by
  cases p <;> cases q <;> first | exact Precision.noConfusion | contradiction

namespace Tree

/-- What is refused for every leaf is refused. -/
theorem traverse_refused {α β : Type} {f : α → Except Fault β} {t : Tree α} {e : Fault}
    (occupied : t.leaves ≠ []) (each : ∀ a ∈ t.leaves, f a = .error e) :
    t.traverse f = .error e := by
  have refused : ∀ {xs : List α}, xs ≠ [] → (∀ a ∈ xs, f a = .error e) →
      traverseList f xs = .error e := by
    intro xs occupied each
    obtain ⟨a, as, rfl⟩ := List.exists_cons_of_ne_nil occupied
    rw [traverseList, each a List.mem_cons_self]
    rfl
  unfold traverse
  rw [refused occupied each]
  rfl

end Tree

namespace Vec

/-- A vector of a structure that holds real numbers of one precision, and these numbers. -/
structure Reads (S : Structure) (p : Precision) (xs : List Exact) (x : Vec Exact) : Prop where
  skeleton : x.skeleton = S.skeleton
  rows : LeavesRead p S.leaves x.leaves xs

namespace Reads

variable {S : Structure} {p q r : Precision} {xs ys : List Exact} {x y : Vec Exact}

theorem map {f : NDArray Exact → NDArray Exact} {op : Exact → Exact}
    (each : ∀ a us, a.entries = .real p us →
      (f a).shape = a.shape ∧ (f a).entries = .real q (us.map op))
    (hx : x.Reads S p xs) : Reads S q (xs.map op) (x.map f) :=
  ⟨hx.skeleton, hx.rows.map each⟩

theorem traverse {f : NDArray Exact → Except Fault (NDArray Exact)} {op : Exact → Exact}
    (each : ∀ a us, a.entries = .real p us →
      ∃ b, f a = .ok b ∧ b.shape = a.shape ∧ b.entries = .real q (us.map op))
    (hx : x.Reads S p xs) :
    ∃ z : Vec Exact, Tree.traverse f x = .ok z ∧ z.Reads S q (xs.map op) := by
  obtain ⟨bs, made, rows⟩ := hx.rows.traverse each
  obtain ⟨fits, traversed⟩ := Tree.traverse_of_forall made
  exact ⟨_, traversed, hx.skeleton, rows⟩

theorem parts {f : NDArray Exact → Vec Exact → Except Fault (NDArray Exact)}
    {op : Exact → Exact → Exact}
    (each : ∀ a b us vs, a.entries = .real p us → b.entries = .real q vs → a.shape = b.shape →
      ∃ c, f a (Tree.leaf b) = .ok c ∧ c.shape = a.shape ∧
        c.entries = .real r (List.zipWith op us vs))
    (hx : x.Reads S p xs) (hy : y.Reads S q ys) :
    ∃ z : Vec Exact, Tree.combineParts f x y = .ok z ∧ z.Reads S r (List.zipWith op xs ys) := by
  obtain ⟨cs, made, rows⟩ := hx.rows.zip each hy.rows
  obtain ⟨fits, combined⟩ :=
    Tree.combineParts_same (hx.skeleton.trans hy.skeleton.symm) made
  exact ⟨_, combined, hx.skeleton, rows⟩

theorem zip {f : NDArray Exact → NDArray Exact → Except Fault (NDArray Exact)}
    {op : Exact → Exact → Exact}
    (each : ∀ a b us vs, a.entries = .real p us → b.entries = .real q vs → a.shape = b.shape →
      ∃ c, f a b = .ok c ∧ c.shape = a.shape ∧ c.entries = .real r (List.zipWith op us vs))
    (hx : x.Reads S p xs) (hy : y.Reads S q ys) :
    ∃ z : Vec Exact, Tree.combine f x y = .ok z ∧ z.Reads S r (List.zipWith op xs ys) :=
  hx.parts each hy

theorem scale (c : Exact) (hx : x.Reads S p xs) :
    Reads S p (xs.map fun u => p.mul (p.ofNumber c) u) (x.scale c) :=
  hx.map fun _ _ => NDArray.map_real

theorem shift (c : Exact) (hx : x.Reads S p xs) :
    Reads S p (xs.map fun u => p.add u (p.ofNumber c)) (x.shift c) :=
  hx.map fun _ _ => NDArray.map_real

theorem add (firmX : p ≠ .bare) (firmY : q ≠ .bare) (hx : x.Reads S p xs) (hy : y.Reads S q ys) :
    ∃ z, x.add y = .ok z ∧ Reads S (p.join q) (List.zipWith (· + ·) xs ys) z :=
  hx.zip (fun _ _ _ _ => NDArray.zipWith_real (f := .add) (fun _ => rfl) firmX firmY) hy

theorem sub (firmX : p ≠ .bare) (firmY : q ≠ .bare) (hx : x.Reads S p xs) (hy : y.Reads S q ys) :
    ∃ z, x.sub y = .ok z ∧ Reads S (p.join q) (List.zipWith (· - ·) xs ys) z :=
  hx.zip (fun _ _ _ _ => NDArray.sub_real firmX firmY) hy

theorem fill {slot : Vec Exact} (firm : q ≠ .bare) (hslot : slot.Reads S p xs)
    (hx : x.Reads S q ys) :
    ∃ z, History.fill slot x = .ok z ∧ Reads S p (List.zipWith (fun _ v => v) xs ys) z :=
  hslot.parts (fun _ _ _ _ => NDArray.storedIn_real firm) hx

theorem asArrays (firm : p ≠ .bare) (hx : x.Reads S p xs) : x.asArrays = .ok x :=
  Vec.asArrays_of_solid (hx.rows.firm firm)

theorem norm (firm : p ≠ .bare) (hx : x.Reads S p xs) :
    x.norm = Scalar.sqrt (0 + Exact.sum (xs.map fun u => u * u)) := by
  refine Entries.SumsTo.root (hx.rows.total (P := Entries.SumsTo)
    (fun a us e t _ entries sums => ?_) le_rfl .none)
  rw [(NDArray.asArray_of_firm (NDArray.isBare_of_real entries firm)).1, entries]
  exact sums.add _ _

theorem inner (firmX : p ≠ .bare) (firmY : q ≠ .bare) (hx : x.Reads S p xs)
    (hy : y.Reads S q ys) :
    x.inner y = .ok (0 + Exact.sum (List.zipWith (· * ·) xs ys)) := by
  obtain ⟨es, made, sums⟩ := hx.rows.dot firmX firmY hy.rows
  obtain ⟨fits, combined⟩ := Tree.combineParts_same
    (f := fun a u => do (← a.asArray).dot (← toArray u)) (hx.skeleton.trans hy.skeleton.symm) made
  unfold Vec.inner
  rw [combined]
  exact congrArg Except.ok (sums .zero 0 .none).first

theorem size (firm : p ≠ .bare) (hx : x.Reads S p xs) : x.size = .ok xs.length := by
  have arrays : x.traverse (NDArray.requireArray "size") = .ok x := by
    refine Tree.traverse_self fun a inside => ?_
    unfold NDArray.requireArray
    rw [NDArray.bare?_of_firm (hx.rows.firm firm a inside)]
  unfold Vec.size
  rw [arrays]
  exact congrArg Except.ok hx.rows.length_eq

theorem machineEps (firm : p ≠ .bare) (occupied : S.leaves ≠ []) (hx : x.Reads S p xs) :
    x.machineEps = .ok p.eps := by
  obtain ⟨_, rows⟩ := hx
  unfold Vec.machineEps
  generalize x.leaves = as at rows
  generalize S.leaves = ps at rows occupied
  cases rows with
  | nil => exact absurd rfl occupied
  | cons _ entries _ =>
      have array := NDArray.bare?_of_firm (NDArray.isBare_of_real entries firm)
      simp only [NDArray.requireArray, array, bind, Except.bind, NDArray.kind, entries,
        Entries.kind]
      rfl

theorem allFinite (hx : x.Reads S p xs) : x.allFinite = xs.all Scalar.isFinite :=
  hx.rows.allFinite

theorem isFinite (firm : p ≠ .bare) (hx : x.Reads S p xs) :
    x.isFinite = .ok (xs.all Scalar.isFinite) :=
  hx.rows.isFinite firm

theorem zeros (hx : x.Reads S p xs) :
    Reads S p.firm (xs.map fun _ => 0) (Vec.zeros x.spec) := by
  have rows : LeavesRead p.firm S.leaves (x.leaves.map (NDArray.zeros ∘ NDArray.spec))
      (xs.map fun _ => 0) := by
    refine hx.rows.map fun a us entries => ⟨rfl, ?_⟩
    change Entries.zeros (volume a.shape) a.entries.kind.firm = _
    rw [entries, List.map_const', NDArray.length_of_real entries]
    rfl
  rw [← List.map_map] at rows
  exact ⟨hx.skeleton, rows⟩

end Reads

/-- Vectors of two structures that read as the same row. -/
def Alike (S S' : Structure) (x x' : Vec Exact) : Prop :=
  ∃ p xs, p ≠ .bare ∧ x.Reads S p xs ∧ x'.Reads S' p xs

theorem alike_additive (S S' : Structure) : Additive (Alike S S') where
  scale := by
    rintro x x' c ⟨p, xs, firm, hx, hx'⟩
    exact ⟨p, _, firm, hx.scale c, hx'.scale c⟩
  add := by
    rintro x x' y y' ⟨p, xs, firmX, hx, hx'⟩ ⟨q, ys, firmY, hy, hy'⟩
    obtain ⟨z, sum, hz⟩ := hx.add firmX firmY hy
    obtain ⟨z', sum', hz'⟩ := hx'.add firmX firmY hy'
    rw [sum, sum']
    exact .ok ⟨_, _, Precision.join_firm firmX firmY, hz, hz'⟩
  asArrays := by
    rintro x x' ⟨p, xs, firm, hx, hx'⟩
    rw [hx.asArrays firm, hx'.asArrays firm]
    exact .ok ⟨p, xs, firm, hx, hx'⟩
  norm := by
    rintro x x' ⟨p, xs, firm, hx, hx'⟩
    rw [hx.norm firm, hx'.norm firm]

/-- No operation on vectors tells apart what reads as the same row. -/
theorem alike_congruence {S S' : Structure} (occupied : S.leaves ≠ [])
    (occupied' : S'.leaves ≠ []) : Congruence (Alike S S') where
  toAdditive := alike_additive S S'
  shift := by
    rintro x x' c ⟨p, xs, firm, hx, hx'⟩
    exact ⟨p, _, firm, hx.shift c, hx'.shift c⟩
  sub := by
    rintro x x' y y' ⟨p, xs, firmX, hx, hx'⟩ ⟨q, ys, firmY, hy, hy'⟩
    obtain ⟨z, difference, hz⟩ := hx.sub firmX firmY hy
    obtain ⟨z', difference', hz'⟩ := hx'.sub firmX firmY hy'
    rw [difference, difference']
    exact .ok ⟨_, _, Precision.join_firm firmX firmY, hz, hz'⟩
  inner := by
    rintro x x' y y' ⟨p, xs, firmX, hx, hx'⟩ ⟨q, ys, firmY, hy, hy'⟩
    rw [hx.inner firmX firmY hy, hx'.inner firmX firmY hy']
  size := by
    rintro x x' ⟨p, xs, firm, hx, hx'⟩
    rw [hx.size firm, hx'.size firm]
  machineEps := by
    rintro x x' ⟨p, xs, firm, hx, hx'⟩
    rw [hx.machineEps firm occupied, hx'.machineEps firm occupied']
  allFinite := by
    rintro x x' ⟨p, xs, _, hx, hx'⟩
    rw [hx.allFinite, hx'.allFinite]
  isFinite := by
    rintro x x' ⟨p, xs, firm, hx, hx'⟩
    rw [hx.isFinite firm, hx'.isFinite firm]
  zeros := by
    rintro x x' ⟨p, xs, firm, hx, hx'⟩
    exact ⟨p.firm, _, by cases p <;> exact Precision.noConfusion, hx.zeros, hx'.zeros⟩
  fill := by
    rintro slot slot' x x' ⟨p, xs, firm, hslot, hslot'⟩ ⟨q, ys, firmY, hx, hx'⟩
    obtain ⟨z, filled, hz⟩ := hslot.fill firmY hx
    obtain ⟨z', filled', hz'⟩ := hslot'.fill firmY hx'
    rw [filled, filled']
    exact .ok ⟨p, _, firm, hz, hz'⟩

end Vec

end ForwardBackward
