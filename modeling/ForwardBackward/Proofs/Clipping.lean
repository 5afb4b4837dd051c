/-
# ForwardBackward.Proofs.Clipping -- what a step reports, and what is there

A step of the catalogue answers a point and a value, and the value is that of the
regularizer at the point, for every arithmetic and whatever stands in the vector -- but not
for the box, which reports zero and does not look.

What there is to see is told by `NDArray.isInside_clip_iff`.  An entry that was moved to the
nearest bound lies between the bounds if and only if they are in order there and the entry
is a number.  That is for the entries as they are repeated along the bounds, and for bounds
that are met in one precision: `prox_reports` is the statement about the step.  Bounds in
the wrong order are accepted like others, and bounds of a larger shape repeat the leaf
(`inverted_box_misreports`).
-/
import ForwardBackward.Proofs.Catalogue

namespace ForwardBackward

set_option autoImplicit false

variable {R : Type} [Scalar R]

/-- Where two kinds met in fractions, the first one changes nothing any more. -/
theorem Kind.join_join {k l : Kind} {q : Precision} (joined : k.join l = .real q)
    (firm : q ≠ .bare) : k.join (.real q) = .real q := by
  cases k with
  | whole w => simp [join, firm]
  | real p =>
      cases l with
      | whole w => cases p <;> cases joined <;> rfl
      | real r => cases p <;> cases r <;> cases joined <;> rfl
      | complex r => cases joined
  | complex p => cases l <;> cases joined

/-! ## Lists of numbers -/

/-- A number between two bounds, as a precision compares them. -/
def Precision.Within (q : Precision) (b : R × R) (x : R) : Prop :=
  q.le b.1 x = true ∧ q.le x b.2 = true

/-- A number, and two bounds in order. -/
def Precision.Admits (q : Precision) (b : R × R) (x : R) : Prop :=
  q.le b.1 b.2 = true ∧ q.eq x x = true

theorem Precision.within_clamp_list [Comparing R] (q : Precision) {lows ups xs : List R}
    (count : lows.length = xs.length) (count' : ups.length = xs.length) :
    List.Forall₂ q.Within (lows.zip ups)
        (List.zipWith q.min ups (List.zipWith q.max lows xs)) ↔
      List.Forall₂ q.Admits (lows.zip ups) xs := by
  induction xs generalizing lows ups with
  | nil =>
      obtain rfl := List.length_eq_zero_iff.mp count
      simp
  | cons x xs ih =>
      obtain ⟨lower, lows, rfl⟩ := List.exists_cons_of_length_eq_add_one count
      obtain ⟨upper, ups, rfl⟩ := List.exists_cons_of_length_eq_add_one count'
      simp only [List.zip_cons_cons, List.zipWith_cons_cons, List.forall₂_cons]
      rw [ih (Nat.succ.inj count) (Nat.succ.inj count')]
      exact and_congr_left fun _ => q.between_clamp_iff lower upper x

/-! ## One array -/

namespace NDArray

variable {a c m lower upper : NDArray R} {q : Precision} {inside : Bool}

/-- An array of the shape that two bounds and an array are repeated to. -/
def Spreads (lower upper a c : NDArray R) : Prop :=
  ∃ t, broadcast lower.shape a.shape = some t ∧ broadcast upper.shape t = some c.shape

namespace Spreads

variable (spreads : Spreads lower upper a c)

include spreads

theorem lower_fits : broadcast lower.shape c.shape = some c.shape := by
  obtain ⟨t, first, second⟩ := spreads
  exact broadcast_trans (broadcast_left first) (broadcast_right second)

theorem upper_fits : broadcast upper.shape c.shape = some c.shape := by
  obtain ⟨t, _, second⟩ := spreads
  exact broadcast_left second

/-- The shape is that of the array if and only if the bounds fit into it. -/
theorem shape_eq_iff : c.shape = a.shape ↔
    broadcast lower.shape a.shape = some a.shape ∧
      broadcast upper.shape a.shape = some a.shape := by
  constructor
  · intro same
    exact ⟨same ▸ spreads.lower_fits, same ▸ spreads.upper_fits⟩
  · rintro ⟨below, above⟩
    obtain ⟨t, first, second⟩ := spreads
    obtain rfl : a.shape = t := Option.some.inj (below.symm.trans first)
    exact Option.some.inj (second.symm.trans above)

end Spreads

/-- What is done to an array that is moved between bounds. -/
theorem clip_spreads (clipped : a.clip lower upper = .ok c) :
    Spreads lower upper a c ∧ c.isBare = false ∧ lower.asArray = .ok lower.enter ∧
      upper.asArray = .ok upper.enter ∧
      ∃ m, zipWith .max lower a.enter = .ok m ∧ zipWith .min upper m = .ok c := by
  obtain ⟨e, m, array, _, raised, lowered⟩ := clip_accepts clipped
  obtain rfl := asArray_accepts array
  obtain ⟨arrayL, common, _⟩ := zipWith_meets isBare_enter raised
  have firm := isBare_zipWith isBare_enter raised
  obtain ⟨arrayU, common', _⟩ := zipWith_meets firm lowered
  exact ⟨⟨m.shape, common, common'⟩, isBare_zipWith firm lowered, arrayL, arrayU, m, raised,
    lowered⟩

/-- Two bounds that fit around an array are compared with it. -/
theorem isInside_answers (spreads : Spreads lower upper a c) (firm : c.isBare = false)
    (arrayL : lower.asArray = .ok lower.enter) (arrayU : upper.asArray = .ok upper.enter) :
    c.isInside lower upper = .ok (Entries.zipWith .mul
      ((lower.enter.expandTo c.shape).entries.compare .le c.entries)
      (c.entries.compare .le (upper.enter.expandTo c.shape).entries)).allTrue := by
  obtain ⟨⟨low, compared, shapeL, entriesL⟩, _⟩ :=
    le_expands ⟨_, arrayL⟩ spreads.lower_fits firm
  obtain ⟨_, up, compared', shapeU, entriesU⟩ := le_expands ⟨_, arrayU⟩ spreads.upper_fits firm
  obtain ⟨xs, flags⟩ := (lower.enter.expandTo c.shape).entries.compare_flags .le c.entries
  obtain ⟨ys, flags'⟩ := c.entries.compare_flags .le (upper.enter.expandTo c.shape).entries
  obtain ⟨both, product, entries⟩ := mul_flags (entriesL.trans flags) (entriesU.trans flags')
    (shapeL.trans shapeU.symm)
  unfold isInside
  rw [compared, compared']
  simp only [bind, Except.bind, product]
  rw [flags, flags', ← entries]
  rfl

/-- In fractions of one precision, entry by entry. -/
theorem isInside_iff (spreads : Spreads lower upper a c) (firm : c.isBare = false)
    (arrayL : lower.asArray = .ok lower.enter) (arrayU : upper.asArray = .ok upper.enter)
    (kind : c.kind = .real q) (low : lower.enter.kind.join (.real q) = .real q)
    (up : upper.enter.kind.join (.real q) = .real q) :
    c.isInside lower upper = .ok true ↔
      List.Forall₂ q.Within ((lower.readAs q c.shape).zip (upper.readAs q c.shape))
        (c.entries.reals q) := by
  have kindL : (lower.enter.expandTo c.shape).entries.kind = lower.enter.kind :=
    Entries.kind_gather _ _ _
  have kindU : (upper.enter.expandTo c.shape).entries.kind = upper.enter.kind :=
    Entries.kind_gather _ _ _
  have kindC : c.entries.kind = .real q := kind
  have lows : (lower.enter.expandTo c.shape).entries.compare .le c.entries =
      .whole .flag (List.zipWith (fun l z => Entries.flag (q.le l z)) (lower.readAs q c.shape)
        (c.entries.reals q)) := by
    unfold Entries.compare
    rw [kindL, kindC, low]
    rfl
  have ups : c.entries.compare .le (upper.enter.expandTo c.shape).entries =
      .whole .flag (List.zipWith (fun z u => Entries.flag (q.le z u)) (c.entries.reals q)
        (upper.readAs q c.shape)) := by
    unfold Entries.compare
    rw [kindU, kindC, Kind.join_comm, up]
    rfl
  have count : (c.entries.reals q).length = volume c.shape := by
    rw [Entries.length_reals, c.fits]
  rw [isInside_answers spreads firm arrayL arrayU, lows, ups, Except.ok.injEq]
  exact Entries.allTrue_mul (t := q.le) (s := q.le)
    ((length_readAs q c.shape lower).trans count.symm)
    ((length_readAs q c.shape upper).trans count.symm)

/-- Both bounds are met in one precision, that of the result. -/
def InOnePrecision (lower a c : NDArray R) : Prop :=
  ∃ q, lower.enter.kind.join a.enter.kind = .real q ∧ c.kind = .real q

/-- The bounds are in order at every entry of the result, and every entry that is moved is a
number. -/
def InOrder (lower upper a c : NDArray R) : Prop :=
  ∀ q, c.kind = .real q →
    List.Forall₂ q.Admits ((lower.readAs q c.shape).zip (upper.readAs q c.shape))
      (a.readAs q c.shape)

/-- What was moved between bounds in one precision lies between them if and only if the bounds
are in order and all entries are numbers. -/
theorem isInside_clip_iff [Comparing R] (clipped : a.clip lower upper = .ok c)
    (precision : InOnePrecision lower a c) :
    c.isInside lower upper = .ok true ↔ InOrder lower upper a c := by
  obtain ⟨spreads, notBare, arrayL, arrayU, m, raised, lowered⟩ := clip_spreads clipped
  obtain ⟨q, joined, kind⟩ := precision
  have firm : q ≠ .bare := by
    rintro rfl
    rw [isBare, kind] at notBare
    cases notBare
  have notBareM := isBare_zipWith isBare_enter raised
  have kindM : m.kind = .real q := (kind_of_zipWith isBare_enter raised).trans joined
  have up : upper.enter.kind.join m.kind = .real q :=
    (kind_of_zipWith notBareM lowered).symm.trans kind
  -- the bounds fit around the array in two steps, and may be repeated in one
  have common := (zipWith_meets isBare_enter raised).2.1
  have common' := (zipWith_meets notBareM lowered).2.1
  have entriesM := zipWith_reads isBare_enter joined raised
  have moved := readAs_zip notBareM entriesM (broadcast_left common) (broadcast_right common)
    (broadcast_right common')
  have entries := zipWith_reads notBareM up lowered
  rw [moved, readAs_enter] at entries
  rw [kindM] at up
  rw [isInside_iff spreads notBare arrayL arrayU kind (Kind.join_join joined firm) up, entries,
    Entries.reals_self]
  have clamped := q.within_clamp_list
    ((length_readAs q c.shape lower).trans (length_readAs q c.shape a).symm)
    ((length_readAs q c.shape upper).trans (length_readAs q c.shape a).symm)
  refine clamped.trans ⟨fun admits r kind' => ?_, fun ordered => ordered q kind⟩
  obtain rfl := Kind.real.inj (kind.symm.trans kind')
  exact admits

end NDArray

/-! ## Regularizers -/

namespace Regularizer

variable {g : Regularizer R} {v p : Vec R} {gamma G : R} {lower upper : NDArray R}

/-- The value of a box at arrays that were moved between its bounds. -/
theorem value_of_clip [Comparing R]
    (clipped : List.Forall₂ (fun a c => a.clip lower upper = .ok c) v.leaves p.leaves) :
    ∃ inside, (box lower upper).value p = .ok (if inside then 0 else Scalar.infinity) ∧
      (List.Forall₂ (NDArray.InOnePrecision lower) v.leaves p.leaves →
        (inside = true ↔ List.Forall₂ (NDArray.InOrder lower upper) v.leaves p.leaves)) := by
  have answers : ∀ c ∈ p.leaves, ∃ inside, c.isInside lower upper = .ok inside := by
    intro c member
    obtain ⟨a, _, made⟩ := exists_of_mem_right clipped member
    obtain ⟨spreads, firm, arrayL, arrayU, _⟩ := NDArray.clip_spreads made
    exact ⟨_, NDArray.isInside_answers spreads firm arrayL arrayU⟩
  obtain ⟨inside, decided⟩ := insideAll_answers answers
  refine ⟨inside, value_box decided, fun precision => ?_⟩
  have all : inside = true ↔ ∀ c ∈ p.leaves, c.isInside lower upper = .ok true := by
    rw [← insideAll_iff, decided, Except.ok.injEq]
  rw [all]
  exact forall_mem_right_iff (clipped.mp (fun _ _ => And.intro) precision)
    fun a c made => NDArray.isInside_clip_iff made.1 made.2

/-- A step of the catalogue, whatever it is asked for, keeps the tree.  All but the box keep the
shapes of the leaves and report the value at the point.

The box reports zero.  It repeats every leaf to the shape that the leaf has with the bounds,
which is its own if and only if the bounds fit into it, and its value at the point is zero or
infinite.  Where both bounds are met in one precision, it is zero if and only if the bounds are
in order at every entry and every entry that was moved is a number. -/
theorem prox_reports [Comparing R] (stepped : g.prox v gamma = .ok (p, G)) :
    p.skeleton = v.skeleton ∧
      ((∀ lower upper, g ≠ .box lower upper) →
        List.Forall₂ (fun a c => c.shape = a.shape) v.leaves p.leaves ∧ g.value p = .ok G) ∧
      ∀ lower upper, g = .box lower upper →
        G = 0 ∧
        List.Forall₂ (fun a c => NDArray.Spreads lower upper a c ∧
          (c.shape = a.shape ↔ broadcast lower.shape a.shape = some a.shape ∧
            broadcast upper.shape a.shape = some a.shape)) v.leaves p.leaves ∧
        ∃ inside, g.value p = .ok (if inside then 0 else Scalar.infinity) ∧
          (List.Forall₂ (NDArray.InOnePrecision lower) v.leaves p.leaves →
            (inside = true ↔ List.Forall₂ (NDArray.InOrder lower upper) v.leaves p.leaves)) := by
  obtain ⟨pointed, reported⟩ := prox_accepts stepped
  have own : v.Shaped v.spec := by
    refine ⟨rfl, ?_⟩
    simp only [Vec.spec, Tree.map, List.forall₂_map_left_iff, List.forall₂_same]
    exact fun _ _ => rfl
  have shapes : ∀ {p : Vec R}, p.Shaped v.spec →
      List.Forall₂ (fun a c => c.shape = a.shape) v.leaves p.leaves := by
    intro p shaped
    have leaves := shaped.leaves
    simp only [Vec.spec, Tree.map, List.forall₂_map_left_iff] at leaves
    exact leaves
  cases g with
  | zero | l1 weight | l0 weight | l2 weight =>
      have shaped := point_shaped_of_plain (fun _ _ same => by cases same) own pointed
      exact ⟨shaped.skeleton, fun _ => ⟨shapes shaped, reported⟩, fun _ _ same => by cases same⟩
  | box lower upper =>
      obtain ⟨skeleton, clipped⟩ := Tree.forall_of_traverse pointed
      refine ⟨skeleton, fun plain => absurd rfl (plain lower upper), ?_⟩
      rintro _ _ ⟨⟩
      refine ⟨reported, clipped.imp fun a c made => ?_, value_of_clip clipped⟩
      have spreads := (NDArray.clip_spreads made).1
      exact ⟨spreads, spreads.shape_eq_iff⟩

/-! ## One number -/

section One

variable {l u x y gamma : Exact}

/-- An array of one number. -/
def one (x : Exact) : NDArray Exact := ⟨[1], .real .double [x], rfl⟩

/-- The box between two numbers. -/
noncomputable def between (l u : Exact) : Regularizer Exact := .box (.ofNumber l) (.ofNumber u)

theorem clip_one : (one x).clip (.ofNumber l) (.ofNumber u) =
    .ok (one (Scalar.min u (Scalar.max l x))) := rfl

theorem prox_one : (between l u).prox (.leaf (one x)) gamma =
    .ok (.leaf (one (Scalar.min u (Scalar.max l x))), 0) := rfl

theorem one_inOnePrecision :
    List.Forall₂ (NDArray.InOnePrecision (.ofNumber l)) [one x] [one y] :=
  .cons ⟨.double, rfl, rfl⟩ .nil

theorem one_inOrder_iff :
    List.Forall₂ (NDArray.InOrder (.ofNumber l) (.ofNumber u)) [one x] [one y] ↔
      Scalar.le l u = true ∧ Scalar.isNaN x = false := by
  have entry : List.Forall₂ Precision.double.Admits [(l, u)] [x] ↔
      Scalar.le l u = true ∧ Scalar.isNaN x = false := by
    simp [Precision.Admits, Scalar.isNaN]
  rw [← entry, List.forall₂_cons, and_iff_left List.Forall₂.nil]
  constructor
  · exact fun ordered => ordered .double rfl
  · rintro ordered q ⟨⟩
    exact ordered

/-- A number that is moved into a box is found there; what is not a number is not, and zero is
reported for both. -/
theorem between_reports : ∃ p p' : Vec Exact,
    (between (.real 0) (.real 1)).prox (.leaf (one (.real 3))) (.real 1) = .ok (p, 0) ∧
      (between (.real 0) (.real 1)).value p = .ok 0 ∧
      (between (.real 0) (.real 1)).prox (.leaf (one .undefined)) (.real 1) = .ok (p', 0) ∧
      (between (.real 0) (.real 1)).value p' = .ok Scalar.infinity := by
  have reports : ∀ x, ∃ p inside,
      (between (.real 0) (.real 1)).prox (.leaf (one x)) (.real 1) = .ok (p, 0) ∧
        (between (.real 0) (.real 1)).value p =
          .ok (if inside then (0 : Exact) else Scalar.infinity) ∧
        (inside = true ↔ Scalar.isNaN x = false) := by
    intro x
    have stepped : (between (.real 0) (.real 1)).prox (.leaf (one x)) (.real 1) = .ok (_, 0) :=
      prox_one
    obtain ⟨_, _, boxes⟩ := prox_reports stepped
    obtain ⟨_, _, inside, value, iff⟩ := boxes _ _ rfl
    have ordered : Scalar.le (Exact.real 0) (.real 1) = true := by simp
    exact ⟨_, inside, stepped, value,
      (iff one_inOnePrecision).trans (one_inOrder_iff.trans (and_iff_right ordered))⟩
  obtain ⟨p, inside, stepped, value, number⟩ := reports (.real 3)
  obtain ⟨p', inside', stepped', value', number'⟩ := reports .undefined
  obtain rfl : inside = true := number.mpr (Exact.isNaN_real 3)
  obtain rfl : inside' = false := by
    rw [Bool.eq_false_iff, ne_eq, number']
    simp [Exact.isNaN_undefined]
  exact ⟨p, p', stepped, value, stepped', value'⟩

/-- Between `2` and `1`, which no number lies between, zero is moved to `1`, and zero is reported.
Between two arrays of two numbers an array of one number becomes one of two. -/
theorem inverted_box_misreports :
    (∃ (p : Vec Exact) (G V : Exact), G ≠ V ∧
      (between (.real 2) (.real 1)).prox (.leaf (one (.real 0))) (.real 1) = .ok (p, G) ∧
      (between (.real 2) (.real 1)).value p = .ok V) ∧
    ∃ (lower : NDArray Exact) (p : Vec Exact) (G : Exact),
      (Regularizer.box lower (.ofNumber (.real 1))).prox (.leaf (one (.real 3))) (.real 1) =
        .ok (p, G) ∧
      p.leaves.map NDArray.shape ≠ [(one (.real 3)).shape] := by
  constructor
  · obtain ⟨inside, value, iff⟩ := value_of_clip (v := .leaf (one (.real 0)))
      (p := .leaf (one (Scalar.min (.real 1) (Scalar.max (.real 2) (.real 0)))))
      (.cons (clip_one (l := .real 2) (u := .real 1)) .nil)
    obtain rfl : inside = false := by
      rw [Bool.eq_false_iff, ne_eq, (iff one_inOnePrecision).trans one_inOrder_iff, Exact.le_real]
      norm_num
    refine ⟨_, 0, Scalar.infinity, ?_, prox_one, value⟩
    rw [Exact.zero_eq]
    exact nofun
  · refine ⟨⟨[2], .real .double [.real 0, .real 0], rfl⟩, _, 0, rfl, ?_⟩
    decide

end One

end Regularizer

end ForwardBackward
