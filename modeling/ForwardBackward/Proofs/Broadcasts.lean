/-
# ForwardBackward.Proofs.Broadcasts -- arrays that meet are repeated

Where two arrays of different shapes meet, both are repeated to a common shape.  A shape
that fits into another one, `broadcast s t = some t`, fits into everything that fits around
it (`broadcast_trans`), and two shapes fit into the one they have in common
(`broadcast_left`, `broadcast_right`).

What is repeated twice is repeated once: an array that is repeated to a shape and then to
another one has the entries that it has there (`sourcePosition_trans`,
`NDArray.readAs_trans`).  So what two arrays give entry by entry may be repeated afterwards
or before (`NDArray.readAs_zip`).  Two arrays that meet give what they give where both are
repeated (`NDArray.zipWith_meets`, `NDArray.le_expands`).

All of this holds for every arithmetic.
-/
import ForwardBackward.Proofs.Numbers
import ForwardBackward.Proofs.Slots

namespace ForwardBackward

set_option autoImplicit false

/-! ## Shapes that fit into others -/

section Shapes

variable {s t u : List Nat} {m n k : Nat}

theorem commonShape_comm (s t : List Nat) : commonShape s t = commonShape t s := by
  induction s generalizing t with
  | nil => cases t <;> rfl
  | cons m s ih =>
      cases t with
      | nil => rfl
      | cons n t =>
          rw [commonShape, commonShape, ih t]
          cases commonShape t s with
          | none => rfl
          | some rest =>
              by_cases same : m = n
              · simp [same]
              · simp only [if_neg same, if_neg (Ne.symm same)]
                by_cases one : m = 1
                · have other : n ≠ 1 := fun n1 => same (one.trans n1.symm)
                  rw [if_pos one, if_neg other, if_pos one]
                · rw [if_neg one, if_neg one]

theorem broadcast_comm (s t : List Nat) : broadcast s t = broadcast t s := by
  rw [broadcast, broadcast, commonShape_comm]

/-- A shape fits into another one axis by axis: an axis is the same, or of length one. -/
theorem commonShape_cons :
    commonShape (m :: s) (n :: t) = some (n :: t) ↔
      (m = n ∨ m = 1) ∧ commonShape s t = some t := by
  rw [commonShape]
  cases commonShape s t with
  | none => simp
  | some rest =>
      by_cases same : m = n
      · simp [same]
      · by_cases one : m = 1
        · simp only [if_neg same, if_pos one]
          simp [one]
        · simp [same, one]

/-- An axis more than the other shape has does not fit. -/
theorem commonShape_nil_right : commonShape (m :: s) [] ≠ some [] := by
  simp [commonShape]

theorem commonShape_left (common : commonShape s t = some u) : commonShape s u = some u := by
  induction s generalizing t u with
  | nil => cases u <;> rfl
  | cons m s ih =>
      cases t with
      | nil =>
          cases common
          exact commonShape_self _
      | cons n t =>
          rw [commonShape] at common
          cases rest : commonShape s t with
          | none => simp [rest] at common
          | some u' =>
              have fits := ih rest
              simp only [rest] at common
              split_ifs at common with same one other
              · cases common
                exact commonShape_cons.mpr ⟨.inl rfl, fits⟩
              · cases common
                exact commonShape_cons.mpr ⟨.inr one, fits⟩
              · cases common
                exact commonShape_cons.mpr ⟨.inl rfl, fits⟩

theorem commonShape_trans (first : commonShape s t = some t) (second : commonShape t u = some u) :
    commonShape s u = some u := by
  induction s generalizing t u with
  | nil => cases u <;> rfl
  | cons m s ih =>
      cases t with
      | nil => exact absurd first commonShape_nil_right
      | cons n t =>
          cases u with
          | nil => exact absurd second commonShape_nil_right
          | cons l u =>
              obtain ⟨axis, rest⟩ := commonShape_cons.mp first
              obtain ⟨axis', rest'⟩ := commonShape_cons.mp second
              refine commonShape_cons.mpr ⟨?_, ih rest rest'⟩
              rcases axis with rfl | one
              · exact axis'
              · exact .inr one

theorem broadcast_iff : broadcast s t = some u ↔
    commonShape s.reverse t.reverse = some u.reverse := by
  rw [broadcast, Option.map_eq_some_iff]
  constructor
  · rintro ⟨v, common, rfl⟩
    rw [common, List.reverse_reverse]
  · intro common
    exact ⟨_, common, List.reverse_reverse u⟩

theorem broadcast_left (common : broadcast s t = some u) : broadcast s u = some u :=
  broadcast_iff.mpr (commonShape_left (broadcast_iff.mp common))

theorem broadcast_right (common : broadcast s t = some u) : broadcast t u = some u := by
  rw [broadcast_comm] at common
  exact broadcast_left common

theorem broadcast_trans (first : broadcast s t = some t) (second : broadcast t u = some u) :
    broadcast s u = some u :=
  broadcast_iff.mpr (commonShape_trans (broadcast_iff.mp first) (broadcast_iff.mp second))

/-! ## Where an entry comes from -/

theorem volume_reverse (s : List Nat) : volume s.reverse = volume s := by
  induction s with
  | nil => rfl
  | cons n s ih =>
      rw [List.reverse_cons, volume_append, ih]
      simp [volume, Nat.mul_comm]

theorem sourcePosition_self (s : List Nat) {k : Nat} (inside : k < volume s) :
    sourcePosition s s k = k := by
  induction s generalizing k with
  | nil =>
      have zero : k = 0 := Nat.lt_one_iff.mp inside
      exact zero.symm
  | cons m s ih =>
      have split : k < volume s * m := by rw [Nat.mul_comm]; exact inside
      have rest : k / m < volume s := Nat.div_lt_of_lt_mul (by rw [Nat.mul_comm]; exact split)
      have first : (if m = 1 then 0 else k % m) = k % m := by
        by_cases one : m = 1
        · rw [if_pos one, one, Nat.mod_one]
        · rw [if_neg one]
      rw [sourcePosition, ih rest, first, Nat.mod_add_div]

/-- The place along an axis is inside it. -/
theorem axisPosition_lt (axis : m = n ∨ m = 1) (positive : 0 < n) (k : Nat) :
    (if m = 1 then 0 else k % n) < m := by
  rcases axis with rfl | rfl
  · split
    · omega
    · exact Nat.mod_lt _ positive
  · simp

/-- The place in the rest of the axes is inside them. -/
theorem restPosition_lt (inside : k < volume (n :: t)) : 0 < n ∧ k / n < volume t := by
  have inside' : k < n * volume t := inside
  exact ⟨Nat.pos_of_mul_pos_right (Nat.zero_lt_of_lt inside'), Nat.div_lt_of_lt_mul inside'⟩

theorem sourcePosition_lt (fits : commonShape s t = some t) (inside : k < volume t) :
    sourcePosition s t k < volume s := by
  induction s generalizing t k with
  | nil => exact Nat.one_pos
  | cons m s ih =>
      cases t with
      | nil => exact absurd fits commonShape_nil_right
      | cons n t =>
          obtain ⟨axis, rest⟩ := commonShape_cons.mp fits
          obtain ⟨positive, below⟩ := restPosition_lt inside
          have here := axisPosition_lt axis positive k
          have others : sourcePosition s t (k / n) + 1 ≤ volume s := ih rest below
          calc
            sourcePosition (m :: s) (n :: t) k
              < m + m * sourcePosition s t (k / n) := Nat.add_lt_add_right here _
            _ = m * (sourcePosition s t (k / n) + 1) := by ring
            _ ≤ m * volume s := Nat.mul_le_mul_left m others

/-- Repeated to a shape and then to another one, an entry comes from where it comes from if it is
repeated at once. -/
theorem sourcePosition_trans (first : commonShape s t = some t)
    (second : commonShape t u = some u) (inside : k < volume u) :
    sourcePosition s t (sourcePosition t u k) = sourcePosition s u k := by
  induction s generalizing t u k with
  | nil => rfl
  | cons m s ih =>
      cases t with
      | nil => exact absurd first commonShape_nil_right
      | cons n t =>
          cases u with
          | nil => exact absurd second commonShape_nil_right
          | cons l u =>
              obtain ⟨axis, rest⟩ := commonShape_cons.mp first
              obtain ⟨axis', rest'⟩ := commonShape_cons.mp second
              obtain ⟨positive, below⟩ := restPosition_lt inside
              have here := axisPosition_lt axis' positive k
              have place : sourcePosition (n :: t) (l :: u) k =
                  (if n = 1 then 0 else k % l) + n * sourcePosition t u (k / l) := rfl
              have along : sourcePosition (n :: t) (l :: u) k % n =
                  if n = 1 then 0 else k % l := by
                rw [place, Nat.add_mul_mod_self_left, Nat.mod_eq_of_lt here]
              have across : sourcePosition (n :: t) (l :: u) k / n =
                  sourcePosition t u (k / l) := by
                rw [place, Nat.add_mul_div_left _ _ (Nat.zero_lt_of_lt here),
                  Nat.div_eq_of_lt here, Nat.zero_add]
              have same : (if m = 1 then 0 else if n = 1 then 0 else k % l) =
                  if m = 1 then 0 else k % l := by
                by_cases one : m = 1
                · rw [if_pos one, if_pos one]
                · obtain rfl : m = n := axis.resolve_right one
                  simp only [if_neg one]
              change (if m = 1 then 0 else sourcePosition (n :: t) (l :: u) k % n) +
                m * sourcePosition s t (sourcePosition (n :: t) (l :: u) k / n) = _
              rw [along, across, same, ih rest rest' below]
              rfl

end Shapes

variable {R : Type} [Scalar R]

/-! ## Entries picked by position -/

namespace Entries

variable {a : Entries R} {n : Nat} {position : Nat → Nat} {q : Precision}

theorem kind_gather (n : Nat) (position : Nat → Nat) (a : Entries R) :
    (a.gather n position).kind = a.kind := by
  cases a <;> rfl

theorem gather_self (all : a.length = n) (same : ∀ k < n, position k = k) :
    a.gather n position = a := by
  have picked : ∀ {α : Type} (xs : List α) (d : α), xs.length = n →
      (List.range n).map (fun k => xs.toArray.getD (position k) d) = xs := by
    intro α xs d count
    subst count
    refine List.ext_getElem (by simp) fun k left right => ?_
    simp [same k right, right]
  cases a with
  | whole w xs => exact congrArg _ (picked xs 0 all)
  | real p xs => exact congrArg _ (picked xs 0 all)
  | complex p zs => exact congrArg _ (picked zs .zero all)

/-- Fractions of a precision are read in it as they are. -/
theorem reals_self (q : Precision) (xs : List R) : (real q xs).reals q = xs :=
  (List.map_congr_left fun x _ => Precision.convert_of_firm_eq rfl x).trans (List.map_id xs)

/-- Entries picked and then read as fractions are read and then picked. -/
theorem reals_gather (inside : ∀ k < n, position k < a.length) :
    (a.gather n position).reals q =
      (List.range n).map fun k => (a.reals q).getD (position k) 0 := by
  have picked : ∀ {α : Type} (xs : List α) (d : α) (f : α → R),
      (∀ k < n, position k < xs.length) →
      ((List.range n).map fun k => xs.toArray.getD (position k) d).map f =
        (List.range n).map fun k => (xs.map f).getD (position k) 0 := by
    intro α xs d f inside
    rw [List.map_map]
    refine List.map_congr_left fun k member => ?_
    have below := inside k (List.mem_range.mp member)
    simp [below]
  cases a with
  | whole w xs => exact picked xs 0 _ inside
  | real p xs => exact picked xs 0 _ inside
  | complex p zs => exact picked zs .zero _ inside

end Entries

namespace NDArray

variable {s t : List Nat} {a b c d : NDArray R} {f : Rule R} {q : Precision}

/-- Repeated to its own shape an array keeps its entries. -/
theorem expandTo_self (a : NDArray R) : (a.expandTo a.shape).entries = a.entries := by
  refine Entries.gather_self a.fits fun k inside => sourcePosition_self _ ?_
  rw [volume_reverse]
  exact inside

theorem isBare_enter : a.enter.isBare = false := by
  cases bare : a.isBare with
  | false =>
      rw [(asArray_of_firm bare).1]
      exact bare
  | true =>
      have entered : a.enter.kind = a.kind.enter := by
        unfold enter
        simp only [bare, if_true]
        exact Entries.kind_cast _ _
      unfold isBare at bare ⊢
      rw [entered]
      cases kind : a.kind with
      | whole w => cases w <;> rfl
      | real p => cases p <;> rfl
      | complex p => rfl

theorem isComplex_enter : b.enter.kind.isComplex = b.kind.isComplex := by
  unfold enter kind
  split
  · rw [Entries.kind_cast]
    cases b.entries.kind with
    | whole w => rfl
    | real p => cases p <;> rfl
    | complex p => rfl
  · rfl

theorem isBare_of_real {p : Precision} {xs : List R} (entries : c.entries = .real p xs)
    (firm : p ≠ .bare) : c.isBare = false := by
  unfold isBare kind
  rw [entries]
  exact decide_eq_false firm

theorem bare?_of_firm (firm : a.isBare = false) : a.bare? = none := by
  unfold bare?
  split
  · next same => simp [isBare, kind, same, Entries.kind, Kind.isBare, Width.isBare] at firm
  · next same => simp [isBare, kind, same, Entries.kind, Kind.isBare, Width.isBare] at firm
  · next same => simp [isBare, kind, same, Entries.kind, Kind.isBare] at firm
  · rfl

/-! ## The entries of an array that is repeated -/

/-- The entries of an array that is repeated to a shape, as fractions of a precision. -/
def readAs (q : Precision) (s : List Nat) (b : NDArray R) : List R :=
  (b.enter.expandTo s).entries.reals q

theorem length_readAs (q : Precision) (s : List Nat) (b : NDArray R) :
    (b.readAs q s).length = volume s := by
  rw [readAs, Entries.length_reals]
  exact Entries.length_gather _ _ _

theorem readAs_self (firm : c.isBare = false) : c.readAs q c.shape = c.entries.reals q := by
  rw [readAs, (asArray_of_firm firm).1, expandTo_self]

theorem readAs_enter : a.enter.readAs q s = a.readAs q s := by
  rw [readAs, (asArray_of_firm isBare_enter).1]
  rfl

/-- The entry at a position comes from its source. -/
theorem readAs_eq (fits : broadcast b.shape s = some s) :
    b.readAs q s = (List.range (volume s)).map fun k =>
      (b.enter.entries.reals q).getD (sourcePosition b.shape.reverse s.reverse k) 0 := by
  refine Entries.reals_gather fun k inside => ?_
  rw [b.enter.fits, ← volume_reverse]
  rw [← volume_reverse] at inside
  exact sourcePosition_lt (broadcast_iff.mp fits) inside

theorem getD_readAs (fits : broadcast b.shape s = some s) {k : Nat} (inside : k < volume s) :
    (b.readAs q s).getD k 0 =
      (b.enter.entries.reals q).getD (sourcePosition b.shape.reverse s.reverse k) 0 := by
  rw [readAs_eq fits]
  simp [inside]

/-- Repeated to a shape and then to another one, an array has the entries it has there. -/
theorem readAs_trans (first : broadcast b.shape t = some t) (second : broadcast t s = some s) :
    (List.range (volume s)).map (fun k =>
      (b.readAs q t).getD (sourcePosition t.reverse s.reverse k) 0) = b.readAs q s := by
  rw [readAs_eq (broadcast_trans first second)]
  refine List.map_congr_left fun k member => ?_
  have inside : k < volume s.reverse := by
    rw [volume_reverse]
    exact List.mem_range.mp member
  have middle : sourcePosition t.reverse s.reverse k < volume t := by
    rw [← volume_reverse t]
    exact sourcePosition_lt (broadcast_iff.mp second) inside
  rw [getD_readAs first middle,
    sourcePosition_trans (broadcast_iff.mp first) (broadcast_iff.mp second) inside]

/-- What two arrays give entry by entry, repeated to another shape, is what they give there. -/
theorem readAs_zip {op : R → R → R} (notBare : d.isBare = false)
    (entries : d.entries = .real q (List.zipWith op (b.readAs q d.shape) (c.readAs q d.shape)))
    (left : broadcast b.shape d.shape = some d.shape)
    (right : broadcast c.shape d.shape = some d.shape) (fits : broadcast d.shape s = some s) :
    d.readAs q s = List.zipWith op (b.readAs q s) (c.readAs q s) := by
  rw [readAs_eq fits, (asArray_of_firm notBare).1, entries, Entries.reals_self,
    ← readAs_trans left fits, ← readAs_trans right fits, List.zipWith_map, List.zipWith_self]
  refine List.map_congr_left fun k member => ?_
  have inside : k < volume s.reverse := by
    rw [volume_reverse]
    exact List.mem_range.mp member
  have middle : sourcePosition d.shape.reverse s.reverse k < volume d.shape := by
    rw [← volume_reverse d.shape]
    exact sourcePosition_lt (broadcast_iff.mp fits) inside
  have middle' := middle
  rw [← length_readAs q d.shape b] at middle
  rw [← length_readAs q d.shape c] at middle'
  simp [middle, middle']

/-! ## Arrays that meet -/

/-- What an array and one that is no bare number give is what both give where they are repeated
to their common shape. -/
theorem zipWith_meets (notBare : c.isBare = false) (made : zipWith f b c = .ok d) :
    b.asArray = .ok b.enter ∧ broadcast b.shape c.shape = some d.shape ∧
      d.entries =
        Entries.zipWith f (b.enter.expandTo d.shape).entries (c.expandTo d.shape).entries := by
  obtain ⟨⟨u, v⟩, met, zipped⟩ := bind_accepts.mp made
  unfold meet at met
  rw [notBare, Bool.and_false, if_neg Bool.false_ne_true, (asArray_of_firm notBare).2] at met
  obtain ⟨e, array, met⟩ := bind_accepts.mp met
  cases met
  obtain rfl := asArray_accepts array
  refine ⟨array, ?_⟩
  change zipArrays f b.enter c = .ok d at zipped
  unfold zipArrays at zipped
  split at zipped
  · next same =>
      cases zipped
      change broadcast b.shape c.shape = some b.enter.shape ∧
        Entries.zipWith f b.enter.entries c.entries =
          Entries.zipWith f (b.enter.expandTo b.enter.shape).entries
            (c.expandTo b.enter.shape).entries
      rw [expandTo_self, same, expandTo_self]
      refine ⟨?_, rfl⟩
      rw [show b.shape = c.shape from same, broadcast_self]
  · split at zipped
    · cases zipped
    · next common =>
        cases zipped
        exact ⟨common, rfl⟩

theorem kind_of_zipWith (notBare : c.isBare = false) (made : zipWith f b c = .ok d) :
    d.kind = b.enter.kind.join c.kind := by
  obtain ⟨_, _, entries⟩ := zipWith_meets notBare made
  rw [kind, entries, Entries.kind_zipWith]
  exact congrArg₂ Kind.join (Entries.kind_gather _ _ _) (Entries.kind_gather _ _ _)

/-- What meets an array is no bare number any more. -/
theorem isBare_zipWith (notBare : c.isBare = false) (made : zipWith f b c = .ok d) :
    d.isBare = false := by
  rw [isBare, kind_of_zipWith notBare made]
  exact Kind.isBare_join notBare

/-- A bound meets an array of the shape it is repeated to. -/
theorem zipWith_expands (array : ∃ e, b.asArray = .ok e)
    (meets : broadcast b.shape c.shape = some c.shape) (notBare : c.isBare = false) :
    ∃ d, zipWith f b c = .ok d ∧ d.shape = c.shape ∧
      d.entries = Entries.zipWith f (b.enter.expandTo c.shape).entries c.entries := by
  obtain ⟨e, array⟩ := array
  have meeting : meet b c = .ok (b.enter, c) := by
    unfold meet
    rw [notBare, Bool.and_false, if_neg Bool.false_ne_true, array, (asArray_of_firm notBare).2,
      asArray_accepts array]
    rfl
  unfold zipWith
  rw [meeting]
  change ∃ d, zipArrays f b.enter c = .ok d ∧ _
  unfold zipArrays
  by_cases same : b.enter.shape = c.shape
  · rw [dif_pos same]
    refine ⟨_, rfl, same, ?_⟩
    rw [← same, expandTo_self]
    rfl
  · rw [dif_neg same, show broadcast b.enter.shape c.shape = some c.shape from meets]
    refine ⟨_, rfl, rfl, ?_⟩
    change Entries.zipWith f _ (c.expandTo c.shape).entries = _
    rw [expandTo_self]

theorem zipWith_entries (meets : broadcast b.shape c.shape = some c.shape)
    (notBare : c.isBare = false) (made : zipWith f b c = .ok d) :
    d.shape = c.shape ∧
      d.entries = Entries.zipWith f (b.enter.expandTo c.shape).entries c.entries := by
  obtain ⟨_, common, entries⟩ := zipWith_meets notBare made
  have same : d.shape = c.shape := Option.some.inj (common.symm.trans meets)
  refine ⟨same, ?_⟩
  rw [entries, same, expandTo_self]

/-- Entry by entry in fractions of one precision. -/
theorem zipWith_reads (notBare : c.isBare = false)
    (joined : b.enter.kind.join c.kind = .real q) (made : zipWith f b c = .ok d) :
    d.entries = .real q (List.zipWith (f.real q) (b.readAs q d.shape) (c.readAs q d.shape)) := by
  obtain ⟨_, _, entries⟩ := zipWith_meets notBare made
  have kindB : (b.enter.expandTo d.shape).entries.kind = b.enter.kind := Entries.kind_gather _ _ _
  have kindC : (c.expandTo d.shape).entries.kind = c.kind := Entries.kind_gather _ _ _
  rw [entries]
  unfold Entries.zipWith readAs
  rw [kindB, kindC, joined, (asArray_of_firm notBare).1]

/-! ## Arrays that are compared -/

/-- An array that is repeated to the shape of another one, compared with it on either side. -/
theorem le_expands (array : ∃ e, b.asArray = .ok e)
    (meets : broadcast b.shape c.shape = some c.shape) (notBare : c.isBare = false) :
    (∃ d, b.le c = .ok d ∧ d.shape = c.shape ∧
      d.entries = (b.enter.expandTo c.shape).entries.compare .le c.entries) ∧
    ∃ d, c.le b = .ok d ∧ d.shape = c.shape ∧
      d.entries = c.entries.compare .le (b.enter.expandTo c.shape).entries := by
  obtain ⟨e, array⟩ := array
  obtain rfl := asArray_accepts array
  obtain ⟨_, asArray⟩ := asArray_of_firm notBare
  have meets : broadcast b.enter.shape c.shape = some c.shape := meets
  constructor
  · unfold le
    rw [bare?_of_firm notBare, array, asArray]
    simp only [bind, Except.bind, meets]
    cases b.bare? with
    | none => exact ⟨_, rfl, rfl, by simp only [expandTo_self]⟩
    | some x => exact ⟨_, rfl, rfl, by simp only [expandTo_self]⟩
  · unfold le
    rw [bare?_of_firm notBare, array, asArray]
    simp only [bind, Except.bind, broadcast_comm c.shape, meets]
    exact ⟨_, rfl, rfl, by simp only [expandTo_self]⟩

/-- Two arrays of truth values of one shape, multiplied. -/
theorem mul_flags {xs ys : List ℤ} (ha : a.entries = .whole .flag xs)
    (hb : b.entries = .whole .flag ys) (same : a.shape = b.shape) :
    ∃ c, a.mul b = .ok c ∧
      c.entries = .zipWith .mul (.whole .flag xs) (.whole .flag ys) := by
  have firm : ∀ {d : NDArray R} {zs : List ℤ}, d.entries = .whole .flag zs →
      d.isBare = false := by
    intro d zs entries
    simp [isBare, kind, entries, Entries.kind, Kind.isBare, Width.isBare]
  exact ⟨_, zipWith_solid .mul (firm ha) (firm hb) same, by simp only [zipSame, ha, hb]⟩

end NDArray

namespace Entries

/-- A truth value as a number. -/
def flag (b : Bool) : ℤ := if b then 1 else 0

/-- A comparison gives truth values. -/
theorem compare_flags (t : Test R) (a b : Entries R) : ∃ xs, a.compare t b = .whole .flag xs := by
  unfold compare
  split <;> exact ⟨_, rfl⟩

/-- Two rows of truth values hold together where each holds. -/
theorem allTrue_mul {α β : Type} {t : α → β → Bool} {s : β → α → Bool} {lows ups : List α}
    {zs : List β} (count : lows.length = zs.length) (count' : ups.length = zs.length) :
    (zipWith .mul (.whole .flag (List.zipWith (fun l z => flag (t l z)) lows zs))
        (.whole .flag (List.zipWith (fun z l => flag (s z l)) zs ups)) : Entries R).allTrue =
      true ↔ List.Forall₂ (fun b z => t b.1 z = true ∧ s z b.2 = true) (lows.zip ups) zs := by
  change ((List.zipWith (fun x y => Width.flag.wrap (x * y))
    ((List.zipWith (fun l z => flag (t l z)) lows zs).map Width.flag.wrap)
    ((List.zipWith (fun z l => flag (s z l)) zs ups).map Width.flag.wrap)).map
      Width.flag.wrap).all (· != 0) = true ↔ _
  induction zs generalizing lows ups with
  | nil =>
      obtain rfl := List.length_eq_zero_iff.mp count
      simp
  | cons z zs ih =>
      cases lows with
      | nil => cases count
      | cons l lows =>
          cases ups with
          | nil => cases count'
          | cons u ups =>
              have both : (Width.flag.wrap (Width.flag.wrap (Width.flag.wrap (flag (t l z)) *
                  Width.flag.wrap (flag (s z u)))) != 0) = (t l z && s z u) := by
                cases t l z <;> cases s z u <;> rfl
              simp only [List.zipWith_cons_cons, List.map_cons, List.all_cons, both,
                List.zip_cons_cons, List.forall₂_cons, Bool.and_eq_true]
              rw [ih (Nat.succ.inj count) (Nat.succ.inj count')]

end Entries

end ForwardBackward
