/-
# ForwardBackward.Proofs.Pairings -- maps that are transposes of each other

A vector *inhabits* a structure if it is made of finite arrays of its shapes and kinds
(`Vec.Inhabits`).  A vector is *within* a structure if it has the shapes, and kinds
that give way where they meet the kinds there (`Vec.Within`): what inhabits a structure
and meets something within it inhabits the structure still.

The *pairing* of two vectors is the sum of the products of their entries, without
conjugates.  Two maps are transposes of each other if each of them takes every
inhabitant of its own structure to an inhabitant of the other one, and the pairing is
the same on either side, `Σ (f x)ₖ yₖ = Σ xₖ (g y)ₖ` (`Transposes`).

Transposes are closed under all that operators are made of: `Transposes.compose` turns
the order around, `plus` and `scaled` keep it, where what scales is a sign, a real or a
complex number.  A product with a vector within the structure is its own transpose
(`times`).
-/
import ForwardBackward.Proofs.Reached
import ForwardBackward.Transform.Basic

namespace ForwardBackward

set_option autoImplicit false

open scoped ComplexConjugate

/-! ## Lists of numbers -/

/-- The sum of the products, without conjugates. -/
noncomputable def sumProducts (us vs : List ℂ) : ℂ := (List.zipWith (· * ·) us vs).sum

section Pairing

variable {n : Nat} {us vs ws : List ℂ}

theorem sumProducts_comm (us vs : List ℂ) : sumProducts us vs = sumProducts vs us := by
  unfold sumProducts
  rw [List.zipWith_comm]
  simp only [mul_comm]

/-- The sum by coordinates. -/
theorem sumProducts_eq_sum (hu : us.length = n) (hv : vs.length = n) :
    sumProducts us vs = ∑ k ∈ Finset.range n, us.getD k 0 * vs.getD k 0 := by
  induction n generalizing us vs with
  | zero =>
      obtain rfl := List.length_eq_zero_iff.mp hu
      rfl
  | succ n ih =>
      obtain ⟨u, us, rfl⟩ := List.exists_cons_of_length_eq_add_one hu
      obtain ⟨v, vs, rfl⟩ := List.exists_cons_of_length_eq_add_one hv
      have rest := ih (Nat.succ.inj hu) (Nat.succ.inj hv)
      rw [Finset.sum_range_succ', add_comm]
      exact congrArg (u * v + ·) rest

theorem getD_zipWith {op : ℂ → ℂ → ℂ} (zero : op 0 0 = 0) (same : us.length = vs.length)
    (k : Nat) : (List.zipWith op us vs).getD k 0 = op (us.getD k 0) (vs.getD k 0) := by
  by_cases inside : k < us.length
  · have inside' : k < vs.length := same ▸ inside
    simp [inside, inside']
  · have outside : ¬ k < vs.length := same ▸ inside
    simp [inside, outside, zero]

theorem sumProducts_add (same : us.length = vs.length) (hw : ws.length = us.length) :
    sumProducts (List.zipWith (· + ·) us vs) ws = sumProducts us ws + sumProducts vs ws := by
  have zipped : (List.zipWith (· + ·) us vs).length = us.length := by simp [same]
  rw [sumProducts_eq_sum zipped hw, sumProducts_eq_sum rfl hw, sumProducts_eq_sum same.symm hw,
    ← Finset.sum_add_distrib]
  refine Finset.sum_congr rfl fun k _ => ?_
  rw [getD_zipWith (add_zero 0) same, add_mul]

theorem sumProducts_map {op : ℂ → ℂ} {c : ℂ} (multiple : ∀ z, op z = c * z) (us vs : List ℂ) :
    sumProducts (us.map op) vs = c * sumProducts us vs := by
  obtain rfl : op = fun z => c * z := funext multiple
  have products : List.zipWith (· * ·) (us.map fun z => c * z) vs =
      (List.zipWith (· * ·) us vs).map fun z => c * z := by
    rw [List.zipWith_map_left, List.map_zipWith]
    simp only [mul_assoc]
  unfold sumProducts
  rw [products, List.sum_map_mul_left, List.map_id']

/-- A product entry by entry moves to the other side. -/
theorem sumProducts_mul {ds : List ℂ} (hu : us.length = ds.length) (hv : vs.length = ds.length) :
    sumProducts (List.zipWith (· * ·) ds us) vs = sumProducts us (List.zipWith (· * ·) ds vs) := by
  have left : (List.zipWith (· * ·) ds us).length = ds.length := by simp [hu]
  have right : (List.zipWith (· * ·) ds vs).length = ds.length := by simp [hv]
  rw [sumProducts_eq_sum left hv, sumProducts_eq_sum hu right]
  refine Finset.sum_congr rfl fun k _ => ?_
  rw [getD_zipWith (mul_zero 0) hu.symm, getD_zipWith (mul_zero 0) hv.symm]
  ring

end Pairing

/-! ## Kinds that give way -/

theorem Precision.join_assoc (p q r : Precision) :
    (p.join q).join r = p.join (q.join r) := by
  cases p <;> cases q <;> cases r <;> rfl

/-- A kind with a fractional part, not bare, that leaves another kind what it is where the two
meet. -/
structure Kind.Within (k l : Kind) : Prop where
  notBare : k.isBare = false
  inexact : ∀ w, k ≠ .whole w
  joined : k.join l = l

namespace Kind

variable {k l m : Kind}

theorem within_self (notBare : k.isBare = false) (inexact : ∀ w, k ≠ .whole w) :
    k.Within k := by
  refine ⟨notBare, inexact, ?_⟩
  cases k with
  | whole w => exact absurd rfl (inexact w)
  | real p | complex p => cases p <;> rfl

/-- A kind is within the one that its numbers are kept in. -/
theorem within_firm (notBare : k.isBare = false) (inexact : ∀ w, k ≠ .whole w) :
    k.Within k.firm := by
  refine ⟨notBare, inexact, ?_⟩
  cases k with
  | whole w => exact absurd rfl (inexact w)
  | real p | complex p => cases p <;> rfl

/-- Fractions meet in any order. -/
theorem join_assoc (hk : ∀ w, k ≠ .whole w) (hm : ∀ w, m ≠ .whole w) (hl : ∀ w, l ≠ .whole w) :
    (k.join m).join l = k.join (m.join l) := by
  cases k with
  | whole w => exact absurd rfl (hk w)
  | real p | complex p =>
      cases m with
      | whole w => exact absurd rfl (hm w)
      | real q | complex q =>
          cases l with
          | whole w => exact absurd rfl (hl w)
          | real r | complex r =>
              first
              | exact congrArg Kind.real (p.join_assoc q r)
              | exact congrArg Kind.complex (p.join_assoc q r)

/-- What has a kind within it is a kind of fractions. -/
theorem Within.right_inexact (hk : k.Within l) : ∀ w, l ≠ .whole w := by
  rintro w rfl
  have joined := hk.joined
  cases k with
  | whole v => exact hk.inexact v rfl
  | real p | complex p => cases joined

theorem Within.join (hk : k.Within l) (hm : m.Within l) : (k.join m).Within l := by
  refine ⟨isBare_join hm.notBare, join_inexact hk.inexact m, ?_⟩
  rw [join_assoc hk.inexact hm.inexact hk.right_inexact, hm.joined, hk.joined]

end Kind

/-! ## Arrays -/

theorem Rule.means_mul : (mul : Rule Exact).Means (· * ·) :=
  ⟨fun _ x y => ⟨x * y, rfl, by simp⟩, Cartesian.mul_ofComplex⟩

namespace NDArray

variable {p : Spec} {a b c : NDArray Exact}

/-- An array of finite real or complex numbers, no bare number. -/
structure Solid (a : NDArray Exact) : Prop where
  notBare : a.isBare = false
  finite : ∃ zs, a.entries.Denotes zs

/-- An array of finite numbers of this shape, in this kind and no other. -/
structure Inhabits (p : Spec) (a : NDArray Exact) : Prop extends Keeps p a, Solid a

/-- An array of finite numbers of this shape, in a kind that gives way to this kind. -/
structure Within (p : Spec) (a : NDArray Exact) : Prop where
  shape : a.shape = p.shape
  kind : a.kind.Within p.kind
  finite : ∃ zs, a.entries.Denotes zs

theorem Solid.inexact (ha : a.Solid) : ∀ w, a.kind ≠ .whole w := by
  obtain ⟨zs, denotes⟩ := ha.finite
  exact denotes.kind_ne_whole

theorem Inhabits.within (ha : a.Inhabits p) : a.Within p := by
  refine ⟨ha.shape, ?_, ha.finite⟩
  rw [← ha.toKeeps.kind]
  exact Kind.within_self ha.notBare ha.toSolid.inexact

section Zip

variable {f : Rule Exact} {op : ℂ → ℂ → ℂ}

theorem Within.of_zip (means : f.Means op) (ha : a.Within p) (hb : b.Within p)
    (made : zipWith f a b = .ok c) : c.Within p := by
  have same : a.shape = b.shape := ha.shape.trans hb.shape.symm
  cases made.symm.trans (zipWith_solid f ha.kind.notBare hb.kind.notBare same)
  obtain ⟨zs, denotes⟩ := ha.finite
  obtain ⟨ws, denotes'⟩ := hb.finite
  refine ⟨ha.shape, ?_, _, denotes.zipWith means denotes'⟩
  rw [kind_zipSame]
  exact ha.kind.join hb.kind

theorem Within.inhabits (ha : a.Within p) (kind : a.kind = p.kind) : a.Inhabits p :=
  ⟨⟨ha.shape, kind⟩, ha.kind.notBare, ha.finite⟩

theorem kind_of_zip (ha : a.Within p) (hb : b.Within p) (made : zipWith f a b = .ok c) :
    c.kind = a.kind.join b.kind := by
  have same : a.shape = b.shape := ha.shape.trans hb.shape.symm
  cases made.symm.trans (zipWith_solid f ha.kind.notBare hb.kind.notBare same)
  exact kind_zipSame f same

/-- What meets an array within a structure stays in the structure. -/
theorem Within.inhabits_of_zip (means : f.Means op) (ha : a.Within p) (hb : b.Inhabits p)
    (made : zipWith f a b = .ok c) : c.Inhabits p := by
  refine (ha.of_zip means hb.within made).inhabits ?_
  rw [kind_of_zip ha hb.within made, hb.toKeeps.kind, ha.kind.joined]

theorem Inhabits.of_zip_within (means : f.Means op) (ha : a.Inhabits p) (hb : b.Within p)
    (made : zipWith f a b = .ok c) : c.Inhabits p := by
  refine (ha.within.of_zip means hb made).inhabits ?_
  rw [kind_of_zip ha.within hb made, ha.toKeeps.kind, Kind.join_comm, hb.kind.joined]

end Zip

end NDArray

/-! ## Vectors -/

namespace Vec

variable {s t u : Structure} {d d' x y z w : Vec Exact}

/-- A vector of finite arrays of these shapes and kinds. -/
def Inhabits (s : Structure) (x : Vec Exact) : Prop := Tree.Leafwise NDArray.Inhabits s x

/-- A vector of finite arrays of these shapes, in kinds that give way to these kinds. -/
def Within (s : Structure) (x : Vec Exact) : Prop := Tree.Leafwise NDArray.Within s x

/-- The sum of the products of the entries, without conjugates. -/
noncomputable def pairing (x y : Vec Exact) : ℂ := sumProducts x.numbers y.numbers

theorem Within.fits (hd : d.Within s) : d.Fits s :=
  fits_of_leafwise (fun _ _ within => ⟨within.shape, within.finite⟩) hd

theorem Inhabits.within (hx : x.Inhabits s) : x.Within s :=
  ⟨hx.skeleton, hx.leaves.imp fun _ _ inhabits => inhabits.within⟩

theorem Inhabits.fits (hx : x.Inhabits s) : x.Fits s := hx.within.fits

theorem Denotes.numbers_eq {us : List ℂ} (hx : x.Denotes s us) : x.numbers = us :=
  hx.leaves.numbers_eq

theorem Fits.denotes (hx : x.Fits s) : x.Denotes s x.numbers := by
  obtain ⟨us, denotes⟩ := hx
  rw [denotes.numbers_eq]
  exact denotes

theorem Fits.length_numbers (hx : x.Fits s) : x.numbers.length = s.dimension :=
  hx.denotes.length_eq

theorem pairing_comm (x y : Vec Exact) : x.pairing y = y.pairing x :=
  sumProducts_comm _ _

section Zip

variable {f : Rule Exact} {op : ℂ → ℂ → ℂ}

theorem combineSame_eq {g : NDArray Exact → NDArray Exact → Except Fault (NDArray Exact)}
    (same : x.skeleton = y.skeleton) : Tree.combineSame g x y = Tree.combine g x y :=
  if_pos same

/-- Two vectors of one structure meet entry by entry. -/
theorem Fits.zip (means : f.Means op) (hx : x.Fits s) (hy : y.Fits s) :
    ∃ z : Vec Exact, Tree.combineSame (NDArray.zipWith f) x y = .ok z ∧ z.Fits s ∧
      z.numbers = List.zipWith op x.numbers y.numbers := by
  obtain ⟨z, made, denotes⟩ := hx.denotes.combine (NDArray.zipWith_denotes means) hy.denotes
  refine ⟨z, ?_, denotes.fits, denotes.numbers_eq⟩
  rw [combineSame_eq (hx.denotes.skeleton.trans hy.denotes.skeleton.symm), made]

theorem Within.zip (means : f.Means op) (hx : x.Within s) (hy : y.Within s)
    (made : Tree.combineSame (NDArray.zipWith f) x y = .ok z) : z.Within s := by
  rw [combineSame_eq (hx.skeleton.trans hy.skeleton.symm)] at made
  exact Tree.Leafwise.of_combine hx hy made fun _ _ _ _ ha hb made => ha.of_zip means hb made

theorem Within.zip_inhabits (means : f.Means op) (hd : d.Within s) (hx : x.Inhabits s)
    (made : Tree.combineSame (NDArray.zipWith f) d x = .ok z) : z.Inhabits s := by
  rw [combineSame_eq (hd.skeleton.trans hx.skeleton.symm)] at made
  exact Tree.Leafwise.of_combine hd hx made
    fun _ _ _ _ ha hb made => ha.inhabits_of_zip means hb made

end Zip

/-- The product with a vector within a structure. -/
theorem Within.times (hd : d.Within s) (hx : x.Inhabits s) :
    ∃ z, d.times x = .ok z ∧ z.Inhabits s ∧
      z.numbers = List.zipWith (· * ·) d.numbers x.numbers := by
  obtain ⟨z, made, _, numbers⟩ := hd.fits.zip Rule.means_mul hx.fits
  exact ⟨z, made, hd.zip_inhabits Rule.means_mul hx made, numbers⟩

theorem Inhabits.plus (hx : x.Inhabits s) (hy : y.Inhabits s) :
    ∃ z, x.plus y = .ok z ∧ z.Inhabits s ∧
      z.numbers = List.zipWith (· + ·) x.numbers y.numbers := by
  obtain ⟨z, made, _, numbers⟩ := hx.fits.zip Rule.means_add hy.fits
  exact ⟨z, made, hx.within.zip_inhabits Rule.means_add hy made, numbers⟩

theorem Inhabits.asArrays (hx : x.Inhabits s) : x.asArrays = .ok x := by
  refine asArrays_of_solid fun a inside => ?_
  obtain ⟨p, _, inhabits⟩ := exists_of_mem_right hx.leaves inside
  exact inhabits.notBare

/-- A function on every array that changes no shape and no kind. -/
theorem Inhabits.map {g : NDArray Exact → NDArray Exact} {op : ℂ → ℂ}
    (mapped : ∀ {a : NDArray Exact} {zs : List ℂ}, a.entries.Denotes zs →
      (g a).shape = a.shape ∧ (g a).entries.Denotes (zs.map op))
    (kind : ∀ p ∈ s.leaves, ∀ a, NDArray.Inhabits p a → (g a).kind = p.kind)
    (hx : x.Inhabits s) :
    Inhabits s (Tree.map g x) ∧ numbers (Tree.map g x) = x.numbers.map op := by
  refine ⟨Tree.Leafwise.map hx fun p inside a inhabits => ?_,
    (hx.fits.denotes.map mapped).numbers_eq⟩
  obtain ⟨zs, denotes⟩ := inhabits.finite
  obtain ⟨shape, denotes'⟩ := mapped denotes
  have same := kind p inside a inhabits
  refine ⟨⟨shape.trans inhabits.shape, same⟩, ?_, _, denotes'⟩
  rw [NDArray.isBare, same, ← inhabits.toKeeps.kind]
  exact inhabits.notBare

end Vec

/-! ## Entry by entry -/

namespace Entries.Denotes

variable {a : Entries Exact} {us : List ℂ}

theorem neg (ha : a.Denotes us) : a.neg.Denotes (us.map fun z => -1 * z) := by
  cases ha with
  | real p xs =>
      simp only [Entries.neg, List.map_map]
      exact ofReal p (fun x : ℝ => -x) xs (fun _ => rfl) (fun x => by simp)
  | complex p =>
      simp only [Entries.neg, List.map_map]
      exact ofComplex p us fun z => by simp [Cartesian.neg, Cartesian.ofComplex]

theorem conjugate (ha : a.Denotes us) : a.conj.Denotes (us.map conj) := by
  cases ha with
  | real p xs =>
      simp only [Entries.conj, List.map_map]
      exact ofReal p (fun x : ℝ => x) xs (fun _ => rfl) (fun x => by simp)
  | complex p =>
      simp only [Entries.conj, List.map_map]
      exact ofComplex p us fun z => Cartesian.conj_ofComplex z

theorem scaleComplex (c : ℂ) (ha : a.Denotes us) :
    (a.scaleComplex (.ofComplex c)).Denotes (us.map fun z => c * z) := by
  unfold Entries.scaleComplex
  simp only [ha.complexes_eq, List.map_map, Cartesian.convert_exact]
  exact ofComplex _ us fun z => Cartesian.mul_ofComplex _ c z

end Entries.Denotes

namespace Entries

variable {a : Entries Exact}

theorem kind_neg (inexact : ∀ w, a.kind ≠ .whole w) : a.neg.kind = a.kind := by
  cases a with
  | whole w xs => exact absurd rfl (inexact w)
  | real p xs | complex p xs => rfl

theorem kind_conj : a.conj.kind = a.kind := by
  cases a <;> rfl

theorem kind_scaleComplex (c : Cartesian Exact) (complex : a.kind.isComplex = true) :
    (a.scaleComplex c).kind = a.kind := by
  cases a with
  | whole w xs | real p xs => cases complex
  | complex p xs => rfl

end Entries

theorem NDArray.kind_map (f : Precision → Exact → Exact)
    (g : Precision → Cartesian Exact → Cartesian Exact) {a : NDArray Exact}
    (inexact : ∀ w, a.kind ≠ .whole w) : (a.map f g).kind = a.kind := by
  unfold kind at inexact
  change (a.entries.mapInexact f g).kind = a.entries.kind
  cases entries : a.entries with
  | whole w xs => exact absurd (congrArg Entries.kind entries) (inexact w)
  | real p xs | complex p xs => rfl

/-- A structure of complex arrays. -/
def Structure.Complex (s : Structure) : Prop := ∀ p ∈ s.leaves, p.kind.isComplex = true

namespace Vec.Inhabits

variable {s : Structure} {x : Vec Exact}

theorem neg (hx : x.Inhabits s) :
    (Vec.neg x).Inhabits s ∧ (Vec.neg x).numbers = x.numbers.map fun z => -1 * z :=
  hx.map (fun denotes => ⟨rfl, denotes.neg⟩) fun _ _ _ ha =>
    (Entries.kind_neg ha.toSolid.inexact).trans ha.toKeeps.kind

theorem conjugate (hx : x.Inhabits s) :
    (Vec.conj x).Inhabits s ∧ (Vec.conj x).numbers = x.numbers.map conj :=
  hx.map (fun denotes => ⟨rfl, denotes.conjugate⟩) fun _ _ _ ha =>
    Entries.kind_conj.trans ha.toKeeps.kind

theorem scale (c : ℝ) (hx : x.Inhabits s) :
    (x.scale (.real c)).Inhabits s ∧
      (x.scale (.real c)).numbers = x.numbers.map fun z => (c : ℂ) * z :=
  hx.map (fun denotes => ⟨rfl, NDArray.scale_denotes c denotes⟩) fun _ _ _ ha =>
    (NDArray.kind_map _ _ ha.toSolid.inexact).trans ha.toKeeps.kind

theorem scaleComplex (c : ℂ) (complex : s.Complex) (hx : x.Inhabits s) :
    (x.scaleComplex (.ofComplex c)).Inhabits s ∧
      (x.scaleComplex (.ofComplex c)).numbers = x.numbers.map fun z => c * z :=
  hx.map (fun denotes => ⟨rfl, denotes.scaleComplex c⟩) fun _ inside _ ha =>
    (Entries.kind_scaleComplex _
      ((congrArg Kind.isComplex ha.toKeeps.kind).trans (complex _ inside))).trans ha.toKeeps.kind

end Vec.Inhabits

/-! ## Transposes -/

/-- Two maps between the vectors of two structures, neither of which refuses any, with one
pairing on either side. -/
structure Transposes (s t : Structure) (f g : Vec Exact → Except Fault (Vec Exact)) : Prop where
  forth : ∀ {x : Vec Exact}, x.Inhabits s → ∃ z, f x = .ok z ∧ z.Inhabits t
  back : ∀ {y : Vec Exact}, y.Inhabits t → ∃ w, g y = .ok w ∧ w.Inhabits s
  pairing : ∀ {x y z w : Vec Exact}, x.Inhabits s → y.Inhabits t → f x = .ok z → g y = .ok w →
    z.pairing y = x.pairing w

namespace Transposes

variable {s t u : Structure} {f g f' g' : Vec Exact → Except Fault (Vec Exact)}

theorem symm (h : Transposes s t f g) : Transposes t s g f where
  forth := h.back
  back := h.forth
  pairing {y x w z} hy hx backward forward := by
    rw [Vec.pairing_comm w x, Vec.pairing_comm y z]
    exact (h.pairing hx hy forward backward).symm

theorem forth_of (h : Transposes s t f g) {x z : Vec Exact} (hx : x.Inhabits s)
    (made : f x = .ok z) : z.Inhabits t := by
  obtain ⟨z', made', hz⟩ := h.forth hx
  cases made.symm.trans made'
  exact hz

/-- Only the values at inhabitants matter. -/
theorem congr (h : Transposes s t f g) (same : ∀ {x : Vec Exact}, x.Inhabits s → f' x = f x)
    (same' : ∀ {y : Vec Exact}, y.Inhabits t → g' y = g y) : Transposes s t f' g' := by
  refine ⟨fun hx => ?_, fun hy => ?_, fun hx hy forward backward => ?_⟩
  · rw [same hx]
    exact h.forth hx
  · rw [same' hy]
    exact h.back hy
  · rw [same hx] at forward
    rw [same' hy] at backward
    exact h.pairing hx hy forward backward

/-- One map after the other; the transposes in reverse order. -/
theorem compose (h : Transposes s t f g) (h' : Transposes t u f' g') :
    Transposes s u (fun x => do f' (← f x)) (fun y => do g (← g' y)) := by
  have onward : ∀ {s t u : Structure} {f g f' g' : Vec Exact → Except Fault (Vec Exact)},
      Transposes s t f g → Transposes t u f' g' → ∀ {x : Vec Exact}, x.Inhabits s →
      ∃ z, (do f' (← f x)) = Except.ok z ∧ z.Inhabits u := by
    intro s t u f g f' g' h h' x hx
    obtain ⟨m, first, hm⟩ := h.forth hx
    obtain ⟨z, second, hz⟩ := h'.forth hm
    exact ⟨z, by rw [first]; exact second, hz⟩
  refine ⟨onward h h', onward h'.symm h.symm, ?_⟩
  intro x y z w hx hy forward backward
  obtain ⟨m, first, second⟩ := bind_accepts.mp forward
  obtain ⟨v, first', second'⟩ := bind_accepts.mp backward
  have hm := h.forth_of hx first
  have hv := h'.symm.forth_of hy first'
  rw [h'.pairing hm hy second first', h.pairing hx hv first second']

theorem plus (h : Transposes s t f g) (h' : Transposes s t f' g') :
    Transposes s t (fun x => do Vec.plus (← f x) (← f' x))
      (fun y => do Vec.plus (← g y) (← g' y)) := by
  have onward : ∀ {s t : Structure} {f g f' g' : Vec Exact → Except Fault (Vec Exact)},
      Transposes s t f g → Transposes s t f' g' → ∀ {x : Vec Exact}, x.Inhabits s →
      ∃ a b z, f x = .ok a ∧ f' x = .ok b ∧ a.Inhabits t ∧ b.Inhabits t ∧
        (do Vec.plus (← f x) (← f' x)) = Except.ok z ∧ z.Inhabits t ∧
        z.numbers = List.zipWith (· + ·) a.numbers b.numbers := by
    intro s t f g f' g' h h' x hx
    obtain ⟨a, first, ha⟩ := h.forth hx
    obtain ⟨b, second, hb⟩ := h'.forth hx
    obtain ⟨z, sum, hz, numbers⟩ := ha.plus hb
    exact ⟨a, b, z, first, second, ha, hb, by rw [first, second]; exact sum, hz, numbers⟩
  refine ⟨?_, ?_, ?_⟩
  · intro x hx
    obtain ⟨a, b, z, _, _, _, _, sum, hz, _⟩ := onward h h' hx
    exact ⟨z, sum, hz⟩
  · intro y hy
    obtain ⟨a, b, z, _, _, _, _, sum, hz, _⟩ := onward h.symm h'.symm hy
    exact ⟨z, sum, hz⟩
  · intro x y z w hx hy forward backward
    obtain ⟨a, b, _, first, second, ha, hb, sum, hz, numbers⟩ := onward h h' hx
    obtain ⟨a', b', _, first', second', ha', hb', sum', hw, numbers'⟩ :=
      onward h.symm h'.symm hy
    cases forward.symm.trans sum
    cases backward.symm.trans sum'
    have left := h.pairing hx hy first first'
    have right := h'.pairing hx hy second second'
    unfold Vec.pairing at left right ⊢
    have lengths : a.numbers.length = b.numbers.length := by
      rw [ha.fits.length_numbers, hb.fits.length_numbers]
    have lengths' : a'.numbers.length = b'.numbers.length := by
      rw [ha'.fits.length_numbers, hb'.fits.length_numbers]
    rw [numbers, numbers', sumProducts_add lengths, left, right, sumProducts_comm x.numbers,
      sumProducts_comm x.numbers b'.numbers,
      sumProducts_comm x.numbers (List.zipWith _ _ _), sumProducts_add lengths']
    · rw [hx.fits.length_numbers, ha'.fits.length_numbers]
    · rw [hy.fits.length_numbers, ha.fits.length_numbers]

/-- What multiplies every number of every value. -/
theorem scaled (post : Vec Exact → Vec Exact) (c : ℂ)
    (scales : ∀ {r : Structure} {x : Vec Exact}, (r = s ∨ r = t) → x.Inhabits r →
      (post x).Inhabits r ∧ (post x).numbers = x.numbers.map fun z => c * z)
    (h : Transposes s t f g) :
    Transposes s t (fun x => do pure (post (← f x))) (fun y => do pure (post (← g y))) := by
  refine ⟨?_, ?_, ?_⟩
  · intro x hx
    obtain ⟨z, made, hz⟩ := h.forth hx
    exact ⟨post z, by rw [made]; rfl, (scales (.inr rfl) hz).1⟩
  · intro y hy
    obtain ⟨w, made, hw⟩ := h.back hy
    exact ⟨post w, by rw [made]; rfl, (scales (.inl rfl) hw).1⟩
  · intro x y z w hx hy forward backward
    obtain ⟨a, made, forward⟩ := bind_accepts.mp forward
    obtain ⟨b, made', backward⟩ := bind_accepts.mp backward
    cases forward
    cases backward
    have pairing := h.pairing hx hy made made'
    unfold Vec.pairing at pairing ⊢
    rw [(scales (.inr rfl) (h.forth_of hx made)).2,
      (scales (.inl rfl) (h.symm.forth_of hy made')).2,
      sumProducts_map (fun _ => rfl), pairing, sumProducts_comm x.numbers (List.map _ _),
      sumProducts_map (fun _ => rfl), sumProducts_comm]

/-- The product with a vector within the structure. -/
theorem times {d d' : Vec Exact} (hd : d.Within s) (hd' : d'.Within s)
    (same : d'.numbers = d.numbers) : Transposes s s d.times d'.times where
  forth hx := by
    obtain ⟨z, made, hz, _⟩ := hd.times hx
    exact ⟨z, made, hz⟩
  back hy := by
    obtain ⟨w, made, hw, _⟩ := hd'.times hy
    exact ⟨w, made, hw⟩
  pairing hx hy forward backward := by
    obtain ⟨z, made, _, numbers⟩ := hd.times hx
    obtain ⟨w, made', _, numbers'⟩ := hd'.times hy
    cases forward.symm.trans made
    cases backward.symm.trans made'
    unfold Vec.pairing
    rw [numbers, numbers', same]
    refine sumProducts_mul ?_ ?_
    · rw [hx.fits.length_numbers, hd.fits.length_numbers]
    · rw [hy.fits.length_numbers, hd.fits.length_numbers]

end Transposes

end ForwardBackward
