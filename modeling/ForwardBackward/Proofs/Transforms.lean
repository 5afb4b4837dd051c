/-
# ForwardBackward.Proofs.Transforms -- transforms whose parts fit

A transform is *formed* if its parts fit and its numbers are finite (`Formed`).  The
transpose of such a transform, defined by structure, is formed (`Formed.transpose`) and
leads the other way (`domain_transpose`, `codomain_transpose`).

An identity multiplies by ones of double precision whatever its structure is, so a value
of a sum or a composition may be wider than the structure that it is said to have.
`Wide` transforms have no identity of another precision in them, and `Steady` ones are
wide wherever a diagonal or a band stands for a sum or a composition.

A linear function is *sound* if its transpose is one (`LinearFunction.Sound`), as a
multiple of the catalogue is (`LinearFunction.scale_sound`).
-/
import ForwardBackward.Proofs.Matrices

namespace ForwardBackward

set_option autoImplicit false

/-! ## Structures -/

/-- A structure of arrays none of which gives way. -/
def Structure.Firm (s : Structure) : Prop := ∀ p ∈ s.leaves, p.kind.firm = p.kind

/-- A structure of arrays of double precision. -/
def Structure.Wide (s : Structure) : Prop :=
  ∀ p ∈ s.leaves, p.kind = .real .double ∨ p.kind = .complex .double

namespace Structure

variable {s : Structure}

theorem Firm.toInexact (firm : s.Firm) : s.toInexact.Firm := by
  intro p inside
  obtain ⟨q, member, rfl⟩ := List.mem_map.mp inside
  have same := firm q member
  change (q.kind.toFractional .single).firm = q.kind.toFractional .single
  cases kind : q.kind with
  | whole w => rfl
  | real r | complex r => rw [kind] at same; exact same

end Structure

namespace Vec

variable {s : Structure} {x : Vec Exact}

theorem Inhabits.spec_eq (firm : s.Firm) (hx : x.Inhabits s) : x.spec = s := by
  refine Tree.ext hx.skeleton ?_
  have each := (List.forall₂_and_left _ _).mpr ⟨firm, hx.leaves⟩
  refine List.forall₂_eq_eq_eq ▸ (List.forall₂_map_left_iff.mpr (each.flip.imp ?_))
  rintro a p ⟨firm, inhabits⟩
  rw [NDArray.spec, inhabits.toKeeps.kind, firm, inhabits.shape]

theorem Inhabits.hasStructure (firm : s.Firm) (hx : x.Inhabits s) : x.hasStructure s = true :=
  decide_eq_true ⟨hx.skeleton, congrArg Tree.leaves (hx.spec_eq firm)⟩

/-- Stored in the kinds that they have, arrays keep their numbers. -/
theorem Inhabits.castTo (hx : x.Inhabits s) :
    ∃ z, Vec.castTo s x = .ok z ∧ z.Inhabits s ∧ z.numbers = x.numbers := by
  have stays : ∀ {p : Spec} {a : NDArray Exact}, a.Inhabits p → (a.cast p.kind).Inhabits p ∧
      (a.cast p.kind).entries.numbers = a.entries.numbers := by
    intro p a ha
    obtain ⟨zs, denotes⟩ := ha.finite
    have kind : p.kind = a.kind := ha.toKeeps.kind.symm
    have cast := NDArray.cast_denotes (k := p.kind) (kind ▸ denotes.kind_ne_whole)
      (fun complex => kind ▸ complex) denotes
    have same : (a.cast p.kind).kind = p.kind := Entries.kind_cast _ _
    refine ⟨⟨⟨ha.shape, same⟩, ?_, _, cast⟩, by rw [cast.numbers_eq, denotes.numbers_eq]⟩
    rw [NDArray.isBare, same, kind]
    exact ha.notBare
  have self : Tree.Leafwise (· = ·) s s := ⟨rfl, List.forall₂_same.mpr fun _ _ => rfl⟩
  obtain ⟨z, made⟩ := self.combine (f := fun p (a : NDArray Exact) => .ok (a.cast p.kind)) hx
    fun p _ q a _ _ => ⟨_, rfl⟩
  refine ⟨z, made, self.of_combine hx made ?_, numbers_congr ?_⟩
  · rintro p _ a _ rfl ha ⟨⟩
    exact (stays ha).1
  · obtain ⟨_, leaves⟩ := Tree.forall_of_combineParts_same hx.skeleton.symm made
    refine forall_of_zip
      (f := fun (p : Spec) (a c : NDArray Exact) =>
        (.ok (a.cast p.kind) : Except Fault (NDArray Exact)) = .ok c)
      hx.leaves.flip (List.forall₂_same.mpr fun _ _ => rfl) ?_ leaves
    rintro a p _ c ha rfl ⟨⟩
    exact (stays ha).2

end Vec

/-- A linear function between structures of arrays, and its plain transpose. -/
structure LinearFunction.Sound (f : LinearFunction Exact) : Prop where
  domain : f.domain.Firm
  codomain : f.codomain.Firm
  maps : Transposes f.domain f.codomain f.map f.transposedMap

/-- The check of the argument refuses no vector of the domain. -/
theorem LinearFunction.Sound.transposes {f : LinearFunction Exact} (sound : f.Sound) :
    Transposes f.domain f.codomain f.apply f.transpose.apply := by
  have passes : ∀ {f : LinearFunction Exact} {x : Vec Exact}, f.domain.Firm →
      x.Inhabits f.domain → f.apply x = f.map x := by
    intro f x firm hx
    have arrays : x.leaves.any NDArray.isBare = false := by
      refine List.any_eq_false.mpr fun a inside => ?_
      obtain ⟨p, _, inhabits⟩ := exists_of_mem_right hx.leaves inside
      rw [inhabits.notBare]
      exact Bool.false_ne_true
    unfold LinearFunction.apply
    rw [hx.hasStructure firm, arrays]
    rfl
  exact sound.maps.congr (passes sound.domain) (passes (f := f.transpose) sound.codomain)

/-- An identity is its own transpose. -/
theorem Transposes.identity {s : Structure} (firm : s.Firm) :
    Transposes s s (Transform.identity s).apply (Transform.identity s).apply := by
  have stays : ∀ {x : Vec Exact}, x.Inhabits s → (Transform.identity s).apply x = .ok x :=
    fun hx => if_pos (hx.hasStructure firm)
  refine ⟨fun hx => ⟨_, stays hx, hx⟩, fun hy => ⟨_, stays hy, hy⟩, ?_⟩
  intro x y z w hx hy forward backward
  cases forward.symm.trans (stays hx)
  cases backward.symm.trans (stays hy)
  rfl

namespace Transform

/-! ## Transforms whose parts fit -/

/-- A transform of finite numbers whose parts fit. -/
inductive Formed : Transform Exact → Prop where
  | matrix {rows columns : Nat} {m : NDArray Exact} {fits : m.shape = [rows, columns]} :
      m.Solid → Formed (matrix rows columns m fits)
  | identity {s : Structure} : s.Firm → Formed (identity s)
  | diagonal {d : NDArray Exact} : d.Solid → Formed (diagonal d)
  | tridiagonal {n : Nat} {d lower upper : NDArray Exact}
      {fits : d.shape = [n + 1] ∧ lower.shape = [n] ∧ upper.shape = [n]} :
      d.Solid → lower.Solid → upper.Solid → Formed (tridiagonal n d lower upper fits)
  | function {f : LinearFunction Exact} : f.Sound → Formed (function f)
  | compose {p q : Transform Exact} : Formed p → Formed q → p.domain = q.codomain →
      Formed (compose p q)
  | sum {p q : Transform Exact} : Formed p → Formed q → p.domain = q.domain →
      p.codomain = q.codomain → Formed (sum p q)
  | negative {p : Transform Exact} : Formed p → Formed (negative p)
  | multiple {p : Transform Exact} (c : ℝ) : Formed p → Formed (multiple (.real c) p)
  | complexMultiple {p : Transform Exact} (c : ℂ) : p.domain.Complex → p.codomain.Complex →
      Formed p → Formed (complexMultiple (.ofComplex c) p)

variable {R : Type} [Scalar R]

/-- Whether all identities in a transform are of double precision. -/
def Wide : Transform R → Prop
  | identity s => s.Wide
  | compose p q | sum p q => p.Wide ∧ q.Wide
  | negative p | multiple _ p | complexMultiple _ p => p.Wide
  | _ => True

/-- Whether all identities are of double precision in the parts that one diagonal or one band
stands for. -/
def Steady : Transform R → Prop
  | compose p q =>
      p.Steady ∧ q.Steady ∧ ((compose p q).diagonal?.isSome → p.Wide ∧ q.Wide)
  | sum p q =>
      p.Steady ∧ q.Steady ∧
        ((sum p q).diagonal?.isSome ∨ (sum p q).band?.isSome → p.Wide ∧ q.Wide)
  | negative p | multiple _ p | complexMultiple _ p => p.Steady
  | _ => True

/-! ## The transpose -/

theorem kind_transpose (m : NDArray R) : m.transpose.kind = m.kind := by
  unfold NDArray.transpose
  split
  · exact (Entries.kind_gather _ _ _).trans (Entries.kind_gather _ _ _)
  · rfl

theorem domain_transpose (t : Transform R) : t.transpose.domain = t.codomain := by
  induction t with
  | matrix rows columns m fits => rw [transpose, domain, codomain, kind_transpose]
  | compose p q hp hq => exact hp
  | sum p q hp hq => exact hp
  | negative p hp => exact hp
  | multiple c p hp => exact hp
  | complexMultiple c p hp => exact hp
  | identity | diagonal | tridiagonal | function => rfl

theorem codomain_transpose (t : Transform R) : t.transpose.codomain = t.domain := by
  induction t with
  | matrix rows columns m fits => rw [transpose, domain, codomain, kind_transpose]
  | compose p q hp hq => exact hq
  | sum p q hp hq => exact hp
  | negative p hp => exact hp
  | multiple c p hp => exact hp
  | complexMultiple c p hp => exact hp
  | identity | diagonal | tridiagonal | function => rfl

theorem Wide.transpose {t : Transform R} (wide : t.Wide) : t.transpose.Wide := by
  induction t with
  | compose p q hp hq => exact ⟨hq wide.2, hp wide.1⟩
  | sum p q hp hq => exact ⟨hp wide.1, hq wide.2⟩
  | negative p hp => exact hp wide
  | multiple c p hp => exact hp wide
  | complexMultiple c p hp => exact hp wide
  | identity => exact wide
  | matrix | diagonal | tridiagonal | function => trivial

theorem Formed.transpose {t : Transform Exact} (formed : t.Formed) : t.transpose.Formed := by
  induction formed with
  | @matrix rows columns m fits solid =>
      obtain ⟨ms, denotes⟩ := solid.finite
      obtain ⟨kind, ns, denotes', _⟩ := NDArray.transpose_denotes fits denotes
      exact .matrix ⟨by rw [NDArray.isBare, kind]; exact solid.notBare, ns, denotes'⟩
  | identity firm => exact .identity firm
  | diagonal solid => exact .diagonal solid
  | tridiagonal solid lower upper => exact .tridiagonal solid upper lower
  | function sound =>
      exact .function ⟨sound.codomain, sound.domain, sound.maps.symm⟩
  | @compose p q _ _ fits hp hq =>
      refine .compose hq hp ?_
      rw [domain_transpose, codomain_transpose, fits]
  | @sum p q _ _ fits fits' hp hq =>
      refine .sum hp hq ?_ ?_
      · rw [domain_transpose, domain_transpose, fits']
      · rw [codomain_transpose, codomain_transpose, fits]
  | negative _ hp => exact .negative hp
  | multiple c _ hp => exact .multiple c hp
  | @complexMultiple p c complex complex' _ hp =>
      exact .complexMultiple c (by rwa [domain_transpose]) (by rwa [codomain_transpose]) hp

end Transform

end ForwardBackward
