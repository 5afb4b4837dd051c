/-
# ForwardBackward.Proofs.Parallel -- two computations side by side

Two computations in one environment are *parallel* if they end alike from every
environment: both return, related results, or both are refused, for the same
reason; and they leave the same environment behind (`Parallel`).  Computations in
steps are parallel if their steps are (`Parallel.bind`), so what runs over vectors
of two representations is parallel as soon as the operations on vectors are.

`Vec.Congruence` lists those operations: all that a run does with its variable is
in it, and `Vec.Additive` is what it does with the images.  A history is parallel to
another one slot by slot (`History.update_agrees`, `History.direction_agrees`).

A relation between vectors and themselves is a property of vectors.  What every
operation keeps, a run beside itself keeps.
-/
import ForwardBackward.History
import ForwardBackward.Proofs.Computations
import Mathlib.Data.List.Forall2

namespace ForwardBackward

set_option autoImplicit false

/-! ## Refusals -/

section Refusals

variable {ε α α' β β' : Type}

/-- Both are refused for the same reason, or neither is and the results are related. -/
inductive Agrees (rel : α → α' → Prop) : Except ε α → Except ε α' → Prop where
  | ok {a : α} {a' : α'} : rel a a' → Agrees rel (.ok a) (.ok a')
  | error {e : ε} : Agrees rel (.error e) (.error e)

namespace Agrees

variable {rel : α → α' → Prop} {rel' : β → β' → Prop} {x : Except ε α} {x' : Except ε α'}

theorem of_eq {x x' : Except ε α} (same : x' = x) : Agrees (fun a a' => a' = a) x x' := by
  subst same
  cases x' with
  | ok a => exact .ok rfl
  | error e => exact .error

theorem eq {x x' : Except ε α} (agrees : Agrees (fun a a' => a' = a) x x') : x' = x := by
  cases agrees with
  | ok same => rw [same]
  | error => rfl

theorem pure {a : α} {a' : α'} (related : rel a a') :
    Agrees rel (Pure.pure a : Except ε α) (Pure.pure a') := .ok related

theorem bind {f : α → Except ε β} {f' : α' → Except ε β'} (first : Agrees rel x x')
    (rest : ∀ a a', rel a a' → Agrees rel' (f a) (f' a')) :
    Agrees rel' (x >>= f) (x' >>= f') := by
  cases first with
  | ok related => exact rest _ _ related
  | error => exact .error

/-- The same first step, and then what agrees on its result. -/
theorem bind_eq {x x' : Except ε α} {f : α → Except ε β} {f' : α → Except ε β'} (same : x' = x)
    (rest : ∀ a, Agrees rel' (f a) (f' a)) : Agrees rel' (x >>= f) (x' >>= f') := by
  refine .bind (.of_eq same) ?_
  rintro _ a rfl
  exact rest a

theorem ite {p p' : Prop} [Decidable p] [Decidable p'] {y : Except ε α} {y' : Except ε α'}
    (same : p' ↔ p) (yes : p → Agrees rel x x') (no : ¬p → Agrees rel y y') :
    Agrees rel (if p then x else y) (if p' then x' else y') := by
  by_cases holds : p
  · rw [if_pos holds, if_pos (same.mpr holds)]
    exact yes holds
  · rw [if_neg holds, if_neg fun holds' => holds (same.mp holds')]
    exact no holds

end Agrees

end Refusals

/-! ## Computations -/

section Steps

variable {ε σ α α' β β' : Type}

/-- The outcomes are alike, and so are the environments left behind. -/
inductive Alike (rel : α → α' → Prop) :
    EStateM.Result ε σ α → EStateM.Result ε σ α' → Prop where
  | ok {a : α} {a' : α'} {w : σ} : rel a a' → Alike rel (.ok a w) (.ok a' w)
  | error {e : ε} {w : σ} : Alike rel (.error e w) (.error e w)

/-- The outcomes are alike in every environment. -/
def Parallel (rel : α → α' → Prop) (m : EStateM ε σ α) (m' : EStateM ε σ α') : Prop :=
  ∀ w, Alike rel (m w) (m' w)

namespace Parallel

variable {rel : α → α' → Prop} {rel' : β → β' → Prop} {m n : EStateM ε σ α}
  {m' n' : EStateM ε σ α'}

theorem pure {a : α} {a' : α'} (related : rel a a') :
    Parallel rel (Pure.pure a : EStateM ε σ α) (Pure.pure a') := fun _ => .ok related

theorem throw (e : ε) :
    Parallel rel (MonadExcept.throw e : EStateM ε σ α) (MonadExcept.throw e) := fun _ => .error

/-- A computation beside itself. -/
theorem same (m : EStateM ε σ α) : Parallel (fun a a' => a' = a) m m := by
  intro w
  cases m w with
  | ok a w => exact .ok rfl
  | error e w => exact .error

theorem of_eq {m m' : EStateM ε σ α} (equal : m' = m) : Parallel (fun a a' => a' = a) m m' :=
  equal ▸ same m'

theorem bind {f : α → EStateM ε σ β} {f' : α' → EStateM ε σ β'} (first : Parallel rel m m')
    (rest : ∀ a a', rel a a' → Parallel rel' (f a) (f' a')) :
    Parallel rel' (m >>= f) (m' >>= f') := by
  intro w
  change Alike rel' (EStateM.bind m f w) (EStateM.bind m' f' w)
  unfold EStateM.bind
  have alike := first w
  generalize m w = outcome at alike
  generalize m' w = outcome' at alike
  cases alike with
  | ok related => exact rest _ _ related _
  | error => exact .error

/-- The same first step, and then what is parallel on its result. -/
theorem bind_eq {m m' : EStateM ε σ α} {f : α → EStateM ε σ β} {f' : α → EStateM ε σ β'}
    (equal : m' = m) (rest : ∀ a, Parallel rel' (f a) (f' a)) :
    Parallel rel' (m >>= f) (m' >>= f') := by
  refine .bind (.of_eq equal) ?_
  rintro _ a rfl
  exact rest a

theorem ite {p p' : Prop} [Decidable p] [Decidable p'] (same : p' ↔ p)
    (yes : p → Parallel rel m m') (no : ¬p → Parallel rel n n') :
    Parallel rel (if p then m else n) (if p' then m' else n') := by
  by_cases holds : p
  · rw [if_pos holds, if_pos (same.mpr holds)]
    exact yes holds
  · rw [if_neg holds, if_neg fun holds' => holds (same.mp holds')]
    exact no holds

theorem imp {rel' : α → α' → Prop} (parallel : Parallel rel m m')
    (each : ∀ a a', rel a a' → rel' a a') : Parallel rel' m m' := by
  intro w
  have alike := parallel w
  generalize m w = outcome at alike ⊢
  generalize m' w = outcome' at alike ⊢
  cases alike with
  | ok related => exact .ok (each _ _ related)
  | error => exact .error

/-- Where one returns, the other returns something related in the same environment. -/
theorem returns (parallel : Parallel rel m m') {a : α} {w w₁ : σ} (returned : m w = .ok a w₁) :
    ∃ a', m' w = .ok a' w₁ ∧ rel a a' := by
  have alike := parallel w
  rw [returned] at alike
  generalize m' w = outcome at alike ⊢
  cases alike with
  | ok related => exact ⟨_, rfl, related⟩

end Parallel

end Steps

namespace Parallel

variable {σ R α α' : Type} {rel : α → α' → Prop}

theorem lift {x : Except Fault α} {x' : Except Fault α'} (agrees : Agrees rel x x') :
    Parallel rel (liftM x : Call σ α) (liftM x') := by
  cases agrees with
  | ok related => exact .pure related
  | error => exact .throw _

theorem call {c : Call σ α} {c' : Call σ α'} (parallel : Parallel rel c c') :
    Parallel rel (Run.call c : Run σ R α) (Run.call c') := by
  intro w
  unfold Run.call
  have alike := parallel w.env
  generalize c w.env = outcome at alike
  generalize c' w.env = outcome' at alike
  cases alike with
  | ok related => exact .ok related
  | error => exact .error

theorem refuse {x : Except Fault α} {x' : Except Fault α'} (agrees : Agrees rel x x') :
    Parallel rel (Run.refuse x : Run σ R α) (Run.refuse x') := by
  cases agrees with
  | ok related => exact .pure related
  | error => exact .throw _

end Parallel

/-! ## Vectors -/

section Vectors

variable {R : Type} [Scalar R]

namespace Vec

/-- What is done with images is done alike. -/
structure Additive (T : Vec R → Vec R → Prop) : Prop where
  scale {x x' : Vec R} (c : R) : T x x' → T (x.scale c) (x'.scale c)
  add {x x' y y' : Vec R} : T x x' → T y y' → Agrees T (x.add y) (x'.add y')
  asArrays {x x' : Vec R} : T x x' → Agrees T x.asArrays x'.asArrays
  norm {x x' : Vec R} : T x x' → x'.norm = x.norm

/-- What is done with a variable, a gradient or a direction is done alike. -/
structure Congruence (S : Vec R → Vec R → Prop) : Prop extends Additive S where
  shift {x x' : Vec R} (c : R) : S x x' → S (x.shift c) (x'.shift c)
  sub {x x' y y' : Vec R} : S x x' → S y y' → Agrees S (x.sub y) (x'.sub y')
  inner {x x' y y' : Vec R} : S x x' → S y y' → x'.inner y' = x.inner y
  size {x x' : Vec R} : S x x' → x'.size = x.size
  machineEps {x x' : Vec R} : S x x' → x'.machineEps = x.machineEps
  allFinite {x x' : Vec R} : S x x' → x'.allFinite = x.allFinite
  isFinite {x x' : Vec R} : S x x' → x'.isFinite = x.isFinite
  zeros {x x' : Vec R} : S x x' → S (Vec.zeros x.spec) (Vec.zeros x'.spec)
  fill {slot slot' x x' : Vec R} : S slot slot' → S x x' →
    Agrees S (History.fill slot x) (History.fill slot' x')

variable {S T : Vec R → Vec R → Prop} {x x' y y' : Vec R}

theorem Additive.axpy (additive : Additive T) (c : R) (hx : T x x') (hy : T y y') :
    Agrees T (Vec.axpy c x y) (Vec.axpy c x' y') :=
  additive.add (additive.scale c hx) hy

theorem Additive.sqnorm (additive : Additive T) (hx : T x x') : x'.sqnorm = x.sqnorm := by
  refine Agrees.eq (.bind (additive.asArrays hx) fun a a' related => .of_eq ?_)
  rw [additive.norm related]

theorem Congruence.sqrtEps (congruence : Congruence S) (hx : S x x') :
    x'.sqrtEps = x.sqrtEps := by
  unfold Vec.sqrtEps
  rw [congruence.machineEps hx]

end Vec

/-- The same step of a proximal map, related in its point and equal in its value. -/
def Prox.Related (S : Vec R → Vec R → Prop) (p p' : Vec R × R) : Prop := S p.1 p'.1 ∧ p'.2 = p.2

end Vectors

/-! ## Histories -/

section Histories

variable {R : Type} [Scalar R] {S : Vec R → Vec R → Prop}

/-- Slots with related pairs and the same factor. -/
structure SecantPair.Paired (S : Vec R → Vec R → Prop) (p p' : SecantPair R) : Prop where
  s : S p.s p'.s
  y : S p.y p'.y
  rho : p'.rho = p.rho

namespace History

/-- Histories of related slots. -/
structure Paired (S : Vec R → Vec R → Prop) (h h' : History R) : Prop where
  slots : List.Forall₂ (SecantPair.Paired S) h.slots h'.slots
  head : h'.head = h.head
  size : h'.size = h.size
  rejected : h'.rejected = h.rejected

variable {h h' : History R} {x x' r r' xPrev xPrev' rPrev rPrev' : Vec R}

theorem empty_paired (congruence : Vec.Congruence S) (hx : S x x') (capacity : Nat) :
    Paired S (empty x capacity) (empty x' capacity) where
  slots := by
    have zero := congruence.zeros hx
    induction capacity with
    | zero => exact .nil
    | succ n ih => exact .cons ⟨zero, zero, rfl⟩ ih
  head := rfl
  size := rfl
  rejected := rfl

theorem Paired.capacity (paired : Paired S h h') : h'.capacity = h.capacity :=
  paired.slots.length_eq.symm

/-- The slots in one place are both there, and paired, or both missing. -/
theorem Paired.slot (paired : Paired S h h') (i : Nat) :
    (h.slots[i]? = none ∧ h'.slots[i]? = none) ∨
      ∃ p p', h.slots[i]? = some p ∧ h'.slots[i]? = some p' ∧ SecantPair.Paired S p p' := by
  have length := paired.slots.length_eq
  by_cases inside : i < h.slots.length
  · have inside' : i < h'.slots.length := length ▸ inside
    exact .inr ⟨_, _, List.getElem?_eq_getElem inside, List.getElem?_eq_getElem inside',
      paired.slots.get inside inside'⟩
  · exact .inl ⟨List.getElem?_eq_none (by omega), List.getElem?_eq_none (by omega)⟩

theorem Paired.recent (paired : Paired S h h') :
    List.Forall₂ (SecantPair.Paired S) h.recent h'.recent := by
  unfold History.recent
  rw [paired.size, paired.head, paired.capacity]
  induction List.range h.size with
  | nil => exact .nil
  | cons k ks ih =>
      rw [List.filterMap_cons, List.filterMap_cons]
      rcases paired.slot ((h.head + h.capacity - 1 - k) % h.capacity) with
        ⟨missing, missing'⟩ | ⟨p, p', found, found', pair⟩
      · rw [missing, missing']
        exact ih
      · rw [found, found']
        exact .cons pair ih

theorem Paired.set {p p' : SecantPair R} (paired : Paired S h h') (pair : p.Paired S p') {i : Nat} :
    List.Forall₂ (SecantPair.Paired S) (h.slots.set i p) (h'.slots.set i p') := by
  have slots := paired.slots
  generalize h.slots = ps, h'.slots = ps' at slots
  induction slots generalizing i with
  | nil => exact .nil
  | cons head tail ih =>
      cases i with
      | zero => exact .cons pair tail
      | succ i => exact .cons head ih

theorem store_agrees (congruence : Vec.Congruence S) {s s' y y' : Vec R} (paired : Paired S h h')
    (hs : S s s') (hy : S y y') (curvature : R) :
    Agrees (Paired S) (h.store s y curvature) (h'.store s' y' curvature) := by
  unfold store
  rw [paired.head, paired.capacity, paired.size]
  rcases paired.slot h.head with ⟨missing, missing'⟩ | ⟨p, p', found, found', pair⟩
  · rw [missing, missing']
    exact .ok paired
  · rw [found, found']
    refine .bind (congruence.fill pair.s hs) fun a a' ha =>
      .bind (congruence.fill pair.y hy) fun b b' hb => .pure ?_
    have filled : SecantPair.Paired S ⟨a, b, 1 / curvature⟩ ⟨a', b', 1 / curvature⟩ := ⟨ha, hb, rfl⟩
    exact ⟨paired.set filled, rfl, rfl, paired.rejected⟩

theorem accepts_eq (congruence : Vec.Congruence S) {s s' y y' : Vec R} (hs : S s s') (hy : S y y')
    (curvature : R) : accepts s' y' curvature = accepts s y curvature := by
  unfold accepts
  rw [congruence.norm hs, congruence.norm hy, congruence.allFinite hs, congruence.allFinite hy]

theorem update_agrees (congruence : Vec.Congruence S) (paired : Paired S h h') (hx : S x x')
    (hxPrev : S xPrev xPrev') (hr : S r r') (hrPrev : S rPrev rPrev') :
    Agrees (Paired S) (h.update x xPrev r rPrev) (h'.update x' xPrev' r' rPrev') := by
  exact .ite (by rw [paired.capacity]) (fun _ => .pure paired) fun _ =>
    .bind (congruence.sub hx hxPrev) fun s s' hs =>
    .bind (congruence.sub hr hrPrev) fun y y' hy =>
    .bind_eq (congruence.inner hs hy) fun curvature =>
    .ite (by rw [accepts_eq congruence hs hy])
      (fun _ => store_agrees congruence paired hs hy curvature)
      fun _ => .pure ⟨paired.slots, paired.head, paired.size, congrArg (· + 1) paired.rejected⟩

theorem twoLoop_agrees (congruence : Vec.Congruence S)
    {start start' : Vec R → Except Fault (Vec R)}
    (starts : ∀ q q', S q q' → Agrees S (start q) (start' q')) {ps ps' : List (SecantPair R)}
    (pairs : List.Forall₂ (SecantPair.Paired S) ps ps') {q q' : Vec R} (hq : S q q') :
    Agrees S (twoLoop start ps q) (twoLoop start' ps' q') := by
  induction pairs generalizing q q' with
  | nil => exact starts q q' hq
  | @cons p p' ps ps' pair _ ih =>
      unfold twoLoop
      rw [pair.rho]
      exact .bind_eq (congruence.inner pair.s hq) fun slope =>
        .bind (congruence.sub hq (congruence.scale _ pair.y)) fun t t' ht =>
        .bind (ih ht) fun z z' hz =>
        .bind_eq (congruence.inner pair.y hz) fun slope =>
        congruence.add hz (congruence.scale _ pair.s)

theorem scaling_agrees (congruence : Vec.Congruence S) {p p' : SecantPair R} (pair : p.Paired S p')
    {q q' : Vec R} (hq : S q q') : Agrees S (scaling p q) (scaling p' q') := by
  unfold scaling
  rw [pair.rho]
  exact .bind_eq (congruence.sqnorm pair.y) fun square =>
    .bind_eq rfl fun factor => .pure (congruence.scale _ hq)

theorem direction_agrees (congruence : Vec.Congruence S) (paired : Paired S h h') (hr : S r r') :
    Agrees S (h.direction r) (h'.direction r') := by
  have back := congruence.scale (-1) hr
  have recent := paired.recent
  unfold direction
  generalize h.recent = ps, h'.recent = ps' at recent
  cases recent with
  | nil => exact .ok back
  | cons newest older =>
      refine .bind_eq (congruence.isFinite hr) fun finite =>
        .ite Iff.rfl (fun _ => .bind (twoLoop_agrees congruence
          (fun q q' => scaling_agrees congruence newest) (.cons newest older) hr) ?_)
        fun _ => .pure back
      intro z z' hz
      have down := congruence.scale (-1) hz
      refine .pure ?_
      rw [congruence.allFinite down]
      split <;> assumption

end History

end Histories

end ForwardBackward
