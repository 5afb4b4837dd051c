/-
# ForwardBackward.Regularizer -- the catalogue of regularizers

A regularizer `g` is known by two functions: its value, and its proximal step

    prox v γ = (p, g(p)),   p minimises g(u) + ‖u - v‖² / (2 γ).

Each regularizer of the catalogue acts on every entry of every leaf:

* `zero`: the step does nothing;
* `l1 λ`, `λ ‖x‖₁`: the modulus of an entry shrinks by `γ λ`, down to zero;
* `l0 λ`, `λ` times the number of nonzero entries: an entry whose modulus is at
  most `√(2 γ λ)` becomes zero;
* `l2 λ`, `λ/2 ‖x‖²`: every entry is divided by `1 + γ λ`;
* `box lower upper`, zero inside the box and infinite outside: an entry is moved
  to the nearest bound.  Its step reports the value zero without looking.

Values are summed over the leaves in leaf order, as fractions from the start.
The bounds of a box are arrays that broadcast against every leaf, or bare
numbers.  The step of `zero` and of `l2` leaves bare numbers bare.
-/
import ForwardBackward.Vec

namespace ForwardBackward

set_option autoImplicit false

/-- A regularizer of the catalogue. -/
inductive Regularizer (R : Type) [Scalar R] where
  | zero
  | l1 (weight : R)
  | l0 (weight : R)
  | l2 (weight : R)
  | box (lower upper : NDArray R)

namespace NDArray

variable {R : Type} [Scalar R]

/-- A function of every entry and its modulus.  Whole numbers are read as fractions. -/
def withMagnitude (f : Precision → R → R → R) (g : Precision → Cartesian R → R → Cartesian R)
    (a : NDArray R) : NDArray R :=
  zipSame ⟨fun _ x _ => x, f, fun p z m => g p z m.re⟩ a (a.magnitudes.toFractional .loose)
    (a.magnitudes.shape_toFractional .loose).symm

/-- Every modulus lowered by `t`, down to zero.  The factor of an entry `v` is
`max (|v| - t) 0 / |v|`, with the denominator `1` where `v` is zero. -/
def softThreshold (t : R) (a : NDArray R) : NDArray R :=
  let factor (p : Precision) (m : R) : R :=
    p.div (p.max (p.sub m (p.ofNumber t)) 0) (if p.lt 0 m then m else 1)
  a.withMagnitude (fun p x m => p.mul x (factor p m))
    fun p z m => Cartesian.mul p z (.ofReal (factor p m))

/-- Zero in place of every entry whose modulus is not above `t`. -/
def hardThreshold (t : R) (a : NDArray R) : NDArray R :=
  a.withMagnitude (fun p x m => if p.lt (p.ofNumber t) m then x else 0)
    fun p z m => if p.lt (p.ofNumber t) m then z else .zero

/-- Every entry moved to the nearest bound: up to the lower one, then down to
the upper one. -/
def clip (a lower upper : NDArray R) : Except Fault (NDArray R) := do
  let a ← a.asArray
  if a.kind.isComplex || lower.kind.isComplex || upper.kind.isComplex then
    throw .clipOfComplex
  zipWith .min upper (← zipWith .max lower a)

/-- Whether every entry lies between the bounds. -/
def isInside (a lower upper : NDArray R) : Except Fault Bool := do
  let above ← lower.le a
  let below ← a.le upper
  pure (← mul above below).entries.allTrue

end NDArray

namespace Regularizer

variable {R : Type} [Scalar R]

/-- A weight that is not negative; a not-a-number is not. -/
def checkWeight (weight : R) : Except Fault R :=
  if Scalar.lt weight 0 then .error .negativeWeight else .ok weight

/-- The multiple `c` of a sum, in the precision of the sum. -/
def weigh (c : R) (total : Entries R) : R :=
  (total.mapInexact (fun p x => p.mul (p.ofNumber c) x)
    fun p z => Cartesian.mul p (.ofReal (p.ofNumber c)) z).first

/-- The sum over the leaves of the entries of `f`. -/
def sumLeaves (f : Entries R → Entries R) (x : Vec R) : Entries R :=
  Entries.total .looseZero (x.leaves.map fun a => (f a.entries).sum)

/-- Whether all leaves lie between the bounds; the first that does not decides. -/
def insideAll (lower upper : NDArray R) : List (NDArray R) → Except Fault Bool
  | [] => .ok true
  | a :: rest => do
      if ← a.isInside lower upper then insideAll lower upper rest else pure false

/-- The value `g(x)`. -/
def value (g : Regularizer R) (x : Vec R) : Except Fault R :=
  match g with
  | zero => .ok 0
  | l1 weight => do pure (weigh weight (sumLeaves Entries.magnitudes (← x.asArrays)))
  | l0 weight => .ok (weigh weight (sumLeaves Entries.nonzeros x))
  | l2 weight => do
      pure (weigh (0.5 * weight) (sumLeaves (fun e => e.magnitudes.squares) (← x.asArrays)))
  | box lower upper => do
      pure (if ← insideAll lower upper x.leaves then 0 else Scalar.infinity)

/-- The proximal point. -/
def point (g : Regularizer R) (v : Vec R) (gamma : R) : Except Fault (Vec R) :=
  match g with
  | zero => .ok v
  | l1 weight => do pure ((← v.asArrays).map (NDArray.softThreshold (gamma * weight)))
  | l0 weight => do
      let threshold := Precision.loose.sqrt (2 * gamma * weight)
      pure ((← v.asArrays).map (NDArray.hardThreshold threshold))
  | l2 weight => v.traverse fun a => a.divide (1 + gamma * weight)
  | box lower upper => v.traverse fun a => a.clip lower upper

/-- The proximal point and the value there. -/
def prox (g : Regularizer R) (v : Vec R) (gamma : R) : Except Fault (Vec R × R) := do
  let p ← g.point v gamma
  match g with
  | box _ _ => pure (p, 0)
  | g => pure (p, ← g.value p)

end Regularizer

end ForwardBackward
