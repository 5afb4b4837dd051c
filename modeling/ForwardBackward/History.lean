/-
# ForwardBackward.History -- secant pairs and the directions they give

A `History` keeps the last few secant pairs `(s, y)` of a run, `s` a step of the
iterate and `y` the step of its residual, in a ring of slots.  `update` offers
it a pair: a pair that is not finite, that vanishes, or whose curvature `⟨s, y⟩`
is not clearly positive is only counted; any other pair goes to slot `head` and
replaces the oldest one once the ring is full.  A pair is stored in the kinds of
the slot; a sequence of arrays in the place of an array counts as one array.

`direction` is minus the product of a vector with the inverse-Hessian
approximation of the kept pairs, in the two-loop form: down the pairs from the
newest to the oldest, subtracting, then a scaling, and up again, adding.  If
there is no pair, or the vector or the product is not finite, it is minus the
vector.
-/
import ForwardBackward.Vec
import ForwardBackward.Count

namespace ForwardBackward

set_option autoImplicit false

/-- A slot of the ring: the pair and `1 / ⟨s, y⟩`. -/
structure SecantPair (R : Type) [Scalar R] where
  s : Vec R
  y : Vec R
  rho : R

/-- A ring of secant pairs. -/
structure History (R : Type) [Scalar R] where
  slots : List (SecantPair R)
  /-- The slot of the next pair. -/
  head : Nat
  /-- How many slots are filled. -/
  size : Nat
  /-- How many pairs were refused. -/
  rejected : Nat

namespace NDArray

variable {R : Type} [Scalar R]

/-- Arrays of one shape and kind as the members of one array along a new first axis. -/
def stackOf (s : Spec) (members : List (NDArray R)) : NDArray R :=
  ofEntries (members.length :: s.shape)
    (members.foldr (fun a e => a.entries.append e) (Entries.zeros 0 s.kind))

end NDArray

/-- Vectors of one structure stacked leaf by leaf. -/
def Vec.stack {R : Type} [Scalar R] (s : Structure) (members : List (Vec R)) : Vec R :=
  ⟨s.skeleton, s.leaves.mapIdx fun i p => NDArray.stackOf p (members.filterMap fun x => x.leaves[i]?),
    by rw [List.length_mapIdx, s.fits]⟩

namespace History

variable {R : Type} [Scalar R]

/-- Pairs with `⟨s, y⟩` up to this multiple of `‖s‖ ‖y‖` count as flat. -/
def flatness : R := 1e-10

/-- The history without pairs, with `capacity` slots shaped after `x`. -/
def empty (x : Vec R) (capacity : Nat) : History R :=
  let zero := Vec.zeros x.spec
  ⟨List.replicate capacity ⟨zero, zero, 0⟩, 0, 0, 0⟩

/-- The history without pairs, shaped after a vector of arrays. -/
def ofCapacity (x : Vec R) (capacity : Count R) : Except Fault (History R) := do
  pure (empty (← x.traverse (NDArray.requireArray "shape")) (← capacity.slots))

def capacity (h : History R) : Nat := h.slots.length

/-- All slots, filled or not: the steps, the changes of residual and the factors.  The
structure is that of the slots. -/
def memory (h : History R) (s : Structure) : Vec R × Vec R × List R :=
  (Vec.stack s (h.slots.map (·.s)), Vec.stack s (h.slots.map (·.y)), h.slots.map (·.rho))

/-- The filled slots, the newest first. -/
def recent (h : History R) : List (SecantPair R) :=
  (List.range h.size).filterMap fun k => h.slots[(h.head + h.capacity - 1 - k) % h.capacity]?

/-- Whether a pair is worth keeping: finite, not vanishing and of positive curvature. -/
def accepts (s y : Vec R) (curvature : R) : Bool :=
  let normS := s.norm
  let normY := y.norm
  (s.allFinite && y.allFinite && Scalar.isFinite curvature)
    && !(Scalar.le normS Scalar.tiny || Scalar.le normY Scalar.tiny
      || Scalar.le curvature (flatness * normS * normY))

/-- A vector stored over a slot of the ring. -/
def fill (slot x : Vec R) : Except Fault (Vec R) :=
  Tree.combineParts (fun a u => do a.storedIn (← Vec.toArray u)) slot x

/-- The history with a pair in slot `head`. -/
def store (h : History R) (s y : Vec R) (curvature : R) : Except Fault (History R) :=
  match h.slots[h.head]? with
  | none => .ok h
  | some slot => do
    let s ← fill slot.s s
    let y ← fill slot.y y
    pure { h with
      slots := h.slots.set h.head ⟨s, y, 1 / curvature⟩
      head := (h.head + 1) % h.capacity
      size := min (h.size + 1) h.capacity }

/-- Offers the pair `s = xbar - xbarPrev`, `y = r - rPrev`. -/
def update (h : History R) (xbar xbarPrev r rPrev : Vec R) : Except Fault (History R) := do
  if h.capacity = 0 then return h
  let s ← xbar.sub xbarPrev
  let y ← r.sub rPrev
  let curvature ← s.inner y
  if accepts s y curvature then h.store s y curvature
  else pure { h with rejected := h.rejected + 1 }

/-- The two loops over the pairs, the newest first, around the scaling `start`. -/
def twoLoop (start : Vec R → Except Fault (Vec R)) :
    List (SecantPair R) → Vec R → Except Fault (Vec R)
  | [], q => start q
  | p :: older, q => do
      let alpha := p.rho * (← p.s.inner q)
      let z ← twoLoop start older (← q.sub (p.y.scale alpha))
      let beta := p.rho * (← p.y.inner z)
      z.add (p.s.scale (alpha - beta))

/-- The scaling between the loops, `⟨s, y⟩ / ‖y‖²` of the newest pair. -/
def scaling (newest : SecantPair R) (q : Vec R) : Except Fault (Vec R) := do
  let h ← Scalar.quotient 1 (newest.rho * (← newest.y.sqnorm))
  pure (q.scale h)

/-- The quasi-Newton direction for a residual. -/
def direction (h : History R) (r : Vec R) : Except Fault (Vec R) :=
  match h.recent with
  | [] => .ok (r.scale (-1))
  | newest :: older => do
    if ← r.isFinite then
      let z ← twoLoop (scaling newest) (newest :: older) r
      let d := z.scale (-1)
      pure (if d.allFinite then d else r.scale (-1))
    else pure (r.scale (-1))

/-! ## Without slots -/

section

variable {h : History R}

theorem update_of_nil (none : h.slots = []) (xbar xbarPrev r rPrev : Vec R) :
    h.update xbar xbarPrev r rPrev = .ok h := by
  unfold update capacity
  rw [none]
  rfl

theorem direction_of_nil (none : h.slots = []) (r : Vec R) :
    h.direction r = .ok (r.scale (-1)) := by
  have recent : h.recent = [] := by
    unfold recent
    rw [none]
    simp
  unfold direction
  rw [recent]

end

end History

end ForwardBackward
