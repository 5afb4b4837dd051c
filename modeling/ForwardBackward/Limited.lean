/-
# ForwardBackward.Limited -- capabilities that work for a limited number of calls

To see what a run makes of bad answers, a capability is given a limit: beyond
that many calls, an operator returns entries that are not numbers, and a proximal
step returns such a point, or the right point with another value.  A predicate
can be delayed: it answers no for a number of consultations.

Each of them counts its own calls in the environment they share, `Uses`, under a
number of its own.
-/
import ForwardBackward.Halting

namespace ForwardBackward

set_option autoImplicit false

/-- How often each of several capabilities was used, by its number. -/
structure Uses where
  counts : List (Nat × Nat)

namespace Uses

def none : Uses := ⟨[]⟩

/-- How often capability `k` was used. -/
def get (u : Uses) (k : Nat) : Nat := (u.counts.lookup k).getD 0

/-- The counts after a use of capability `k`. -/
def use (u : Uses) (k : Nat) : Uses := ⟨(k, u.get k + 1) :: u.counts.filter (·.1 ≠ k)⟩

/-- Uses capability `k`; whether it was used more than `limit` times now. -/
def exceeds (k limit : Nat) : Call Uses Bool := do
  modify (·.use k)
  pure (limit < (← EStateM.get).get k)

end Uses

variable {R : Type} [Scalar R]

/-- A vector of the same structure without a number in it. -/
def Vec.spoil (x : Vec R) : Vec R := x.scale Scalar.undefined

/-- A linear operator whose products, of either direction, are spoilt after `limit` calls. -/
def Operator.limited (k limit : Nat) (A : Operator Uses R) : Operator Uses R :=
  let spoiling (f : Vec R → Call Uses (Vec R)) (x : Vec R) : Call Uses (Vec R) := do
    let late ← Uses.exceeds k limit
    let y ← f x
    pure (if late then y.spoil else y)
  { A with
    isLinear := true
    apply := spoiling A.apply
    applyLinear := spoiling A.apply
    applyAdjoint := spoiling A.applyAdjoint }

/-- A proximable function whose step, after `limit` calls, returns a spoilt point, or the
right point with another value. -/
def Prox.limited (k limit : Nat) (value : Option R) (g : Prox Uses R) : Prox Uses R :=
  { g with
    prox := fun v gamma => do
      let late ← Uses.exceeds k limit
      let (p, gp) ← g.prox v gamma
      pure (match late, value with
        | false, _ => (p, gp)
        | true, .none => (Vec.spoil p, gp)
        | true, some other => (p, other)) }

/-- No for the first `delay` consultations, then what a predicate answers. -/
def Predicate.delayed (k delay : Nat) (p : Predicate Uses R) : Predicate Uses R :=
  fun tol s u =>
    let u := u.use k
    if u.get k ≤ delay then (.decided false, u) else p tol s u

end ForwardBackward
