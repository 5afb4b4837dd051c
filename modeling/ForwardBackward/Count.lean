/-
# ForwardBackward.Count -- numbers of settings that count something

Where a setting counts iterations, trials or slots, any number in range is
accepted and read as a count.  A truth value counts as zero or one and keeps its
own spelling; a fraction is refused only where the count is used.
-/
import ForwardBackward.Fault

namespace ForwardBackward

set_option autoImplicit false

/-- The number of a setting that counts something. -/
inductive Count (R : Type) where
  | whole (n : Nat)
  | flag (b : Bool)
  | fraction (x : R)

namespace Count

variable {R : Type}

/-- The count; a fraction has none. -/
def toNat : Count R → Except Fault Nat
  | whole n => .ok n
  | flag b => .ok b.toNat
  | fraction _ => .error .fractionAsCount

/-- The count, where it is one of slots of a memory. -/
def slots (c : Count R) : Except Fault Nat := c.toNat.mapError fun _ => .fractionalMemory

/-- A count as a message shows it. -/
def text : Count R → String
  | whole n => toString n
  | flag b => if b then "True" else "False"
  | fraction _ => ""

end Count

end ForwardBackward
