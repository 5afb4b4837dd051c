/-
# ForwardBackward.Array.Kind -- what the entries of an array are

An array holds whole numbers (truth values among them), real numbers or complex
numbers, of one width or precision.  Where two arrays meet, both are read in the
*join* of their kinds: complex if either is, in the wider precision; whole
numbers adapt to the precision of the other side.

Two forms of numbers give way where they meet a firm kind.  *Loose* ones stand in
arrays that come from numbers alone and take on the width or precision of any
other array of their sort; *bare* ones stand outside arrays, and their whole
numbers have no bound.  Bare numbers among themselves stay bare, and so does
what is computed from them.

Arithmetic on whole numbers in arrays wraps around at their width; truth values
are `0` and `1`, and anything but `0` is read as `1`.  A fraction stored as a
whole number is cut off, and moved to the nearest end of the range if it is
outside.
-/
import ForwardBackward.Cartesian

namespace ForwardBackward

set_option autoImplicit false

/-- The widths of whole numbers. -/
inductive Width where
  | flag
  | word32
  | word64
  /-- 64 bits in an array that takes on the width of any other array. -/
  | loose
  /-- A truth value outside arrays. -/
  | bareFlag
  /-- A whole number outside arrays. -/
  | bare
  deriving DecidableEq, Repr

namespace Width

/-- The width two kinds of whole numbers meet in.  Bare truth values are numbers
among bare numbers and truth values among arrays. -/
def join : Width → Width → Width
  | .bareFlag, .bareFlag => .bare
  | .bareFlag, w => w
  | w, .bareFlag => w
  | .bare, .flag => .loose
  | .flag, .bare => .loose
  | .bare, w => w
  | w, .bare => w
  | .flag, w => w
  | w, .flag => w
  | .loose, w => w
  | w, .loose => w
  | .word32, .word32 => .word32
  | _, _ => .word64

/-- The width that a whole number is kept in. -/
def firm : Width → Width
  | .flag | .bareFlag => .flag
  | .word32 => .word32
  | _ => .word64

/-- Whether a width is one of numbers outside arrays. -/
def isBare : Width → Bool
  | .bareFlag | .bare => true
  | _ => false

/-- The width of an array made from a number. -/
def enter : Width → Width
  | .bareFlag => .flag
  | .bare => .loose
  | w => w

/-- The precision of a fraction that a whole number meets or becomes. -/
def inexact (w : Width) : Precision := if w.isBare then .bare else .loose

/-- The ends of the range of a width, the upper one excluded; bare numbers have none. -/
def bound : Width → Int
  | .word32 => (Nat.pow 2 31 : Nat)
  | _ => (Nat.pow 2 63 : Nat)

/-- A whole number brought into the range of a width. -/
def wrap : Width → Int → Int
  | .flag, n | .bareFlag, n => if n = 0 then 0 else 1
  | .word32, n => n.bmod (Nat.pow 2 32)
  | .word64, n | .loose, n => n.bmod (Nat.pow 2 64)
  | .bare, n => n

/-- The nearest number in the range of a width. -/
def clamp (w : Width) (n : Int) : Int := Max.max (-w.bound) (Min.min n (w.bound - 1))

/-- A fraction of precision `p` stored as a whole number: cut off and brought into range. -/
def ofFraction {R : Type} [Scalar R] (w : Width) (p : Precision) (x : R) : Int :=
  match w.firm with
  | .flag => if p.eq x 0 then 0 else 1
  | _ =>
    if Scalar.isFinite x then w.clamp (Scalar.truncate x)
    else if Scalar.lt 0 x then w.bound - 1
    else if Scalar.lt x 0 then -w.bound
    else 0

/-- The sum in a width. -/
def sum (w : Width) (xs : List Int) : Int := xs.foldl (fun a x => w.wrap (a + x)) 0

theorem join_comm (v w : Width) : v.join w = w.join v := by cases v <;> cases w <;> rfl

end Width

/-- The kinds of entries. -/
inductive Kind where
  | whole (w : Width)
  | real (p : Precision)
  | complex (p : Precision)
  deriving DecidableEq, Repr

namespace Kind

/-- The kind two arrays are read in when they meet. -/
def join : Kind → Kind → Kind
  | whole v, whole w => whole (v.join w)
  | whole w, real p | real p, whole w => real (if p = .bare then w.inexact else p)
  | whole _, complex p | complex p, whole _ => complex p
  | real p, real q => real (p.join q)
  | real p, complex q | complex p, real q | complex p, complex q => complex (p.join q)

/-- The kind that entries are kept in. -/
def firm : Kind → Kind
  | whole w => whole w.firm
  | real p => real p.firm
  | complex p => complex p.firm

/-- The kind of an array made from a number. -/
def enter : Kind → Kind
  | whole w => whole w.enter
  | real .bare => real .loose
  | k => k

/-- Whether a kind is one of numbers outside arrays. -/
def isBare : Kind → Bool
  | whole w => w.isBare
  | real p => p = .bare
  | complex _ => false

def isComplex : Kind → Bool
  | complex _ => true
  | _ => false

/-- The kind with a fractional part, of precision `p`, that stands for a kind. -/
def toFractional (p : Precision) : Kind → Kind
  | whole _ => real p
  | k => k

theorem join_comm (k l : Kind) : k.join l = l.join k := by
  cases k <;> cases l <;> rename_i p q <;> cases p <;> cases q <;> rfl

end Kind

end ForwardBackward
