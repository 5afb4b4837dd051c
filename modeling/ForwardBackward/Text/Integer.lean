/-
# ForwardBackward.Text.Integer -- whole numbers in text

A whole number is written in decimal digits, of any script that has them, after
an optional sign and between blanks.  Single underscores may separate digits.
More than `digitLimit` digits are not read.

`zeros` lists the digit zero of every script; the other nine digits follow it.
-/

namespace ForwardBackward.Text

set_option autoImplicit false

/-- The digit zero of every script. -/
def zeros : List Nat :=
  [0x30, 0x660, 0x6F0, 0x7C0, 0x966, 0x9E6, 0xA66, 0xAE6, 0xB66, 0xBE6, 0xC66, 0xCE6, 0xD66,
   0xDE6, 0xE50, 0xED0, 0xF20, 0x1040, 0x1090, 0x17E0, 0x1810, 0x1946, 0x19D0, 0x1A80, 0x1A90,
   0x1B50, 0x1BB0, 0x1C40, 0x1C50, 0xA620, 0xA8D0, 0xA900, 0xA9D0, 0xA9F0, 0xAA50, 0xABF0, 0xFF10,
   0x104A0, 0x10D30, 0x11066, 0x110F0, 0x11136, 0x111D0, 0x112F0, 0x11450, 0x114D0, 0x11650,
   0x116C0, 0x11730, 0x118E0, 0x11950, 0x11C50, 0x11D50, 0x11DA0, 0x16A60, 0x16AC0, 0x16B50,
   0x1D7CE, 0x1D7D8, 0x1D7E2, 0x1D7EC, 0x1D7F6, 0x1E140, 0x1E2F0, 0x1E950, 0x1FBF0]

/-- The value of a digit. -/
def digitValue? (c : Char) : Option Nat :=
  (zeros.find? fun z => z ≤ c.toNat && c.toNat < z + 10).map (c.toNat - ·)

/-- Blanks that may stand around a number: tab to return, the space, and the spaces and
separators beyond the first 128 characters. -/
def isBlank (c : Char) : Bool :=
  let n := c.toNat
  (9 ≤ n && n ≤ 13) || n = 32 || n = 0x85 || n = 0xA0 || n = 0x1680 || (0x2000 ≤ n && n ≤ 0x200A)
    || n = 0x2028 || n = 0x2029 || n = 0x202F || n = 0x205F || n = 0x3000

/-- The text without the blanks around it. -/
def trimBlanks (cs : List Char) : List Char :=
  ((cs.dropWhile isBlank).reverse.dropWhile isBlank).reverse

/-- How many digits of a number are read at most. -/
def digitLimit : Nat := 4300

/-- What a text says as a whole number. -/
inductive Reading where
  | number (n : Int)
  /-- More digits than are read. -/
  | tooLong (digits : Nat)
  /-- No whole number. -/
  | malformed
  deriving DecidableEq, Repr

/-- Whether a character belongs to a run of digits and underscores. -/
def inDigits (c : Char) : Bool := c = '_' || (digitValue? c).isSome

/-- The digits of a run; single underscores may stand between two digits. -/
def runDigits : List Char → Option (List Nat)
  | [] => none
  | [c] => (digitValue? c).map ([·])
  | c :: '_' :: cs => do pure ((← digitValue? c) :: (← runDigits cs))
  | c :: cs => do pure ((← digitValue? c) :: (← runDigits cs))

/-- A number without a sign.  Too many digits are found before anything behind them. -/
def readNatural (cs : List Char) : Reading :=
  match runDigits (cs.takeWhile inDigits) with
  | none => .malformed
  | some ds =>
    if digitLimit < ds.length then .tooLong ds.length
    else if (cs.dropWhile inDigits).isEmpty then .number (ds.foldl (fun n d => n * 10 + d) 0 : Nat)
    else .malformed

def Reading.neg : Reading → Reading
  | number n => number (-n)
  | r => r

/-- The whole number a text says. -/
def readInteger (s : String) : Reading :=
  match trimBlanks s.toList with
  | '-' :: cs => (readNatural cs).neg
  | '+' :: cs => readNatural cs
  | cs => readNatural cs

end ForwardBackward.Text
