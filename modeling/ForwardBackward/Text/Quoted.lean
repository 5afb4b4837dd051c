/-
# ForwardBackward.Text.Quoted -- a text between quotes

The form in which a message shows a name that somebody else chose.  Single
quotes, unless the text holds a single quote and no double quote.  The quote in
use and the backslash are escaped by a backslash, newline, return and tab have
their letters, and every other character without a visible form (controls,
formats, separators, surrogates, private use) is written by its number: two
hexadecimal digits, four or eight, the fewest that suffice.

A name between quotes of which nothing is escaped is `enclosed`.
-/
import ForwardBackward.Text.Invisible

namespace ForwardBackward.Text

set_option autoImplicit false

def singleQuote : Char := Char.ofNat 39
def doubleQuote : Char := Char.ofNat 34
def backslash : Char := Char.ofNat 92

/-- A number in hexadecimal, with zeros in front up to `width` digits. -/
def hexadecimal (width n : Nat) : String :=
  let digits := Nat.toDigits 16 n
  String.ofList (List.replicate (width - digits.length) '0' ++ digits)

/-- A character as it stands between two quotes `q`. -/
def escape (q c : Char) : String :=
  if c = q ∨ c = backslash then String.ofList [backslash, c]
  else if c = '\n' then "\\n"
  else if c = '\r' then "\\r"
  else if c = '\t' then "\\t"
  else if isVisible c then String.ofList [c]
  else if c.toNat < 0x100 then "\\x" ++ hexadecimal 2 c.toNat
  else if c.toNat < 0x10000 then "\\u" ++ hexadecimal 4 c.toNat
  else "\\U" ++ hexadecimal 8 c.toNat

/-- A text between quotes. -/
def quoted (s : String) : String :=
  let cs := s.toList
  let q := if singleQuote ∈ cs ∧ doubleQuote ∉ cs then doubleQuote else singleQuote
  String.ofList [q] ++ String.join (cs.map (escape q)) ++ String.ofList [q]

/-- A text between single quotes, as it stands. -/
def enclosed (s : String) : String :=
  String.ofList [singleQuote] ++ s ++ String.ofList [singleQuote]

end ForwardBackward.Text
