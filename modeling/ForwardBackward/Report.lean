/-
# ForwardBackward.Report -- what a run tells while it works

A run writes `Note`s: a banner, status lines, and what became of it.  A note has
a `Level`, and the level decides how its line opens.

Colours are a `Palette`; the empty one is for output that is not a terminal.
The time in a status line is whatever clock the caller keeps; a run keeps none
and writes zero.
-/
import ForwardBackward.Count
import ForwardBackward.Text.Decimal

namespace ForwardBackward

set_option autoImplicit false

/-- How important a note is. -/
inductive Level where
  | banner
  | info
  | success
  | warning
  | hint
  | debug
  deriving DecidableEq, Repr

/-- A line of the status table. -/
structure StatusRow (R : Type) where
  iteration : Int
  gamma : R
  residual : R
  tau : R
  cost : R
  elapsed : R

/-- Something a run tells. -/
inductive Note (R : Type) where
  | opening
  | status (row : StatusRow R)
  | degenerateEstimate (lipschitz : R)
  | gammaSearchExhausted (iteration : Nat)
  | tauSearchExhausted (iteration : Nat)
  | converged (iterations : Nat) (elapsed : R)
  | iterationsSpent (limit : Count R)
  | advice

def Note.level {R : Type} : Note R → Level
  | opening => .banner
  | status _ => .info
  | degenerateEstimate _ => .warning
  | gammaSearchExhausted _ => .debug
  | tauSearchExhausted _ => .debug
  | converged _ _ => .success
  | iterationsSpent _ => .warning
  | advice => .hint

/-! ## Lines -/

/-- The codes that switch colours on and off. -/
structure Palette where
  blue : String
  green : String
  yellow : String
  red : String
  cyan : String
  reset : String
  bold : String
  dim : String
  deriving DecidableEq, Repr

/-- The code of a colour. -/
def colourCode (n : String) : String := "\x1b[" ++ n ++ "m"

namespace Palette

/-- The colours of a terminal. -/
def terminal : Palette where
  blue := colourCode "94"
  green := colourCode "92"
  yellow := colourCode "93"
  red := colourCode "91"
  cyan := colourCode "96"
  reset := colourCode "0"
  bold := colourCode "1"
  dim := colourCode "2"

/-- No colours. -/
def plain : Palette := ⟨"", "", "", "", "", "", "", ""⟩

end Palette

/-- A rule of characters above and below a message. -/
def bannerLine (rule : String) (width : Int) (message : String) : String :=
  let line := String.join (List.replicate width.toNat rule)
  line ++ "\n" ++ message ++ "\n" ++ line

/-- A message as it is printed at a level. -/
def Level.line (p : Palette) (message : String) : Level → String
  | banner => bannerLine "=" 60 message
  | info => p.blue ++ "[INFO]" ++ p.reset ++ " " ++ message
  | success => p.green ++ "✓" ++ p.reset ++ " " ++ message
  | warning => p.yellow ++ "[WARNING]" ++ p.reset ++ " " ++ message
  | hint => p.cyan ++ "[HINT]" ++ p.reset ++ " " ++ message
  | debug => p.dim ++ "[DEBUG] " ++ message ++ p.reset

/-- The heads of the columns of the status table. -/
def statusHeader : String :=
  String.intercalate " | "
    [Text.alignRight 6 "it", Text.alignRight 10 "gamma", Text.alignRight 10 "normfpr",
     Text.alignRight 10 "tau", Text.alignRight 11 "cost", Text.alignRight 8 "time"]

/-- A line of the status table. -/
def StatusRow.text (row : StatusRow Float) : String :=
  String.intercalate " | "
    [Text.alignRight 6 (toString row.iteration), Text.scientific 4 row.gamma,
     Text.scientific 4 row.residual, Text.scientific 4 row.tau,
     Text.blankSigned (Text.scientific 4 row.cost),
     Text.alignRight 7 (Text.fixed 3 row.elapsed) ++ "s"]

namespace Note

def message : Note Float → String
  | opening => "ZeroFPR\n" ++ statusHeader
  | status row => row.text
  | degenerateEstimate lipschitz =>
      "Degenerate Lipschitz estimate (" ++ Text.scientific 3 lipschitz
        ++ "); using L = 1 for the initial step size"
  | gammaSearchExhausted it => "gamma line search exhausted at iteration " ++ toString it
  | tauSearchExhausted it => "tau line search exhausted at iteration " ++ toString it
  | converged n elapsed =>
      "Converged in " ++ toString n ++ " iterations (" ++ Text.fixed 3 elapsed ++ "s)"
  | iterationsSpent n => "Maximum number of iterations reached (" ++ n.text ++ ")"
  | advice => "Increase max_iter or relax tol"

/-- A note as it is printed. -/
def line (p : Palette) (n : Note Float) : String := n.level.line p n.message

end Note

end ForwardBackward
