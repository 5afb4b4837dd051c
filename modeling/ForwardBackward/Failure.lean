/-
# ForwardBackward.Failure -- how a run ends without a result

A run fails because something was refused (`fault`), because a monitored value
stopped being finite (`nonFinite`), or because its halting predicate did not
answer (`halting`).  The last two carry diagnostics: the iteration, a step size
and a residual norm.  A failure of finiteness names the last ones that were
finite, a failure of the predicate the ones of the moment.
-/
import ForwardBackward.Halting
import ForwardBackward.Text.Decimal

namespace ForwardBackward

set_option autoImplicit false

/-- Where a run stood when it failed. -/
structure Diagnostics (R : Type) where
  iteration : Int
  gamma : R
  residual : R

/-- The values whose finiteness is monitored, by the place where they are. -/
inductive Monitored where
  | smoothTermAtStart
  | envelopeAtStart
  | envelope
  | smoothTermOrEnvelope
  deriving DecidableEq, Repr

/-- Why a halting predicate did not answer. -/
inductive NoAnswer where
  | raised (e : Raised)
  | notTruth (typeName : String)

/-- How a run ends without a result. -/
inductive Failure (R : Type) where
  | fault (cause : Fault)
  | nonFinite (what : Monitored) (diagnostics : Diagnostics R)
  | halting (cause : NoAnswer) (diagnostics : Diagnostics R)

def Monitored.text : Monitored → String
  | smoothTermAtStart => "smooth term at x0"
  | envelopeAtStart => "envelope at x0"
  | envelope => "envelope"
  | smoothTermOrEnvelope => "smooth term or envelope"

def NoAnswer.text : NoAnswer → String
  | raised e => "Halting predicate raised " ++ e.typeName ++ ": " ++ e.text
  | notTruth typeName => "Halting predicate returned " ++ typeName ++ ", expected bool"

/-- A message with the diagnostics behind it. -/
def Diagnostics.append (d : Diagnostics Float) (message : String) : String :=
  message ++ " (iteration=" ++ toString d.iteration ++ ", gamma=" ++ Text.scientific 4 d.gamma
    ++ ", normfpr=" ++ Text.scientific 4 d.residual ++ ")"

namespace Failure

/-- The wording of a failure; `none` for the faults of the array layer. -/
def message : Failure Float → Option String
  | fault cause => cause.message
  | nonFinite what d => some (d.append ("Non-finite " ++ what.text))
  | halting cause d => some (d.append cause.text)

end Failure

end ForwardBackward
