/-
# ForwardBackward.Run -- a run and the world it leaves behind

A run calls the operator and the proximal step in their environment, asks the
halting predicate, and writes notes.  All of that is its `World`, and a run that
fails leaves the world as it was at the failure: the notes written and the calls
made are not undone.

Calls and refusals are steps of a run (`Run.call`, `Run.refuse`), lifted
silently; a refusal becomes the failure `Failure.fault`.
-/
import ForwardBackward.Call
import ForwardBackward.Failure
import ForwardBackward.Report

namespace ForwardBackward

set_option autoImplicit false

/-- The environment of the capabilities, and what was told so far. -/
structure World (σ R : Type) where
  env : σ
  notes : Array (Note R)

/-- A part of a run. -/
abbrev Run (σ R α : Type) := EStateM (Failure R) (World σ R) α

namespace Run

variable {σ R α : Type}

/-- A call as a step of a run. -/
def call (c : Call σ α) : Run σ R α := fun w =>
  match c w.env with
  | .ok a env => .ok a { w with env := env }
  | .error e env => .error (.fault e) { w with env := env }

/-- A refusal as a step of a run. -/
def refuse : Except Fault α → Run σ R α
  | .ok a => pure a
  | .error e => throw (.fault e)

instance instMonadLiftCall : MonadLift (EStateM Fault σ) (EStateM (Failure R) (World σ R)) where
  monadLift := call

instance instMonadLiftExcept :
    MonadLift (Except Fault) (EStateM (Failure R) (World σ R)) where
  monadLift := refuse

/-- Writes a note. -/
def note (n : Note R) : Run σ R Unit := modify fun w => { w with notes := w.notes.push n }

end Run

end ForwardBackward
