/-
Failures. A fault has one cause and the places it passed on its way out. The message of a fault
names the cause first and then the places, the innermost first.
-/

import DexArsc.Fault.Dex
import DexArsc.Fault.Resource

namespace DexArsc

/-- Why an operation failed. -/
inductive Cause
  | bytes (cause : ByteCause)
  | tree (cause : TreeCause)
  | resource (cause : ResourceCause)
  | dex (cause : DexCause)
  /-- The named file does not exist. -/
  | fileNotFound
  deriving DecidableEq

namespace Cause

/-- The category of a cause. -/
def kind : Cause → FaultKind
  | bytes cause => cause.kind
  | tree cause => cause.kind
  | resource cause => cause.kind
  | dex cause => cause.kind
  | fileNotFound => .io

/-- The message of a cause. -/
def message : Cause → String
  | bytes cause => cause.message
  | tree cause => cause.message
  | resource cause => cause.message
  | dex cause => cause.message
  | fileNotFound => "No such file or directory (os error 2)"

end Cause

/-- A cause with the places it passed, the innermost first. -/
structure Fault where
  cause : Cause
  places : List String := []
  deriving DecidableEq

namespace Fault

/-- The category of a fault. -/
def kind (fault : Fault) : FaultKind :=
  fault.cause.kind

/-- The fault as seen from an enclosing place. -/
def within (fault : Fault) (place : String) : Fault :=
  { fault with places := fault.places ++ [place] }

/-- The full message: the category, the cause and the places. -/
def message (fault : Fault) : String :=
  let places := match fault.places with
    | [] => ""
    | places => " for " ++ String.intercalate " of " places
  fault.kind.title ++ ": " ++ fault.cause.message ++ places

end Fault

/-- A step that changes a state and may fail. A failed step keeps the state it has reached. -/
abbrev Step (state : Type) := EStateM Fault state

/-- A failure without a place. -/
def fail {m : Type → Type} {α : Type} [MonadExceptOf Fault m] (cause : Cause) : m α :=
  throw { cause }

/-- A result that a failure has replaced is a failed step. -/
instance {state : Type} : MonadLift (Except Fault) (Step state) where
  monadLift
    | .ok value => pure value
    | .error fault => throw fault

/-- The result of a computation with a place added to its failure. -/
def Except.within {α : Type} (place : String) : Except Fault α → Except Fault α
  | .ok value => .ok value
  | .error fault => .error (fault.within place)

/-- The step with a place added to its failure. -/
def Step.within {state α : Type} (place : String) (step : Step state α) : Step state α :=
  fun initial => match step initial with
    | .ok value final => .ok value final
    | .error fault final => .error (fault.within place) final

end DexArsc
