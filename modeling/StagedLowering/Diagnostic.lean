import StagedLowering.Failure

/-! Messages of a run, each with a severity and perhaps a phase and a place in the program. -/

namespace StagedLowering

/-- How grave a diagnostic is, the least first. -/
inductive Severity
  | note
  | warning
  | error
deriving DecidableEq

def Severity.text : Severity → String
  | note => "note"
  | warning => "warning"
  | error => "error"

def Severity.rank : Severity → Nat
  | note => 0
  | warning => 1
  | error => 2

structure Diagnostic where
  severity : Severity
  message : String
  phase : Option PhaseId := none
  location : Option Location := none
deriving DecidableEq

namespace Diagnostic

def text (diagnostic : Diagnostic) : String :=
  let phase := diagnostic.phase.elim "" fun phase => s!"[{phase}]"
  let location := diagnostic.location.elim "" fun location => s!" {location.text}"
  s!"{diagnostic.severity.text}{phase}{location}: {diagnostic.message}"

def isError (diagnostic : Diagnostic) : Bool := diagnostic.severity = .error

/-- What a failed phase reports. -/
def ofFailure (phase : PhaseId) (failure : Failure) : Diagnostic where
  severity := .error
  message := failure.message
  phase := some phase
  location := failure.location?

end Diagnostic

/-- The gravest severity among diagnostics. -/
def worst? (diagnostics : List Diagnostic) : Option Severity :=
  diagnostics.foldl (fun worst diagnostic =>
    match worst with
    | some severity =>
      if severity.rank < diagnostic.severity.rank then some diagnostic.severity else worst
    | none => some diagnostic.severity) none

end StagedLowering
