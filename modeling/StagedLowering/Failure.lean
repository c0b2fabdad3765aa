import StagedLowering.Tree.Node

/-!
# Failures of a phase

What can stop a phase, and the error that names the phase it stopped. An error inside a file carries
the file phase's own error, so `innermost` finds the phase where it began.
-/

namespace StagedLowering

/-- The name of a phase, by which others require it and a configuration disables it. -/
abbrev PhaseId := String

/-- A structural property of the tree that does not hold. -/
inductive Breach
  | rootHasParent (parent : NodeId)
  | childOutOfRange
  | reachedTwice
  | linkPointsAt (found expected : NodeId)
  | linkUnset
  | callWithoutTemporary
  | temporaryHolds (count : Nat)
  | callUnbound (callee : String)
  | described (description : String)
deriving DecidableEq

def Breach.description : Breach → String
  | rootHasParent parent => s!"root has parent link to #{parent}"
  | childOutOfRange => "child id out of range"
  | reachedTwice => "node reachable twice"
  | linkPointsAt found expected => s!"parent link points at #{found}, expected #{expected}"
  | linkUnset => "parent link is unset"
  | callWithoutTemporary => "call result is not bound to a temporary"
  | temporaryHolds count => s!"temporary must hold one call, holds {count} nodes"
  | callUnbound callee => s!"call to `{callee}` is not bound to a function"
  | described description => description

structure Violation where
  breach : Breach
  node : Location
deriving DecidableEq

def Violation.message (violation : Violation) : String :=
  s!"invariant violated at {violation.node.text}: {violation.breach.description}"

/-- Why the body of a phase gave up. -/
inductive Complaint
  | alreadyDeclared (name : String) (earlier : Location)
  | unknownTarget (name target : String)
  | unknownCallee (callee : String)
  | described (message : String)
deriving DecidableEq

def Complaint.message : Complaint → String
  | alreadyDeclared name earlier => s!"`{name}` is already declared at {earlier.text}"
  | unknownTarget name target => s!"alias `{name}` names unknown symbol `{target}`"
  | unknownCallee callee => s!"call to unknown function `{callee}`"
  | described message => message

/-- A failure with the phase it happened in and the label of the unit that phase ran on. -/
structure Tagged (α : Type) where
  phase : PhaseId
  description : String
  unit : String
  failure : α

inductive Failure
  | reported (complaint : Complaint) (location : Option Location)
  | violated (violation : Violation)
  /-- A fixpoint whose bound was reached with items still pending. -/
  | unsettled (iterations residual : Nat)
  /-- The first file that failed. -/
  | inFile (path : String) (error : Tagged Failure)
  /-- Every file that failed, in the order of the files. -/
  | inFiles (errors : List (Tagged Failure))
  | prerequisiteNotRun (prerequisite : PhaseId)
  | cancelled

abbrev PhaseError := Tagged Failure

def failedText (phase : PhaseId) (description unit failure : String) : String :=
  s!"phase `{phase}` ({description}) failed on {unit}: {failure}"

namespace Failure

def message : Failure → String
  | reported complaint _ => complaint.message
  | violated violation => violation.message
  | unsettled iterations residual =>
    s!"no fixpoint after {iterations} iterations ({residual} items still pending)"
  | inFile path ⟨phase, description, unit, failure⟩ =>
    s!"in file `{path}`: " ++ failedText phase description unit failure.message
  | inFiles errors => s!"{errors.length} files failed"
  | prerequisiteNotRun prerequisite => s!"prerequisite `{prerequisite}` has not run"
  | cancelled => "compilation cancelled"

/-- Where in the program the failure points, if anywhere. -/
def location? : Failure → Option Location
  | reported _ location => location
  | violated violation => some violation.node
  | inFile _ ⟨_, _, _, failure⟩ => failure.location?
  | _ => none

/-- Whether the failure repeats one that a nested list has already reported. -/
def isNested : Failure → Bool
  | inFile _ _ | inFiles _ => true
  | _ => false

end Failure

namespace PhaseError

def message (error : PhaseError) : String :=
  failedText error.phase error.description error.unit error.failure.message

/-- The error of the phase where it began, one file inside another. -/
def innermost : PhaseError → PhaseError
  | ⟨_, _, _, .inFile _ inner⟩ => innermost inner
  | error => error

end PhaseError
end StagedLowering
