import StagedLowering.Phase.List

/-!
# Running a list

Phases run in the order of their list and the first error ends the run. A phase is refused if the
run was cancelled, passed over if it is disabled, and refused if a prerequisite is not done in the
innermost scope; only then its body runs and its outcome is recorded.
-/

namespace StagedLowering

variable {β σ υ : Type}

namespace Phase

def error (phase : Phase β) (label : String) (failure : Failure) : PhaseError :=
  ⟨phase.id, phase.description, label, failure⟩

def record (phase : Phase β) (label : String) (depth : Nat) (outcome : Outcome) : Record :=
  ⟨phase.id, label, depth, outcome⟩

variable [WorkUnit υ]

/-- What follows a body that succeeded. -/
def complete (config : Config) (label : String) (depth : Nat) (phase : Phase β) :
    Run σ υ PhaseError Unit := do
  Run.onContext fun context =>
    (context.markDone phase.id).record (phase.record label depth .completed)
  if config.shouldDump phase.id then
    let unit ← Run.getUnit
    Run.onContext (·.recordDump ⟨phase.id, label, WorkUnit.render unit⟩)
  Run.emit .completed

/-- What follows a body that failed. A nested list has reported its own failures. -/
def abort (label : String) (depth : Nat) (failure : Failure) (phase : Phase β) :
    Run σ υ PhaseError Unit := do
  Run.onContext (·.record (phase.record label depth .failed))
  unless failure.isNested do
    Run.onContext (·.report (.ofFailure phase.id failure))
  Run.emit (.failed failure)
  Run.fail (phase.error label failure)

variable [Executable β σ υ]

/-- Runs the body of a phase that is due, and records how it ended. -/
def execute (config : Config) (label : String) (depth : Nat) (phase : Phase β) :
    Run σ υ PhaseError Unit :=
  Run.inSpan (.phase phase.id label) do
    Run.emit (.started config.debug.verbose (Executable.kind phase.body) phase.description)
    let result ← Run.attempt (Executable.run phase.body config)
    if config.debug.timings then Run.emit .timed
    match result with
    | .ok () => phase.complete config label depth
    | .error failure => phase.abort label depth failure

def run (config : Config) (label : String) (phase : Phase β) : Run σ υ PhaseError Unit := do
  let context ← Run.getContext
  if context.cancelled then
    Run.emit (.cancelledBefore phase.id label)
    Run.fail (phase.error label .cancelled)
  else if !config.isEnabled phase.id then
    Run.emit (.skipped phase.id label)
    Run.onContext fun context =>
      (context.markSkipped phase.id).record (phase.record label context.scope.depth .skipped)
  else match phase.prerequisites.find? (!context.scope.isDone ·) with
    | some prerequisite => Run.fail (phase.error label (.prerequisiteNotRun prerequisite))
    | none => phase.execute config label context.scope.depth

end Phase

/-- Runs every phase on the unit, which keeps the label it had at the start. -/
def PhaseList.run [Executable β σ υ] [WorkUnit υ] (config : Config) (list : PhaseList β) :
    Run σ υ PhaseError Unit := do
  let label := WorkUnit.label (← Run.getUnit)
  list.phases.forM (Phase.run config label)

end StagedLowering
