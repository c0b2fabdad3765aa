import StagedLowering.Phase.Outline

/-!
# Events

A run emits events, each inside the spans that are open at the time. An event has a level, a message
and named fields of text.
-/

namespace StagedLowering

inductive Level
  | trace
  | debug
  | info
  | warn
deriving DecidableEq

def Level.text : Level → String
  | trace => "TRACE"
  | debug => "DEBUG"
  | info => "INFO"
  | warn => "WARN"

inductive Span
  | pipeline (module : String)
  | phase (id : PhaseId) (unit : String)
  | file (path : String)
deriving DecidableEq

def Span.name : Span → String
  | pipeline _ => "pipeline"
  | phase _ _ => "phase"
  | file _ => "file"

def Span.fields : Span → List (String × String)
  | pipeline module => [("module", module)]
  | phase id unit => [("id", id), ("unit", unit)]
  | file path => [("path", path)]

inductive Event
  | cancelledBefore (phase : PhaseId) (unit : String)
  | skipped (phase : PhaseId) (unit : String)
  /-- A phase began; a verbose run raises the level. -/
  | started (verbose : Bool) (kind : PhaseKind) (description : String)
  /-- The wall time of a phase. Time is no part of a state, so no number is kept. -/
  | timed
  | completed
  | failed (failure : Failure)
  | unsettled (iteration residual : Nat)
  | settled (iterations : Nat)
  | flattened (path : String) (count : Nat)
  | fileFailed (path : String) (error : PhaseError)
  | rejected (error : OrderError)
  | runStarted (files : Nat)
  | runFinished (phases : Nat)
  | runAborted (phase : PhaseId) (unit : String)
  | loweringWithDefaults (unit : String)

namespace Event

def level : Event → Level
  | skipped _ _ => .warn
  | started verbose _ _ => if verbose then .info else .debug
  | timed => .info
  | unsettled _ _ | flattened _ _ | loweringWithDefaults _ => .trace
  | _ => .debug

def message : Event → String
  | cancelledBefore _ _ => "cancelled before phase"
  | skipped _ _ => "phase disabled, skipping"
  | started _ _ description => description
  | timed => "phase timing"
  | completed => "phase completed"
  | failed _ => "phase failed"
  | unsettled _ _ => "fixpoint not reached"
  | settled _ => "fixpoint reached"
  | flattened _ _ => "flattened blocks"
  | fileFailed _ _ => "file failed, continuing"
  | rejected _ => "configuration rejected"
  | runStarted _ => "starting run"
  | runFinished _ => "run finished"
  | runAborted _ _ => "run aborted"
  | loweringWithDefaults _ => "lowering with defaults"

def fields : Event → List (String × String)
  | cancelledBefore phase unit | skipped phase unit | runAborted phase unit =>
    [("phase", phase), ("unit", unit)]
  | started _ kind _ => [("kind", kind.text)]
  | timed => [("elapsed_us", "_")]
  | completed => []
  | failed failure => [("failure", failure.message)]
  | unsettled iteration residual =>
    [("iteration", toString iteration), ("residual", toString residual)]
  | settled iterations => [("iterations", toString iterations)]
  | flattened path count => [("path", path), ("flattened", toString count)]
  | fileFailed path error => [("path", path), ("error", error.message)]
  | rejected error =>
    [("phase", error.phase?.elim "None" fun phase => s!"Some(PhaseId({phase}))"),
      ("error", error.message)]
  | runStarted files => [("files", toString files)]
  | runFinished phases => [("phases", toString phases)]
  | loweringWithDefaults unit => [("unit", unit)]

end Event

structure Entry where
  /-- The spans open around the event, the innermost first. -/
  spans : List Span
  event : Event

structure Trace where
  /-- The open spans, the innermost first. -/
  spans : List Span := []
  entries : Array Entry := #[]

namespace Trace

def emit (trace : Trace) (event : Event) : Trace :=
  { trace with entries := trace.entries.push ⟨trace.spans, event⟩ }

def enter (trace : Trace) (span : Span) : Trace := { trace with spans := span :: trace.spans }

def exit (trace : Trace) : Trace := { trace with spans := trace.spans.tail }

end Trace
end StagedLowering
