import StagedLowering.Pass.Standard

/-!
# Pipelines

A pipeline is a list of module phases with a configuration that was checked against it. It can run
over any number of modules.
-/

namespace StagedLowering

structure Pipeline (σ : Type) where
  config : Config
  phases : PhaseList (ModuleBody σ)
  accepted : phases.checkConfig config = .ok ()

namespace Pipeline

variable {σ : Type}

def of (config : Config) (phases : PhaseList (ModuleBody σ)) : Except OrderError (Pipeline σ) :=
  match accepted : phases.checkConfig config with
  | .ok () => .ok ⟨config, phases, accepted⟩
  | .error error => .error error

/-- Makes a pipeline; a refusal is an event as well. -/
def setUp (trace : Trace) (config : Config) (phases : PhaseList (ModuleBody σ)) :
    Trace × Except OrderError (Pipeline σ) :=
  match of config phases with
  | .ok pipeline => (trace, .ok pipeline)
  | .error error => (trace.emit (.rejected error), .error error)

/-- The standard phases under the default configuration. -/
def standard : Pipeline σ where
  config := {}
  phases := modulePhases
  accepted := rfl

/-- Runs every phase over the module in the context it is given. -/
def runIn (pipeline : Pipeline σ) : Run σ Module PhaseError Unit := do
  let m ← Run.getUnit
  Run.inSpan (.pipeline m.name) do
    Run.emit (.runStarted m.files.length)
    match ← Run.attempt (pipeline.phases.run pipeline.config) with
    | .ok () => Run.emit (.runFinished (← Run.getContext).history.length)
    | .error error =>
      Run.emit (.runAborted error.innermost.phase error.innermost.unit)
      Run.fail error

/-- Runs every phase over the module in a fresh context. -/
def run (pipeline : Pipeline σ) : Run σ Module PhaseError Unit := do
  Run.onContext fun _ => {}
  pipeline.runIn

def inspectList (names : List String) : String :=
  "[" ++ String.intercalate ", " (names.map Text.Quoting.inspected.quote) ++ "]"

def inspectFlags (flags : DebugFlags) : String :=
  if flags.names.isEmpty then "DebugFlags(0x0)"
  else "DebugFlags(" ++ String.intercalate " | " flags.names ++ ")"

def inspectPolicy : FilePolicy → String
  | .failFast => "FailFast"
  | .collectAll => "CollectAll"

/-- The configuration and the ids of the phases. -/
def inspect (pipeline : Pipeline σ) : String :=
  let config := pipeline.config
  "Pipeline \x7b config: PipelineConfig \x7b debug: " ++ inspectFlags config.debug ++
    ", disabled_phases: " ++ inspectList config.disabled ++
    ", dump_after: " ++ inspectList config.dumpAfter ++
    ", max_fixpoint_iterations: " ++ toString config.maxIterations ++
    ", file_error_policy: " ++ inspectPolicy config.filePolicy ++
    " \x7d, phases: " ++ Outline.inspectIds pipeline.phases.ids ++ " \x7d"

end Pipeline

/-- Lowers the module with the standard pipeline in a fresh context. -/
def lower {σ : Type} : Run σ Module PhaseError Unit := do
  Run.emit (.loweringWithDefaults (← Run.getUnit).label)
  Pipeline.standard.run

end StagedLowering
