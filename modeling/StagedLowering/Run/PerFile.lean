import StagedLowering.Run.Phase

/-!
# Phases over every file

A module phase can run a list of file phases, once for each file in order and each time in a scope
of its own, which is left whether the file succeeded or not.
-/

namespace StagedLowering

variable {σ : Type}

/-- The body of a phase over a module. -/
inductive ModuleBody (σ : Type)
  | plain (body : Body σ Module)
  | perFile (phases : PhaseList (Body σ File))

/-- Runs the list on one file, inside a fresh scope. -/
def PhaseList.runFile (config : Config) (list : PhaseList (Body σ File)) :
    Run σ File PhaseError Unit := do
  let file ← Run.getUnit
  Run.inSpan (.file file.path) do
    Run.onContext (·.enterScope file.label)
    let result ← Run.attempt (list.run config)
    Run.onContext (·.exitScope)
    match result with
    | .ok () => pure ()
    | .error error => Run.fail error

/-- Runs the list on the files with these numbers and gives the errors of those that failed. -/
def PhaseList.runFiles (config : Config) (list : PhaseList (Body σ File)) :
    List Nat → Run σ Module Failure (List PhaseError)
  | [] => return []
  | i :: rest => do
    match ← Run.attempt (Run.onFile i (list.runFile config)) with
    | .ok () => list.runFiles config rest
    | .error error =>
      let path := ((← Run.getUnit).files[i]?).elim "" (·.path)
      match config.filePolicy with
      | .failFast => Run.fail (.inFile path error)
      | .collectAll =>
        Run.emit (.fileFailed path error)
        return error :: (← list.runFiles config rest)

namespace ModuleBody

def kind : ModuleBody σ → PhaseKind
  | plain body => body.kind
  | perFile _ => .perFile

def children : ModuleBody σ → List Outline
  | plain _ => []
  | perFile phases => phases.outlines

def run : ModuleBody σ → Config → Run σ Module Failure Unit
  | plain body, config => body.run config
  | perFile phases, config => do
    let errors ← phases.runFiles config (List.range (← Run.getUnit).files.length)
    unless errors.isEmpty do Run.fail (.inFiles errors)

instance : Executable (ModuleBody σ) σ Module where
  kind := kind
  children := children
  run := run

end ModuleBody
end StagedLowering
