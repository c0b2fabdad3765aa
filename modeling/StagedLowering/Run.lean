import StagedLowering.Context
import StagedLowering.Tree.Module
import StagedLowering.Trace

/-!
# Runs

A run works on a unit, a module or one of its files, in the context that all phases share. It ends
with a value, with an error of the program, or with a fault: an index that names nothing. The state
it leaves stays, however it ends.
-/

namespace StagedLowering

/-- Why a run stops short. -/
inductive Stop (ε : Type)
  | error (error : ε)
  | fault

/-- What a run works on. `outer` is state that only the bodies of phases know of. -/
structure State (σ υ : Type) where
  outer : σ
  trace : Trace := {}
  context : Context := {}
  unit : υ

abbrev Run (σ υ ε : Type) := ExceptT (Stop ε) (StateM (State σ υ))

namespace Run

variable {σ υ ε α : Type}

def fail (error : ε) : Run σ υ ε α := throw (.error error)

def fault : Run σ υ ε α := throw .fault

def ofExcept (result : Except (Stop ε) α) : Run σ υ ε α := fun state => (result, state)

/-- A value that must be there. -/
def need : Option α → Run σ υ ε α
  | some a => pure a
  | none => fault

/-- The error of a run as a value; a fault goes on. -/
def attempt {ε' : Type} (act : Run σ υ ε α) : Run σ υ ε' (Except ε α) := fun state =>
  match act state with
  | (.ok a, state) => (.ok (.ok a), state)
  | (.error (.error error), state) => (.ok (.error error), state)
  | (.error .fault, state) => (.error .fault, state)

def getContext : Run σ υ ε Context := State.context <$> get

def getUnit : Run σ υ ε υ := State.unit <$> get

def setUnit (unit : υ) : Run σ υ ε Unit := modify ({ · with unit })

def onContext (change : Context → Context) : Run σ υ ε Unit :=
  modify fun state => { state with context := change state.context }

def emit (event : Event) : Run σ υ ε Unit :=
  modify fun state => { state with trace := state.trace.emit event }

/-- Runs inside a span, which is closed however the run ends. -/
def inSpan (span : Span) (act : Run σ υ ε α) : Run σ υ ε α := fun state =>
  match act { state with trace := state.trace.enter span } with
  | (result, state) => (result, { state with trace := state.trace.exit })

/-- Runs on file `i` of the module and puts it back however the run ends. -/
def onFile (i : Nat) (act : Run σ File ε α) : Run σ Module ε α := fun state =>
  match state.unit.files[i]? with
  | none => (.error .fault, state)
  | some file =>
    match act { state with unit := file } with
    | (result, after) => (result, { after with unit := state.unit.setFile i after.unit })

end Run

/-- Something that a list of phases can run on. -/
class WorkUnit (υ : Type) where
  granularity : Granularity
  label : υ → String
  render : υ → String

instance : WorkUnit Module where
  granularity := .module
  label := Module.label
  render := Module.render

instance : WorkUnit File where
  granularity := .file
  label := File.label
  render := File.render

end StagedLowering
