import StagedLowering.Run
import StagedLowering.Tree.Edit
import StagedLowering.Text.Quoting

/-!
# Actions

A scripted body is a list of actions on the context and the unit, written as data.
-/

namespace StagedLowering

/-- A unit that actions can edit and point into. -/
class Scriptable (υ : Type) where
  name : υ → String
  /-- The place of a node, in the file with a number if the unit has several. -/
  locate? : υ → Nat → NodeId → Option Location
  edit? : υ → Nat → Edit → Option υ

instance : Scriptable Module where
  name := Module.name
  locate? m i id := (m.files[i]?).map (·.locate id)
  edit? m i edit := do
    let (file, _) ← (← m.files[i]?).edit edit
    return m.setFile i file

instance : Scriptable File where
  name := File.path
  locate? file _ id := some (file.locate id)
  edit? file _ edit := (file.edit edit).map (·.1)

inductive Action
  | bump (counter : String) (amount : Nat)
  | set (counter : String) (value : Nat)
  | cancel
  | fail (failure : Failure)
  | failAt (message : String) (file : Nat) (node : NodeId)
  /-- Fails on the unit with this name. -/
  | failOn (name : String) (failure : Failure)
  | report (diagnostic : Diagnostic)
  /-- Takes a step in the scratch and reports its value. -/
  | scratch (step : ScratchStep)
  | enterScope (label : String)
  | exitScope
  | markDone (phase : PhaseId)
  | declare (symbol : Symbol)
  | edit (file : Nat) (change : Edit)
  /-- An action that cannot be read: it stops the run when its turn comes. -/
  | fault

namespace Action

variable {σ υ : Type}

def valueText : Option String → String
  | some value => Text.Quoting.json.quote value
  | none => "null"

def perform [Scriptable υ] : Action → Run σ υ Failure Unit
  | bump counter amount => Run.onContext (·.bump counter amount)
  | set counter value => Run.onContext (·.setStatistic counter value)
  | cancel => Run.onContext (·.cancel)
  | fail failure => Run.fail failure
  | failAt message file node => do
    let place ← Run.need (Scriptable.locate? (← Run.getUnit) file node)
    Run.fail (.reported (.described message) place)
  | failOn name failure => do
    if Scriptable.name (← Run.getUnit) = name then Run.fail failure
  | report diagnostic => Run.onContext (·.report diagnostic)
  | scratch step => do
    let (context, value) := (← Run.getContext).applyScratch step
    let name := Scriptable.name (← Run.getUnit)
    Run.onContext fun _ =>
      context.report { severity := .note, message := s!"{name} {valueText value}" }
  | enterScope label => Run.onContext (·.enterScope label)
  | exitScope => Run.onContext (·.exitScope)
  | markDone phase => Run.onContext (·.markDone phase)
  | declare symbol => Run.onContext fun context => (context.declare symbol).1
  | edit file change => do
    let unit ← Run.need (Scriptable.edit? (← Run.getUnit) file change)
    Run.setUnit unit
  | fault => Run.fault

end Action

def performAll {σ υ : Type} [Scriptable υ] (actions : List Action) : Run σ υ Failure Unit :=
  actions.forM Action.perform

end StagedLowering
