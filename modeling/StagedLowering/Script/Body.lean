import StagedLowering.Pass.Standard
import StagedLowering.Script.Action

/-!
# Scripted bodies

Bodies made of actions and reports. The outer state of a run counts the reports of each fixpoint, so
that a fixpoint goes on where it left off.
-/

namespace StagedLowering

/-- What a round of a scripted fixpoint ends with. -/
inductive Report
  | progress (progress : Progress)
  | failure (failure : Failure)

/-- How many reports each fixpoint has given, by the name it is known under. -/
abbrev Turns := NameMap Nat

variable {υ : Type}

/-- Reports in turn, the last of them for ever. -/
def nextReport (name : String) (reports : List Report) : Run Turns υ Failure Progress := do
  let turns := (← get).outer
  let turn := (turns.get? name).getD 0
  modify ({ · with outer := turns.insert name (turn + 1) })
  match reports[min turn (reports.length - 1)]? with
  | some (.progress progress) => return progress
  | some (.failure failure) => Run.fail failure
  | none => return .converged

variable [Scriptable υ]

def scriptedTransform (actions : List Action) : Body Turns υ :=
  .transform fun _ => performAll actions

/-- A fixpoint whose own bound, if it has one, is at least 1. -/
def scriptedFixpoint (name : String) (actions : List Action) (reports : List Report)
    (bound : Option Nat) (statistic : Option String) : Body Turns υ :=
  .fixpoint {
    round _ := do
      performAll actions
      nextReport name reports
    bound := bound.map (max 1)
    statistic }

/-- A check that fails as told, on the unit with a given name or on any. -/
def scriptedCheck (violation : Option Violation) (name : Option String) : Body Turns υ :=
  .check fun _ unit =>
    match violation with
    | some violation =>
      if name.all (· = Scriptable.name unit) then .error violation else .ok ()
    | none => .ok ()

end StagedLowering
