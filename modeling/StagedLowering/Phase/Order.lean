import StagedLowering.Failure

/-!
# The order of phases

The order of a list is made by hand and never changed here. `checkOrder` goes through it and reports
the first phase that repeats an id or does not have a prerequisite before it.
-/

namespace StagedLowering

inductive OrderError
  | duplicate (phase : PhaseId)
  | missing (phase prerequisite : PhaseId)
  | misplaced (phase prerequisite : PhaseId)
  | disabled (phase prerequisite : PhaseId)
  | unknown (phase : PhaseId)
deriving DecidableEq

namespace OrderError

def message : OrderError → String
  | duplicate phase => s!"phase `{phase}` appears more than once"
  | missing phase prerequisite =>
    s!"phase `{phase}` requires `{prerequisite}`, which is not in the phase list"
  | misplaced phase prerequisite =>
    s!"phase `{phase}` requires `{prerequisite}`, which is scheduled after it"
  | disabled phase prerequisite =>
    s!"phase `{phase}` requires `{prerequisite}`, which is disabled"
  | unknown phase => s!"unknown phase `{phase}`"

/-- The phase of the list that the error is about; an unknown name is none of its phases. -/
def phase? : OrderError → Option PhaseId
  | duplicate phase | missing phase _ | misplaced phase _ | disabled phase _ => some phase
  | unknown _ => none

def prerequisite? : OrderError → Option PhaseId
  | missing _ prerequisite | misplaced _ prerequisite | disabled _ prerequisite =>
    some prerequisite
  | duplicate _ | unknown _ => none

end OrderError

/-- Checks what is left of a list, given all its ids and those that came before. -/
def checkOrderFrom (all before : List PhaseId) :
    List (PhaseId × List PhaseId) → Except OrderError Unit
  | [] => .ok ()
  | (id, prerequisites) :: rest =>
    if id ∈ before then .error (.duplicate id)
    else match prerequisites.find? (· ∉ before) with
      | some prerequisite =>
        .error (if prerequisite ∈ all then .misplaced id prerequisite else .missing id prerequisite)
      | none => checkOrderFrom all (before ++ [id]) rest

/-- Checks phases, each given by its id and its prerequisites. -/
def checkOrder (phases : List (PhaseId × List PhaseId)) : Except OrderError Unit :=
  checkOrderFrom (phases.map (·.1)) [] phases

end StagedLowering
