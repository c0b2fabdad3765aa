import StagedLowering.Phase.Order
import StagedLowering.Config

/-!
# Outlines

An outline is a phase without its body, together with the phases that run underneath it. A
configuration is checked against outlines: the phases it names must exist, and no enabled phase may
need a disabled one.
-/

namespace StagedLowering

inductive PhaseKind
  | transform
  | fixpoint
  | check
  | perFile
deriving DecidableEq

def PhaseKind.text : PhaseKind → String
  | transform => "transform"
  | fixpoint => "fixpoint"
  | check => "check"
  | perFile => "per-file"

/-- What a phase works on. -/
inductive Granularity
  | module
  | file
deriving DecidableEq

def Granularity.text : Granularity → String
  | module => "module"
  | file => "file"

structure Outline where
  id : PhaseId
  description : String
  kind : PhaseKind
  granularity : Granularity
  prerequisites : List PhaseId
  children : List Outline

mutual

/-- An outline and everything underneath, each phase before its own. -/
def Outline.walk : Outline → List Outline
  | outline@⟨_, _, _, _, _, children⟩ => outline :: Outline.walkAll children

def Outline.walkAll : List Outline → List Outline
  | [] => []
  | outline :: rest => outline.walk ++ Outline.walkAll rest

end

mutual

/-- Refuses an enabled phase with a disabled prerequisite, underneath enabled phases too. -/
def Outline.checkDisabled (config : Config) : Outline → Except OrderError Unit
  | ⟨id, _, _, _, prerequisites, children⟩ =>
    if config.isEnabled id then
      match prerequisites.find? (!config.isEnabled ·) with
      | some prerequisite => .error (.disabled id prerequisite)
      | none => Outline.checkAllDisabled config children
    else .ok ()

def Outline.checkAllDisabled (config : Config) : List Outline → Except OrderError Unit
  | [] => .ok ()
  | outline :: rest =>
    match outline.checkDisabled config with
    | .error error => .error error
    | .ok () => Outline.checkAllDisabled config rest

end

/-- Checks a configuration against the outlines of a list: first its names, then what it disables. -/
def Outline.checkConfig (outlines : List Outline) (config : Config) : Except OrderError Unit :=
  let known := (Outline.walkAll outlines).map (·.id)
  match (config.disabled ++ config.dumpAfter).find? (· ∉ known) with
  | some phase => .error (.unknown phase)
  | none => Outline.checkAllDisabled config outlines

end StagedLowering
