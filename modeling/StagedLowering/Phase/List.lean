import StagedLowering.Run.Fixpoint
import StagedLowering.Phase.Graph
import StagedLowering.Phase.Listing

/-!
# Phases and their lists

A phase has an id, a description, prerequisites and a body. A list of phases is in the order of
execution, and exists only if every prerequisite comes before the phase that needs it.
-/

namespace StagedLowering

/-- The body of a phase that runs once over its unit. A check only reads. -/
inductive Body (σ υ : Type)
  | transform (run : Config → Run σ υ Failure Unit)
  | fixpoint (loop : Fixpoint σ υ)
  | check (holds : Context → υ → Except Violation Unit)

/-- The bodies `β` that a phase over `υ` can have. -/
class Executable (β : Type) (σ υ : outParam Type) where
  kind : β → PhaseKind
  /-- The phases that run underneath. -/
  children : β → List Outline
  run : β → Config → Run σ υ Failure Unit

namespace Body

variable {σ υ : Type}

def kind : Body σ υ → PhaseKind
  | transform _ => .transform
  | fixpoint _ => .fixpoint
  | check _ => .check

def run : Body σ υ → Config → Run σ υ Failure Unit
  | transform run, config => run config
  | fixpoint loop, config => loop.run config
  | check holds, _ => do
    match holds (← Run.getContext) (← Run.getUnit) with
    | .ok () => pure ()
    | .error violation => Run.fail (.violated violation)

instance : Executable (Body σ υ) σ υ where
  kind := kind
  children _ := []
  run := run

end Body

/-- The ids without those that repeat an earlier one. -/
def keepFirst (ids : List PhaseId) : List PhaseId :=
  ids.foldl (fun kept id => if id ∈ kept then kept else kept ++ [id]) []

theorem nodup_keepFirst (ids : List PhaseId) : (keepFirst ids).Nodup := by
  suffices ∀ kept : List PhaseId, kept.Nodup →
      (ids.foldl (fun kept id => if id ∈ kept then kept else kept ++ [id]) kept).Nodup from
    this [] .nil
  induction ids with
  | nil => exact fun _ nodup => nodup
  | cons id ids ih =>
    intro kept nodup
    refine ih _ ?_
    dsimp only
    split
    · exact nodup
    · next absent =>
      refine List.nodup_append.mpr ⟨nodup, by simp, fun a member b single => ?_⟩
      rw [List.mem_singleton.mp single]
      exact fun same => absent (same ▸ member)

structure Phase (β : Type) where
  id : PhaseId
  description : String
  prerequisites : List PhaseId
  distinct : prerequisites.Nodup
  body : β

namespace Phase

variable {β σ υ : Type}

/-- A phase after others; a prerequisite named twice counts once. -/
def after (prerequisites : List PhaseId) (id : PhaseId) (description : String) (body : β) :
    Phase β where
  id
  description
  prerequisites := keepFirst prerequisites
  distinct := nodup_keepFirst prerequisites
  body

/-- A phase without prerequisites. -/
def alone (id : PhaseId) (description : String) (body : β) : Phase β := after [] id description body

def requirement (phase : Phase β) : PhaseId × List PhaseId := (phase.id, phase.prerequisites)

def outline [Executable β σ υ] [WorkUnit υ] (phase : Phase β) : Outline where
  id := phase.id
  description := phase.description
  kind := Executable.kind phase.body
  granularity := WorkUnit.granularity υ
  prerequisites := phase.prerequisites
  children := Executable.children phase.body

end Phase

/-- Checks the order of phases that are not a list yet. -/
def checkPhases (phases : List (Phase β)) : Except OrderError Unit :=
  checkOrder (phases.map Phase.requirement)

structure PhaseList (β : Type) where
  phases : List (Phase β)
  ordered : checkPhases phases = .ok ()

namespace PhaseList

variable {β σ υ : Type}

/-- The list of these phases, or the first error in their order. -/
def of (phases : List (Phase β)) : Except OrderError (PhaseList β) :=
  match ordered : checkPhases phases with
  | .ok () => .ok ⟨phases, ordered⟩
  | .error error => .error error

def get? (list : PhaseList β) (id : PhaseId) : Option (Phase β) :=
  list.phases.find? (·.id = id)

def ids (list : PhaseList β) : List PhaseId := list.phases.map (·.id)

variable [Executable β σ υ] [WorkUnit υ]

def outlines (list : PhaseList β) : List Outline := list.phases.map Phase.outline

def checkConfig (list : PhaseList β) (config : Config) : Except OrderError Unit :=
  Outline.checkConfig list.outlines config

def graph (list : PhaseList β) : Graph := Graph.ofOutlines list.outlines

/-- One line for each phase, nested phases under their parent. -/
def listing (list : PhaseList β) : String := Outline.listAll 0 list.outlines

def inspect (list : PhaseList β) : String := Outline.inspectAll list.outlines

end PhaseList
end StagedLowering
