import StagedLowering.Phase.Outline
import StagedLowering.Text.Quoting

/-!
# The dependency graph

A node for every phase, named by the path of ids down to it; an edge from a prerequisite to the
phase that requires it, and one from a phase to each phase that runs underneath. The graph is for
inspection: the order of execution is that of the list.
-/

namespace StagedLowering

inductive Dependency
  | requires
  | contains
deriving DecidableEq

def Dependency.text : Dependency → String
  | requires => "requires"
  | contains => "contains"

structure Graph where
  nodes : List String := []
  edges : List (Nat × Nat × Dependency) := []
deriving DecidableEq

namespace Graph

/-- The edges into `node`: from the phase it runs underneath, then from its prerequisites. -/
def incoming (parent : Option Nat) (level : List (PhaseId × Nat)) (prerequisites : List PhaseId)
    (node : Nat) : List (Nat × Nat × Dependency) :=
  (parent.toList.map (·, node, .contains)) ++
    (prerequisites.filterMap fun id => level.lookup id).map (·, node, .requires)

mutual

/-- Adds a phase and everything underneath; `level` numbers the phases of its list so far, itself
included. -/
def add (graph : Graph) (parent : Option Nat) (path : String) (level : List (PhaseId × Nat)) :
    Outline → Graph
  | ⟨id, _, _, _, prerequisites, children⟩ =>
    let node := graph.nodes.length
    let grown : Graph := {
      nodes := graph.nodes ++ [path ++ id]
      edges := graph.edges ++ incoming parent level prerequisites node }
    grown.addAll (some node) (path ++ id ++ "/") [] children

def addAll (graph : Graph) (parent : Option Nat) (path : String) (level : List (PhaseId × Nat)) :
    List Outline → Graph
  | [] => graph
  | outline :: rest =>
    let level := (outline.id, graph.nodes.length) :: level
    (graph.add parent path level outline).addAll parent path level rest

end

def ofOutlines (outlines : List Outline) : Graph := addAll {} none "" [] outlines

def nodeLine (number : Nat) (name : String) : String :=
  s!"    {number} [ label = {Text.Quoting.label.quote name} ]\n"

def edgeLine (edge : Nat × Nat × Dependency) : String := s!"    {edge.1} -> {edge.2.1} [ ]\n"

/-- The graph in the DOT language, its edges without labels. -/
def dot (graph : Graph) : String :=
  "digraph \x7b\n" ++ String.join (graph.nodes.mapIdx nodeLine) ++
    String.join (graph.edges.map edgeLine) ++ "\x7d\n"

end Graph
end StagedLowering
