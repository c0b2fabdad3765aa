import StagedLowering.Tree.File
import StagedLowering.Text.Columns

/-!
# Walking a file

The walk starts at the root and takes children from left to right. A node is entered once, and a
number beyond the end of the file is passed over, so the walk ends whatever the children lists say.
-/

namespace StagedLowering.File

/-- Walks the pending nodes in order, each with its depth. The children of a node that is entered
go in front of what was pending. -/
def walkFrom (file : File) (unseen : List NodeId) :
    List (NodeId × Nat) → List (NodeId × Nat)
  | [] => []
  | (id, depth) :: pending =>
    if id ∈ unseen then
      (id, depth) ::
        file.walkFrom (unseen.erase id) ((file.children id).map (·, depth + 1) ++ pending)
    else file.walkFrom unseen pending
termination_by pending => (unseen.length, pending.length)
decreasing_by
  · have := List.length_erase_of_mem ‹id ∈ unseen›
    have := List.length_pos_of_mem ‹id ∈ unseen›
    exact Prod.Lex.left _ _ (by omega)
  · exact Prod.Lex.right _ (by simp)

/-- The reachable nodes with their depths, the root first at depth 0. -/
def walk (file : File) : List (NodeId × Nat) :=
  file.walkFrom (List.range file.size) [(root, 0)]

def preorder (file : File) : List NodeId := file.walk.map (·.1)

/-- Who lists whom among the reachable nodes, as often as it is listed. -/
def edges (file : File) : List (NodeId × NodeId) :=
  (file.preorder.flatMap fun id => (file.children id).map (id, ·)).filter (·.2 < file.size)

def parentText : Option NodeId → String
  | some parent => s!"#{parent}"
  | none => "-"

def renderNode (id : NodeId) (depth : Nat) (node : Node) : String :=
  s!"{Text.indent depth}#{id} {node.kind.text} (parent {parentText node.parent})\n"

/-- One line for the file and one for each reachable node below the root. -/
def render (file : File) : String :=
  s!"file {file.path}\n" ++ String.join (file.walk.tail.map fun (id, depth) =>
    ((file.node? id).map (renderNode id depth)).getD "")

end StagedLowering.File
