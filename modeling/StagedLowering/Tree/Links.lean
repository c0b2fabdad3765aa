import StagedLowering.Tree.Module
import StagedLowering.Failure

/-!
# Parent links

A file is well linked if what is reachable is a tree and every node's parent link names the node
that lists it. `checkLinks` goes through the edges in the order of a walk and reports the first
that is wrong.
-/

namespace StagedLowering

/-- Goes through pending edges; those of a node that is in order come before what was pending. -/
def File.checkEdges (file : File) (unseen : List NodeId) :
    List (NodeId × NodeId) → Except Violation Unit
  | [] => .ok ()
  | (parent, child) :: pending =>
    match file.node? child with
    | none => .error ⟨.childOutOfRange, file.locate parent⟩
    | some node =>
      if child ∈ unseen then
        match node.parent with
        | none => .error ⟨.linkUnset, file.locate child⟩
        | some link =>
          if link = parent then
            file.checkEdges (unseen.erase child) (node.children.map (child, ·) ++ pending)
          else .error ⟨.linkPointsAt link parent, file.locate child⟩
      else .error ⟨.reachedTwice, file.locate parent⟩
termination_by unseen.length
decreasing_by
  have := List.length_erase_of_mem ‹child ∈ unseen›
  have := List.length_pos_of_mem ‹child ∈ unseen›
  omega

def File.checkLinks (file : File) : Except Violation Unit :=
  match file.rootNode.parent with
  | some parent => .error ⟨.rootHasParent parent, file.locate root⟩
  | none =>
    file.checkEdges ((List.range file.size).erase root) (file.rootNode.children.map (root, ·))

def Module.checkLinks (m : Module) : Except Violation Unit := m.files.forM File.checkLinks

end StagedLowering
