import StagedLowering.Run

/-!
# Blocks

Flattening puts the statements of a block in its place, those of blocks inside it too, in every list
of a reachable node that is no block. A block is expanded once; reached again it yields nothing. The
nodes that were lifted keep their parent links, which `patchLinks` repairs.
-/

namespace StagedLowering.File

/-- The nodes that pending ones stand for, and the blocks that are still fresh after that. -/
def splice (file : File) (fresh : List NodeId) : List NodeId → List NodeId × List NodeId
  | [] => ([], fresh)
  | id :: pending =>
    if file.isBlock id then
      if id ∈ fresh then file.splice (fresh.erase id) (file.children id ++ pending)
      else file.splice fresh pending
    else
      let (spliced, fresh) := file.splice fresh pending
      (id :: spliced, fresh)
termination_by pending => (fresh.length, pending.length)
decreasing_by
  · have := List.length_erase_of_mem ‹id ∈ fresh›
    have := List.length_pos_of_mem ‹id ∈ fresh›
    exact Prod.Lex.left _ _ (by omega)
  · exact Prod.Lex.right _ (by simp)
  · exact Prod.Lex.right _ (by simp)

/-- Flattens the list of one node, unless it is a block. -/
def flattenAt (id : NodeId) (state : File × List NodeId) : File × List NodeId :=
  let (file, fresh) := state
  if file.isBlock id then state
  else
    let (spliced, fresh) := file.splice fresh (file.children id)
    (file.setChildren id spliced, fresh)

/-- The flattened file and the number of blocks that were expanded. -/
def flatten (file : File) : File × Nat :=
  let fresh := (List.range file.size).filter file.isBlock
  let (flat, left) := file.preorder.foldl (fun state id => flattenAt id state) (file, fresh)
  (flat, fresh.length - left.length)

/-- Points the child of an edge at its parent, and counts it if it did not point there. -/
def patchEdge (state : File × Nat) (edge : NodeId × NodeId) : File × Nat :=
  let (file, patched) := state
  let (parent, child) := edge
  if (file.node? child).any (·.parent ≠ some parent) then
    (file.setParent child (some parent), patched + 1)
  else state

/-- The file with its links repaired, and how many links changed. -/
def patchLinks (file : File) : File × Nat := file.edges.foldl patchEdge (file, 0)

end File

open File

variable {σ : Type}

def flattenBlocks : Run σ File Failure Unit := do
  let file ← Run.getUnit
  let (flat, count) := file.flatten
  Run.setUnit flat
  if 0 < count then Run.emit (.flattened file.path count)
  Run.onContext (·.bump "blocks_flattened" count)

def patchParents : Run σ File Failure Unit := do
  let (file, patched) := (← Run.getUnit).patchLinks
  Run.setUnit file
  Run.onContext (·.bump "parents_patched" patched)

end StagedLowering
