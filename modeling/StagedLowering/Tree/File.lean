import StagedLowering.Tree.Node

/-!
# Files

A file keeps its nodes in the order they were made. Node 0 is its root and is always there. Nodes
are never removed: one that no list mentions is unreachable.
-/

namespace StagedLowering

structure File where
  id : FileId := 0
  path : String
  nodes : Array Node := #[{ kind := .root }]
  rooted : 0 < nodes.size := by decide
deriving DecidableEq

namespace File

def root : NodeId := 0

def rootNode (file : File) : Node :=
  have := file.rooted
  file.nodes[0]

/-- How many nodes there are, reachable or not. -/
def size (file : File) : Nat := file.nodes.size

def node? (file : File) (id : NodeId) : Option Node := file.nodes[id]?

def kind? (file : File) (id : NodeId) : Option NodeKind := (file.node? id).map (·.kind)

/-- The nodes that `id` lists, none if there is no such node. -/
def children (file : File) (id : NodeId) : List NodeId := (file.node? id).elim [] (·.children)

def isBlock (file : File) (id : NodeId) : Bool := (file.kind? id).any (·.isBlock)

def isCall (file : File) (id : NodeId) : Bool := (file.kind? id).any (·.isCall)

def isTemporary (file : File) (id : NodeId) : Bool := (file.kind? id).any (·.isTemporary)

def locate (file : File) (id : NodeId) : Location := ⟨file.id, file.path, id⟩

def label (file : File) : String := s!"file `{file.path}`"

/-- Changes one node; nothing happens if it does not exist. -/
def modify (file : File) (id : NodeId) (change : Node → Node) : File :=
  { file with
    nodes := file.nodes.modify id change
    rooted := by simpa using file.rooted }

def setKind (file : File) (id : NodeId) (kind : NodeKind) : File :=
  file.modify id ({ · with kind })

def setParent (file : File) (id : NodeId) (parent : Option NodeId) : File :=
  file.modify id ({ · with parent })

def setChildren (file : File) (id : NodeId) (children : List NodeId) : File :=
  file.modify id ({ · with children })

/-- Adds a node as number `file.size`; no list mentions it yet. -/
def push (file : File) (node : Node) : File :=
  { file with nodes := file.nodes.push node, rooted := by simp }

@[simp] theorem size_modify (file : File) (id : NodeId) (change : Node → Node) :
    (file.modify id change).size = file.size := by
  simp [size, modify]

@[simp] theorem size_push (file : File) (node : Node) : (file.push node).size = file.size + 1 := by
  simp [size, push]

theorem node?_modify (file : File) (id other : NodeId) (change : Node → Node) :
    (file.modify id change).node? other =
      if id = other then (file.node? other).map change else file.node? other := by
  simp [node?, modify, Array.getElem?_modify]

theorem node?_push (file : File) (node : Node) (id : NodeId) :
    (file.push node).node? id = if id = file.size then some node else file.node? id := by
  simp only [node?, push, Array.getElem?_push]
  rfl

theorem node?_root (file : File) : file.node? root = some file.rootNode := by
  simp [node?, rootNode, root, Array.getElem?_eq_getElem file.rooted]

theorem node?_eq_none {file : File} {id : NodeId} : file.node? id = none ↔ file.size ≤ id := by
  simp [node?, size]

end File
end StagedLowering
