import StagedLowering.Tree.File

/-!
# Writes and views

A node is seen through its kind, its list and its parent link. Each write to a file changes one of
them at one node, or adds a node.
-/

namespace StagedLowering.File

def address (file : File) : FileId × String := (file.id, file.path)

def parent? (file : File) (id : NodeId) : Option NodeId := (file.node? id).bind (·.parent)

variable {file : File} {id other : NodeId} {node : Node}

theorem root_lt (file : File) : root < file.size := file.rooted

theorem exists_node? (exists_ : id < file.size) : ∃ node : Node, file.node? id = some node :=
  Option.ne_none_iff_exists'.mp (mt node?_eq_none.mp (Nat.not_le.mpr exists_))

theorem lt_of_node? (found : file.node? id = some node) : id < file.size := by
  refine Nat.not_le.mp fun beyond => ?_
  rw [node?_eq_none.mpr beyond] at found
  cases found

theorem lt_of_kind? {kind : NodeKind} (found : file.kind? id = some kind) : id < file.size := by
  obtain ⟨node, found, _⟩ := Option.map_eq_some_iff.mp found
  exact lt_of_node? found

theorem children_of_node? (found : file.node? id = some node) : file.children id = node.children := by
  simp [children, found]

theorem children_root (file : File) : file.children root = file.rootNode.children :=
  children_of_node? (node?_root file)

theorem parent?_root (file : File) : file.parent? root = file.rootNode.parent := by
  simp [parent?, node?_root]

/-- Nodes with the same views are one node. -/
theorem node?_ext {other : File} (kind : other.kind? id = file.kind? id)
    (list : other.children id = file.children id) (link : other.parent? id = file.parent? id) :
    other.node? id = file.node? id := by
  unfold File.kind? at kind
  unfold File.children at list
  unfold File.parent? at link
  rcases found : file.node? id with _ | node
  · rw [found] at kind
    exact Option.map_eq_none_iff.mp kind
  · rw [found, Option.map_some] at kind
    obtain ⟨another, foundOther, sameKind⟩ := Option.map_eq_some_iff.mp kind
    rw [foundOther, found] at list link
    obtain ⟨kind, parent, children⟩ := node
    obtain ⟨otherKind, otherParent, otherChildren⟩ := another
    cases sameKind
    cases show otherChildren = children from list
    cases show otherParent = parent from link
    exact foundOther

/-- Files with the same address and the same views of every node are one file. -/
theorem ext_of_views {other : File} (address : other.address = file.address)
    (kind? : ∀ id, other.kind? id = file.kind? id)
    (children : ∀ id, other.children id = file.children id)
    (parent? : ∀ id, other.parent? id = file.parent? id) : other = file := by
  have nodes : other.nodes = file.nodes :=
    Array.ext_getElem? fun id => node?_ext (kind? id) (children id) (parent? id)
  obtain ⟨id, path⟩ := Prod.mk.inj address
  obtain ⟨fileId, filePath, fileNodes, rooted⟩ := file
  obtain ⟨otherId, otherPath, otherNodes, otherRooted⟩ := other
  cases id
  cases path
  cases nodes
  rfl

theorem locate_congr {another : File} (same : another.address = file.address) (id : NodeId) :
    another.locate id = file.locate id := by
  obtain ⟨sameId, samePath⟩ := Prod.mk.inj same
  rw [locate, locate, sameId, samePath]

/-- The predicates on a node read its kind alone. -/
theorem isBlock_congr {another : File} (same : another.kind? id = file.kind? id) :
    another.isBlock id = file.isBlock id := by
  rw [isBlock, isBlock, same]

theorem isTemporary_congr {another : File} (same : another.kind? id = file.kind? id) :
    another.isTemporary id = file.isTemporary id := by
  rw [isTemporary, isTemporary, same]

theorem isCall_iff :
    file.isCall id = true ↔ ∃ callee target, file.kind? id = some (.call callee target) := by
  rw [isCall]
  cases file.kind? id with
  | none => simp
  | some kind => cases kind <;> simp [NodeKind.isCall]

theorem isBlock_iff : file.isBlock id = true ↔ file.kind? id = some .block := by
  rw [isBlock]
  cases file.kind? id with
  | none => simp
  | some kind => cases kind <;> simp [NodeKind.isBlock]

theorem isTemporary_iff :
    file.isTemporary id = true ↔ ∃ name, file.kind? id = some (.temporary name) := by
  rw [isTemporary]
  cases file.kind? id with
  | none => simp
  | some kind => cases kind <;> simp [NodeKind.isTemporary]

theorem isBlock_root (plain : file.kind? root = some .root) : file.isBlock root = false := by
  unfold isBlock
  rw [plain]
  rfl

theorem isTemporary_of_isCall (call : file.isCall id = true) : file.isTemporary id = false := by
  obtain ⟨callee, target, kind⟩ := isCall_iff.mp call
  unfold isTemporary
  rw [kind]
  rfl

/-! ### Changes of one node -/

section modify

variable {change : Node → Node}

@[simp] theorem address_modify : (file.modify id change).address = file.address := rfl

@[simp] theorem address_push : (file.push node).address = file.address := rfl

theorem kind?_modify (keeps : ∀ node, (change node).kind = node.kind) :
    (file.modify id change).kind? other = file.kind? other := by
  rw [kind?, kind?, node?_modify]
  split
  · cases file.node? other with
    | none => rfl
    | some node => exact congrArg some (keeps node)
  · rfl

theorem children_modify (keeps : ∀ node, (change node).children = node.children) :
    (file.modify id change).children other = file.children other := by
  rw [children, children, node?_modify]
  split
  · cases file.node? other with
    | none => rfl
    | some node => exact keeps node
  · rfl

theorem parent?_modify (keeps : ∀ node, (change node).parent = node.parent) :
    (file.modify id change).parent? other = file.parent? other := by
  rw [parent?, parent?, node?_modify]
  split
  · cases file.node? other with
    | none => rfl
    | some node => exact keeps node
  · rfl

end modify

@[simp] theorem size_setKind (file : File) (id : NodeId) (kind : NodeKind) :
    (file.setKind id kind).size = file.size := size_modify ..

@[simp] theorem size_setParent (file : File) (id : NodeId) (parent : Option NodeId) :
    (file.setParent id parent).size = file.size := size_modify ..

@[simp] theorem size_setChildren (file : File) (id : NodeId) (children : List NodeId) :
    (file.setChildren id children).size = file.size := size_modify ..

@[simp] theorem children_setKind (file : File) (id other : NodeId) (kind : NodeKind) :
    (file.setKind id kind).children other = file.children other := children_modify fun _ => rfl

@[simp] theorem parent?_setKind (file : File) (id other : NodeId) (kind : NodeKind) :
    (file.setKind id kind).parent? other = file.parent? other := parent?_modify fun _ => rfl

@[simp] theorem kind?_setParent (file : File) (id other : NodeId) (parent : Option NodeId) :
    (file.setParent id parent).kind? other = file.kind? other := kind?_modify fun _ => rfl

@[simp] theorem children_setParent (file : File) (id other : NodeId) (parent : Option NodeId) :
    (file.setParent id parent).children other = file.children other := children_modify fun _ => rfl

@[simp] theorem kind?_setChildren (file : File) (id other : NodeId) (children : List NodeId) :
    (file.setChildren id children).kind? other = file.kind? other := kind?_modify fun _ => rfl

@[simp] theorem parent?_setChildren (file : File) (id other : NodeId) (children : List NodeId) :
    (file.setChildren id children).parent? other = file.parent? other := parent?_modify fun _ => rfl

theorem kind?_setKind (exists_ : id < file.size) (other : NodeId) (kind : NodeKind) :
    (file.setKind id kind).kind? other = if id = other then some kind else file.kind? other := by
  rw [kind?, setKind, node?_modify]
  split
  · next same =>
    obtain ⟨node, found⟩ := exists_node? exists_
    simp [← same, found]
  · rfl

theorem parent?_setParent (exists_ : id < file.size) (other : NodeId) (parent : Option NodeId) :
    (file.setParent id parent).parent? other = if id = other then parent else file.parent? other := by
  rw [parent?, setParent, node?_modify]
  split
  · next same =>
    obtain ⟨node, found⟩ := exists_node? exists_
    simp [← same, found]
  · rfl

@[simp] theorem kind?_modify_map (file : File) (id other : NodeId) (change : NodeId → NodeId) :
    (file.modify id fun node => { node with children := node.children.map change }).kind? other =
      file.kind? other := kind?_modify fun _ => rfl

@[simp] theorem parent?_modify_map (file : File) (id other : NodeId) (change : NodeId → NodeId) :
    (file.modify id fun node => { node with children := node.children.map change }).parent? other =
      file.parent? other := parent?_modify fun _ => rfl

theorem children_modify_map (file : File) (id other : NodeId) (change : NodeId → NodeId) :
    (file.modify id fun node => { node with children := node.children.map change }).children other =
      if id = other then (file.children other).map change else file.children other := by
  rw [children, children, node?_modify]
  split
  · cases file.node? other <;> rfl
  · rfl

theorem children_setChildren (exists_ : id < file.size) (other : NodeId) (list : List NodeId) :
    (file.setChildren id list).children other = if id = other then list else file.children other := by
  rw [children, setChildren, node?_modify]
  split
  · next same =>
    obtain ⟨node, found⟩ := exists_node? exists_
    simp [← same, found]
  · rfl

/-! ### New nodes -/

theorem kind?_push (file : File) (node : Node) (id : NodeId) :
    (file.push node).kind? id = if id = file.size then some node.kind else file.kind? id := by
  rw [kind?, node?_push]
  split <;> rfl

theorem children_push (file : File) (node : Node) (id : NodeId) :
    (file.push node).children id = if id = file.size then node.children else file.children id := by
  rw [children, node?_push]
  split <;> rfl

theorem parent?_push (file : File) (node : Node) (id : NodeId) :
    (file.push node).parent? id = if id = file.size then node.parent else file.parent? id := by
  rw [parent?, node?_push]
  split <;> rfl

end StagedLowering.File
