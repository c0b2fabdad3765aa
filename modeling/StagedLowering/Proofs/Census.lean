import StagedLowering.Pass.Verify
import StagedLowering.Proofs.FileLowering
import StagedLowering.Proofs.Opening

/-!
# Counting nodes

What the passes over a file count is told by the tree they start from: flattening counts its blocks
(`flatten_count`), repairing links the nodes that blocks list (`WellLinked.patched_flatten`),
and wrapping its calls (`length_exposedCalls_repaired`). What is reachable in the lowered file are the
nodes that are no blocks and one temporary for each call (`IsTree.kinds_lowered`).
-/

namespace StagedLowering

namespace File

variable {file other : File} {below : Forest} {id : NodeId} {number : Nat}

/-! ### Reachable kinds -/

theorem countP_kinds (holds : NodeKind → Bool) (file : File) :
    file.kinds.countP holds = file.preorder.countP fun id => (file.kind? id).any holds := by
  rw [kinds, List.countP_filterMap]
  refine List.countP_congr fun id _ => ?_
  cases file.kind? id <;> simp

/-- Files with the same lists are walked in the same order. -/
theorem walkFrom_congr (children : ∀ id, other.children id = file.children id)
    (unseen : List NodeId) (pending : List (NodeId × Nat)) :
    other.walkFrom unseen pending = file.walkFrom unseen pending := by
  fun_induction walkFrom file unseen pending with
  | case1 => rw [walkFrom]
  | case2 unseen id depth pending fresh ih => rw [walkFrom, if_pos fresh, children, ih]
  | case3 unseen id depth pending seen ih => rw [walkFrom, if_neg seen, ih]

theorem preorder_congr (size : other.size = file.size)
    (children : ∀ id, other.children id = file.children id) : other.preorder = file.preorder := by
  rw [preorder, preorder, walk, walk, size, walkFrom_congr children]

/-! ### Blocks -/

theorem IsTree.preorder_flatten (tree : file.IsTree below) (rootPlain : file.isBlock root = false) :
    file.flatten.1.preorder = file.preorder.filter (!file.isBlock ·) := by
  rw [(tree.flatten rootPlain).preorder_eq, tree.preorder_eq, Forest.ids_contract, List.filter_cons,
    rootPlain]
  rfl

theorem IsTree.kinds_flatten (tree : file.IsTree below) (rootPlain : file.isBlock root = false) :
    file.flatten.1.kinds = file.kinds.filter (!·.isBlock) := by
  rw [kinds, kinds, tree.preorder_flatten rootPlain, List.filterMap_filter, List.filter_filterMap]
  refine List.filterMap_congr fun id _ => ?_
  rw [kind?_flatten]
  unfold isBlock
  cases file.kind? id with
  | none => rfl
  | some kind => cases kind.isBlock <;> rfl

/-- Flattening counts the reachable blocks. -/
theorem flatten_count (rootPlain : file.isBlock root = false) :
    file.flatten.2 = file.kinds.countP (·.isBlock) := by
  rw [flatten_snd_eq rootPlain, ← List.countP_eq_length_filter, countP_kinds]
  rfl

/-! ### Links -/

section patching

variable (state : File × Nat) (edges : List (NodeId × NodeId))

theorem patched_patchEdge {edge : NodeId × NodeId} (exists_ : edge.2 < state.1.size) :
    (patchEdge state edge).2 =
      state.2 + if state.1.parent? edge.2 = some edge.1 then 0 else 1 := by
  obtain ⟨node, found⟩ := exists_node? exists_
  have link : state.1.parent? edge.2 = node.parent := by rw [parent?, found, Option.bind_some]
  rw [patchEdge, found, link]
  by_cases points : node.parent = some edge.1
  · simp [points]
  · simp [points]

/-- Of edges to different nodes those are counted that the links do not agree with yet. -/
theorem patched_patchEdges (inRange : ∀ edge ∈ edges, edge.2 < state.1.size)
    (distinct : (edges.map (·.2)).Nodup) :
    (edges.foldl patchEdge state).2 =
      state.2 + edges.countP fun edge => state.1.parent? edge.2 ≠ some edge.1 := by
  induction edges generalizing state with
  | nil => rfl
  | cons edge edges ih =>
    rw [List.forall_mem_cons] at inRange
    rw [List.map_cons, List.nodup_cons] at distinct
    have untouched : ∀ later ∈ edges,
        (patchEdge state edge).1.parent? later.2 = state.1.parent? later.2 := by
      intro later member
      rw [parent?_patchEdge _ _ inRange.1, if_neg]
      exact fun same => distinct.1 (List.mem_map.mpr ⟨later, member, same.symm⟩)
    have rest : (edges.countP fun later =>
          (patchEdge state edge).1.parent? later.2 ≠ some later.1) =
        edges.countP fun later => state.1.parent? later.2 ≠ some later.1 :=
      List.countP_congr fun later member => by rw [untouched later member]
    rw [List.foldl_cons, ih _ (by simpa using inRange.2) distinct.2, rest,
      patched_patchEdge _ inRange.1, List.countP_cons]
    by_cases points : state.1.parent? edge.2 = some edge.1
    · simp [points]
    · simp [points]
      omega

end patching

theorem IsTree.countP_edges (tree : file.IsTree below) (holds : NodeId → Bool) :
    (file.edges.countP fun edge => holds edge.2) = below.ids.countP holds := by
  rw [← tree.edges_perm.countP_eq, List.countP_map]
  rfl

theorem IsTree.patched_patchLinks (tree : file.IsTree below) :
    file.patchLinks.2 = file.edges.countP fun edge => file.parent? edge.2 ≠ some edge.1 := by
  have distinct := tree.edges_perm.nodup_iff.mpr (List.nodup_cons.mp tree.nodup).2
  have patched := patched_patchEdges (file, 0) file.edges
    (fun _ member => (mem_edges.mp member).2.2) distinct
  rwa [Nat.zero_add] at patched

def inBlock (file : File) (id : NodeId) : Bool :=
  file.preorder.any fun block => file.isBlock block && decide (id ∈ file.children block)

/-- The reachable nodes that a block lists and that are no blocks themselves. -/
def blockContents (file : File) : List NodeId :=
  file.preorder.filter fun id => !file.isBlock id && file.inBlock id

theorem inBlock_iff :
    file.inBlock id = true ↔
      ∃ block, file.Reachable block ∧ file.isBlock block = true ∧ id ∈ file.children block := by
  simp only [inBlock, List.any_eq_true, Bool.and_eq_true, decide_eq_true_eq, mem_preorder]

/-- No block lists the root of a tree. -/
theorem IsTree.blockContents_eq (tree : file.IsTree below) :
    file.blockContents = below.ids.filter fun id => !file.isBlock id && file.inBlock id := by
  have rootless : file.inBlock root = false := by
    refine Bool.eq_false_iff.mpr fun held => ?_
    obtain ⟨block, reachable, _, listed⟩ := inBlock_iff.mp held
    exact tree.treeShaped.rootUnlisted reachable listed
  rw [blockContents, tree.preorder_eq, List.filter_cons, rootless, Bool.and_false]
  rfl

theorem Reachable.exists_parent (reachable : file.Reachable id) (apart : id ≠ File.root) :
    ∃ parent, file.Reachable parent ∧ id ∈ file.children parent := by
  cases reachable with
  | root => exact absurd rfl apart
  | child above listed _ => exact ⟨_, above, listed⟩

/-- What is reachable below a node stays there if neither is a block. -/
theorem IsTree.edge_flatten (tree : file.IsTree below) (rootPlain : file.isBlock root = false)
    {parent : NodeId} (reachable : file.Reachable parent) (plain : file.isBlock parent = false)
    (listed : id ∈ file.children parent) (childPlain : file.isBlock id = false) :
    file.flatten.1.Reachable parent ∧ id ∈ file.flatten.1.children parent := by
  obtain ⟨fresh, list⟩ := children_flatten reachable plain
  refine ⟨mem_preorder.mp ?_, list ▸ mem_splice_of_mem childPlain listed⟩
  rw [tree.preorder_flatten rootPlain]
  exact List.mem_filter.mpr ⟨mem_preorder.mpr reachable, by rw [plain]; rfl⟩

/-- After flattening a link is stale exactly if it names a block. -/
theorem WellLinked.stale_iff (linked : file.WellLinked) (rootPlain : file.isBlock root = false)
    {parent : NodeId} (reachable : file.flatten.1.Reachable parent)
    (listed : id ∈ file.flatten.1.children parent) (childPlain : file.isBlock id = false)
    (above : ∃ old, file.Reachable old ∧ id ∈ file.children old) :
    file.parent? id ≠ some parent ↔ file.inBlock id = true := by
  obtain ⟨below, tree⟩ := treeShaped_iff.mp linked.shaped
  obtain ⟨old, oldReachable, oldListed⟩ := above
  have parentPlain := isBlock_of_reachable_flatten rootPlain reachable
  rw [linked.links oldReachable oldListed, inBlock_iff, ne_eq, Option.some_inj]
  constructor
  · intro moved
    refine ⟨old, oldReachable, Bool.not_eq_false _ ▸ fun plain => moved ?_, oldListed⟩
    obtain ⟨still, stillListed⟩ := tree.edge_flatten rootPlain oldReachable plain oldListed childPlain
    exact (tree.flatten rootPlain).treeShaped.single still reachable stillListed listed
  · rintro ⟨block, blockReachable, isBlock, blockListed⟩ same
    have one := linked.shaped.single oldReachable blockReachable oldListed blockListed
    rw [← same, one, isBlock] at parentPlain
    cases parentPlain

/-- The links that have to be repaired once a file is flattened are those of the nodes that a block
listed. -/
theorem WellLinked.patched_flatten (linked : file.WellLinked)
    (rootPlain : file.isBlock root = false) :
    file.flatten.1.patchLinks.2 = file.blockContents.length := by
  obtain ⟨below, tree⟩ := treeShaped_iff.mp linked.shaped
  have flat := tree.flatten rootPlain
  have stale : (file.flatten.1.edges.countP fun edge =>
        file.flatten.1.parent? edge.2 ≠ some edge.1) =
      file.flatten.1.edges.countP fun edge => file.inBlock edge.2 := by
    refine List.countP_congr fun edge member => ?_
    obtain ⟨reachable, listed, exists_⟩ := mem_edges.mp member
    have childReachable := Reachable.child reachable listed exists_
    have childPlain := isBlock_of_reachable_flatten rootPlain childReachable
    have apart : edge.2 ≠ root := fun same =>
      flat.treeShaped.rootUnlisted reachable (same ▸ listed)
    rw [decide_eq_true_eq, parent?_flatten]
    exact linked.stale_iff rootPlain reachable listed childPlain
      ((reachable_of_flatten childReachable).exists_parent apart)
  rw [flat.patched_patchLinks, stale, flat.countP_edges, Forest.ids_contract, List.countP_filter,
    tree.blockContents_eq, ← List.countP_eq_length_filter]
  simp only [Bool.and_comm]

/-! ### Calls -/

/-- Where no temporary is yet every call is exposed. -/
theorem IsTree.length_exposedCalls (tree : file.IsTree below) (plain : file.kind? root = some .root)
    (fresh : ∀ id, file.Reachable id → file.isTemporary id = false) :
    file.exposedCalls.length = file.kinds.countP (·.isCall) := by
  have rootless : (file.kind? root).any (·.isCall) = false := by
    rw [plain]
    rfl
  have all : file.exposedCalls = file.edges.filter fun edge => file.isCall edge.2 := by
    refine List.filter_congr fun edge member => ?_
    show (file.isCall edge.2 && !file.isTemporary edge.1) = _
    rw [fresh _ (mem_edges.mp member).1, Bool.not_false, Bool.and_true]
  rw [all, ← List.countP_eq_length_filter, tree.countP_edges, countP_kinds, tree.preorder_eq,
    List.countP_cons, rootless]
  rfl

theorem IsTree.preorder_wrapCall (tree : file.IsTree below) {parent call : NodeId}
    (reachable : file.Reachable parent) (listed : call ∈ file.children parent) :
    (file.wrapCall number (parent, call)).preorder.Perm (file.size :: file.preorder) := by
  have grown : (file.wrapCall number (parent, call)).IsTree (below.wrap call file.size) :=
    tree.wrapCall reachable listed
  have perm := @Forest.ids_wrap_perm _ call file.size (List.nodup_cons.mp tree.nodup).2
    (tree.mem_of_listed reachable listed)
  rw [grown.preorder_eq, tree.preorder_eq]
  exact (perm.cons root).trans (.swap ..)

def temporaries (number count : Nat) : List NodeKind :=
  (List.range' number count).map fun i => .temporary s!"tmp{i}"

theorem IsTree.kinds_wrapCall (tree : file.IsTree below) {parent call : NodeId}
    (reachable : file.Reachable parent) (listed : call ∈ file.children parent) :
    (file.wrapCall number (parent, call)).kinds.Perm
      (.temporary s!"tmp{number}" :: file.kinds) := by
  have kinds : (file.size :: file.preorder).filterMap
        (file.wrapCall number (parent, call)).kind? =
      .temporary s!"tmp{number}" :: file.kinds := by
    rw [List.filterMap_cons, kind?_wrapCall, if_pos rfl]
    refine congrArg _ (List.filterMap_congr fun id member => ?_)
    rw [kind?_wrapCall, if_neg (Nat.ne_of_lt (mem_preorder.mp member).lt)]
  rw [← kinds]
  exact (tree.preorder_wrapCall reachable listed).filterMap _

theorem IsTree.kinds_wrapEdges {edges : List (NodeId × NodeId)} (tree : file.IsTree below)
    (exposed : file.Exposed edges) (number : Nat) :
    (file.wrapEdges number edges).kinds.Perm (temporaries number edges.length ++ file.kinds) := by
  induction edges generalizing file below number with
  | nil => exact .rfl
  | cons edge edges ih =>
    obtain ⟨parent, call⟩ := edge
    obtain ⟨reachable, listed, _, _⟩ := exposed.head
    have step : (file.wrapCall number (parent, call)).kinds.Perm _ :=
      tree.kinds_wrapCall reachable listed
    have rest := ih (tree.wrapCall reachable listed) (exposed.wrapCall tree number) (number + 1)
    exact rest.trans ((step.append_left _).trans List.perm_middle)

/-! ### Lowering -/

theorem kinds_patchLinks (file : File) : file.patchLinks.1.kinds = file.kinds := by
  rw [kinds, kinds, preorder_congr (size_patchLinks file) (children_patchLinks file)]
  simp only [kind?_patchLinks]

theorem IsTree.repaired (tree : file.IsTree below) (rootPlain : file.isBlock root = false) :
    file.repaired.IsTree (below.contract file.isBlock) := by
  obtain ⟨spells, nodup, inRange⟩ := tree.flatten rootPlain
  refine ⟨spells.congr fun id _ => children_patchLinks _ id, nodup, fun id member => ?_⟩
  rw [File.repaired, size_patchLinks]
  exact inRange id member

theorem IsTree.length_exposedCalls_repaired (tree : file.IsTree below)
    (plain : file.kind? root = some .root)
    (fresh : ∀ id, file.Reachable id → file.isTemporary id = false) :
    file.repaired.exposedCalls.length = file.kinds.countP (·.isCall) := by
  have rootPlain := isBlock_root plain
  rw [(tree.repaired rootPlain).length_exposedCalls ((kind?_repaired file root).trans plain),
    File.repaired, kinds_patchLinks, tree.kinds_flatten rootPlain, List.countP_filter]
  · refine List.countP_congr fun kind _ => ?_
    cases kind <;> simp [NodeKind.isCall, NodeKind.isBlock]
  · intro id reachable
    rw [isTemporary_congr (kind?_repaired file id)]
    exact fresh id (reachable_of_repaired reachable)

/-- Lowering takes the blocks out and puts in a temporary for each call that is exposed. -/
theorem IsTree.kinds_lowered (tree : file.IsTree below) (rootPlain : file.isBlock root = false)
    (number : Nat) :
    (file.lowered number).kinds.Perm
      (temporaries number file.repaired.exposedCalls.length ++ file.kinds.filter (!·.isBlock)) := by
  have repaired := tree.repaired rootPlain
  have kinds : file.repaired.kinds = file.kinds.filter (!·.isBlock) := by
    rw [File.repaired, kinds_patchLinks, tree.kinds_flatten rootPlain]
  rw [← kinds]
  exact repaired.kinds_wrapEdges repaired.exposed number

end File

end StagedLowering
