import StagedLowering.Proofs.Census
import StagedLowering.Proofs.Faults

/-!
# Stale links

What the check of links says of a file that was flattened and not repaired. In a tree only links can
be at fault (`IsTree.checkLinks_eq`), and those that flattening leaves behind are the links to the
blocks it took out, so the check names the first node that was lifted (`flattenBlocks_unrepaired`).
-/

namespace StagedLowering

namespace File

variable {file : File} {forest below : Forest} {unseen : List NodeId}
  {earlier edges : List (NodeId × NodeId)} {parent child id : NodeId}

/-! ### The search of a tree -/

theorem descend_fresh (fresh : child ∈ unseen) (rest : List NodeId) :
    (file.descend unseen parent (child :: rest)).1.1 =
      (parent, child) :: ((file.descend (unseen.erase child) child (file.children child)).1.1 ++
        (file.descend (file.descend (unseen.erase child) child (file.children child)).1.2
          parent rest).1.1) := by
  rw [descend, if_pos fresh]

/-- Below nodes that spell a forest a search enters the nodes of the forest in their order. -/
theorem Tracks.descend_forest (tracks : file.Tracks unseen earlier) (spells : file.Spells forest)
    (nodup : forest.ids.Nodup) (fresh : forest.ids ⊆ unseen) (parent : NodeId) :
    (file.descend unseen parent forest.roots).1.1.map (·.2) = forest.ids := by
  induction forest generalizing unseen earlier parent with
  | nil => rw [Forest.roots, File.descend]; rfl
  | cons id below beside belowIh besideIh =>
    obtain ⟨lists, belowSpells, besideSpells⟩ := spells
    rw [Forest.ids, List.cons_subset, List.append_subset] at fresh
    rw [Forest.ids, List.nodup_cons, List.nodup_append'] at nodup
    obtain ⟨new, belowNodup, besideNodup, apart⟩ := nodup
    have entered := tracks.enter parent id
    have belowFresh : below.ids ⊆ unseen.erase id := fun x member =>
      tracks.nodup.mem_erase_iff.mpr
        ⟨fun same => new (List.mem_append_left _ (same ▸ member)), fresh.2.1 member⟩
    have inner := belowIh entered belowSpells belowNodup belowFresh id
    have passed := entered.descend id below.roots
    have besideFresh : beside.ids ⊆ (file.descend (unseen.erase id) id below.roots).1.2 := by
      intro x member
      rw [passed.mem]
      have outside := (tracks.mem x).mp (fresh.2.2 member)
      refine ⟨outside.1, outside.2.1, ?_⟩
      rw [List.map_append, List.map_append, inner]
      simp only [List.map_cons, List.map_nil, List.mem_append, List.mem_singleton, not_or]
      exact ⟨⟨outside.2.2, fun same => new (List.mem_append_right _ (same ▸ member))⟩,
        fun again => apart again member⟩
    rw [Forest.roots, descend_fresh fresh.1, lists, List.map_cons, List.map_append, inner,
      besideIh passed besideSpells besideNodup besideFresh, Forest.ids]

theorem IsTree.descent_ids (tree : file.IsTree below) : file.descent.map (·.2) = below.ids := by
  have found := file.tracks_nil.descend_forest tree.spells.2.1 (List.nodup_cons.mp tree.nodup).2
    tree.fresh root
  rwa [← tree.spells.1] at found

theorem mem_descent (file : File) :
    (parent, child) ∈ file.descent ↔ file.Reachable parent ∧ child ∈ file.children parent := by
  rw [file.descent_perm.mem_iff]
  simp [edgesFrom, mem_preorder]

/-! ### Faults of links -/

def linkFault (file : File) : NodeId × NodeId → Option Violation
  | (parent, child) =>
    match file.parent? child with
    | none => some ⟨.linkUnset, file.locate child⟩
    | some link =>
      if link = parent then none else some ⟨.linkPointsAt link parent, file.locate child⟩

/-- Edges to different nodes of the file other than the root are at fault for their links alone. -/
theorem firstFault_of_distinct (inRange : ∀ edge ∈ edges, edge.2 < file.size ∧ edge.2 ≠ root)
    (distinct : (earlier.map (·.2) ++ edges.map (·.2)).Nodup) :
    file.firstFault earlier edges = edges.findSome? file.linkFault := by
  induction edges generalizing earlier with
  | nil => rfl
  | cons edge edges ih =>
    obtain ⟨parent, child⟩ := edge
    rw [List.forall_mem_cons] at inRange
    obtain ⟨⟨exists_, apart⟩, later⟩ := inRange
    have unreached : child ∉ earlier.map (·.2) := fun before =>
      (List.nodup_append'.mp distinct).2.2 before List.mem_cons_self
    have here : file.edgeFault earlier (parent, child) = file.linkFault (parent, child) := by
      rw [edgeFault, if_neg (Nat.not_le.mpr exists_), if_neg (not_or.mpr ⟨apart, unreached⟩)]
      rfl
    rw [firstFault, here, ih later (by simpa using distinct), List.findSome?_cons]
    cases file.linkFault (parent, child) with
    | none => rfl
    | some violation => rfl

/-- In a tree whose root has no link only other links can be at fault. -/
theorem IsTree.checkLinks_eq (tree : file.IsTree below) (unset : file.rootNode.parent = none) :
    file.checkLinks = (file.descent.findSome? file.linkFault).elim (.ok ()) .error := by
  rw [checkLinks_of_unset unset, firstFault_of_distinct]
  · intro edge member
    obtain ⟨rootless, -⟩ := List.nodup_cons.mp tree.nodup
    have inTree : edge.2 ∈ below.ids :=
      tree.descent_ids ▸ List.mem_map.mpr ⟨edge, member, rfl⟩
    exact ⟨tree.inRange _ inTree, fun same => rootless (same ▸ inTree)⟩
  · rw [List.map_nil, List.nil_append, tree.descent_ids]
    exact (List.nodup_cons.mp tree.nodup).2

/-! ### Links that flattening leaves behind -/

/-- Of a flattened file the search finds the nodes that blocks listed in the order of a walk of the
file before. -/
theorem IsTree.blockContents_flatten (tree : file.IsTree below)
    (rootPlain : file.isBlock root = false) :
    file.blockContents = (file.flatten.1.descent.map (·.2)).filter file.inBlock := by
  rw [(tree.flatten rootPlain).descent_ids, Forest.ids_contract, List.filter_filter,
    tree.blockContents_eq]
  simp only [Bool.and_comm]

/-- Which edges of the flattened file are at fault, and how. -/
theorem WellLinked.linkFault_flatten (linked : file.WellLinked)
    (rootPlain : file.isBlock root = false) (edge : (parent, child) ∈ file.flatten.1.descent) :
    (file.inBlock child = false ∧ file.flatten.1.linkFault (parent, child) = none) ∨
    (file.inBlock child = true ∧ ∃ block, file.isBlock block = true ∧ (block, child) ∈ file.edges ∧
      file.flatten.1.linkFault (parent, child) =
        some ⟨.linkPointsAt block parent, file.locate child⟩) := by
  obtain ⟨below, tree⟩ := treeShaped_iff.mp linked.shaped
  have flat := (tree.flatten rootPlain).treeShaped
  obtain ⟨reachable, listed⟩ := (mem_descent _).mp edge
  have exists_ := flat.inRange reachable listed
  have childReachable := Reachable.child reachable listed exists_
  have childPlain := isBlock_of_reachable_flatten rootPlain childReachable
  have apart : child ≠ root := fun same => flat.rootUnlisted reachable (same ▸ listed)
  obtain ⟨old, oldReachable, oldListed⟩ := (reachable_of_flatten childReachable).exists_parent apart
  have link : file.flatten.1.parent? child = some old := by
    rw [parent?_flatten]
    exact linked.links oldReachable oldListed
  have stale := linked.stale_iff rootPlain reachable listed childPlain ⟨old, oldReachable, oldListed⟩
  rw [← parent?_flatten, link, ne_eq, Option.some_inj] at stale
  cases lifted : file.inBlock child with
  | false =>
    have same : old = parent := by simpa [lifted] using stale
    refine .inl ⟨rfl, ?_⟩
    simp [linkFault, link, same]
  | true =>
    obtain ⟨block, blockReachable, isBlock, blockListed⟩ := inBlock_iff.mp lifted
    have one := linked.shaped.single oldReachable blockReachable oldListed blockListed
    refine .inr ⟨rfl, block, isBlock, mem_edges.mpr ⟨blockReachable, blockListed, ?_⟩, ?_⟩
    · exact (reachable_of_flatten childReachable).lt
    · have moved : block ≠ parent := one ▸ stale.mpr lifted
      simp [linkFault, link, one, moved, locate_congr (address_flatten file)]

theorem WellLinked.linkFault_flatten_none (linked : file.WellLinked)
    (rootPlain : file.isBlock root = false) {edge : NodeId × NodeId}
    (member : edge ∈ file.flatten.1.descent) (notLifted : ¬file.inBlock edge.2 = true) :
    file.flatten.1.linkFault edge = none := by
  rcases linked.linkFault_flatten rootPlain member with ⟨-, fine⟩ | ⟨lifted, -⟩
  · exact fine
  · exact absurd lifted notLifted

/-- A flattened file is checked by its links alone. -/
theorem WellLinked.checkLinks_flatten (linked : file.WellLinked)
    (rootPlain : file.isBlock root = false) :
    file.flatten.1.checkLinks =
      (file.flatten.1.descent.findSome? file.flatten.1.linkFault).elim (.ok ()) .error := by
  obtain ⟨below, tree⟩ := treeShaped_iff.mp linked.shaped
  have unset : file.flatten.1.rootNode.parent = none := by
    rw [← parent?_root, parent?_flatten, parent?_root, linked.rootUnset]
  exact (tree.flatten rootPlain).checkLinks_eq unset

theorem WellLinked.checkLinks_flatten_none (linked : file.WellLinked)
    (rootPlain : file.isBlock root = false) (nothing : file.blockContents = []) :
    file.flatten.1.checkLinks = .ok () := by
  obtain ⟨below, tree⟩ := treeShaped_iff.mp linked.shaped
  have notLifted := List.filter_eq_nil_iff.mp
    ((tree.blockContents_flatten rootPlain).symm.trans nothing)
  have fine : ∀ edge ∈ file.flatten.1.descent, file.flatten.1.linkFault edge = none :=
    fun edge member => linked.linkFault_flatten_none rootPlain member
      (notLifted edge.2 (List.mem_map.mpr ⟨edge, member, rfl⟩))
  rw [linked.checkLinks_flatten rootPlain, List.findSome?_eq_none_iff.mpr fine]
  rfl

theorem WellLinked.checkLinks_flatten_first {rest : List NodeId} (linked : file.WellLinked)
    (rootPlain : file.isBlock root = false) (contents : file.blockContents = id :: rest) :
    ∃ block parent, file.isBlock block = true ∧ (block, id) ∈ file.edges ∧
      (parent, id) ∈ file.flatten.1.edges ∧
      file.flatten.1.checkLinks = .error ⟨.linkPointsAt block parent, file.locate id⟩ := by
  obtain ⟨below, tree⟩ := treeShaped_iff.mp linked.shaped
  -- The search comes to the lifted nodes in the order in which they are named.
  obtain ⟨before, after, split, notBefore, lifted, -⟩ := List.filter_eq_cons_iff.mp
    ((tree.blockContents_flatten rootPlain).symm.trans contents)
  obtain ⟨earlier, edges, whole, ends, rest⟩ := List.map_eq_append_iff.mp split
  obtain ⟨⟨parent, child⟩, later, rfl, rfl, -⟩ := List.map_eq_cons_iff.mp rest
  have fine : ∀ edge ∈ earlier, file.flatten.1.linkFault edge = none := fun edge member =>
    linked.linkFault_flatten_none rootPlain (whole ▸ List.mem_append_left _ member)
      (notBefore edge.2 (ends ▸ List.mem_map.mpr ⟨edge, member, rfl⟩))
  have member : (parent, child) ∈ file.flatten.1.descent :=
    whole ▸ List.mem_append_right _ List.mem_cons_self
  obtain ⟨reachable, listed⟩ := (mem_descent _).mp member
  have exists_ := (tree.flatten rootPlain).treeShaped.inRange reachable listed
  rcases linked.linkFault_flatten rootPlain member with
    ⟨notLifted, -⟩ | ⟨-, block, isBlock, edge, fault⟩
  · exact absurd lifted (by simp [notLifted])
  · refine ⟨block, parent, isBlock, edge, mem_edges.mpr ⟨reachable, listed, exists_⟩, ?_⟩
    rw [linked.checkLinks_flatten rootPlain,
      List.findSome?_eq_some_iff.mpr ⟨earlier, (parent, child), later, whole, fault, fine⟩]
    rfl

end File

variable {σ : Type}

/-- After flattening alone the check of links passes exactly if no reachable block listed a node that
is none. Otherwise it names the first node that a block listed, in the order of a walk before, with
the block it still points at and the node that lists it now. -/
theorem flattenBlocks_unrepaired (state : State σ File) (linked : state.unit.checkLinks = .ok ())
    (plain : state.unit.kind? File.root = some .root) :
    ∃ after : State σ File, flattenBlocks state = (.ok (), after) ∧
      match state.unit.blockContents with
      | [] => after.unit.checkLinks = .ok ()
      | id :: _ => ∃ block parent, state.unit.isBlock block = true ∧
          (block, id) ∈ state.unit.edges ∧ (parent, id) ∈ after.unit.edges ∧
          after.unit.checkLinks = .error ⟨.linkPointsAt block parent, state.unit.locate id⟩ := by
  rw [File.checkLinks_ok_iff] at linked
  have rootPlain := File.isBlock_root plain
  obtain ⟨trace, ran⟩ := flattenBlocks_apply state
  refine ⟨_, ran, ?_⟩
  cases contents : state.unit.blockContents with
  | nil => exact linked.checkLinks_flatten_none rootPlain contents
  | cons id rest => exact linked.checkLinks_flatten_first rootPlain contents

def File.stacked : File where
  path := "stacked"
  nodes := #[
    { kind := .root, children := [1] },
    { kind := .function "main", parent := some 0, children := [2, 3] },
    { kind := .block, parent := some 1 },
    { kind := .block, parent := some 1, children := [4, 6] },
    { kind := .block, parent := some 3, children := [5] },
    { kind := .literal 1, parent := some 4 },
    { kind := .literal 2, parent := some 3 }]

theorem flattenBlocks_unrepaired_stacked :
    let state : State Unit File := ⟨(), {}, {}, File.stacked⟩
    state.unit.checkLinks = .ok () ∧ state.unit.kind? File.root = some .root ∧
      state.unit.blockContents = [5, 6] ∧
      ∃ after : State Unit File, flattenBlocks state = (.ok (), after) ∧
        ∃ block parent, state.unit.isBlock block = true ∧ after.unit.checkLinks =
          .error ⟨.linkPointsAt block parent, state.unit.locate 5⟩ := by
  intro state
  have linked : state.unit.checkLinks = .ok () := by cbv
  have plain : state.unit.kind? File.root = some .root := rfl
  have contents : state.unit.blockContents = [5, 6] := by cbv
  obtain ⟨after, ran, outcome⟩ := flattenBlocks_unrepaired state linked plain
  rw [contents] at outcome
  obtain ⟨block, parent, isBlock, -, -, fault⟩ := outcome
  exact ⟨linked, plain, contents, after, ran, block, parent, isBlock, fault⟩

end StagedLowering
