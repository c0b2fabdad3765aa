import Mathlib.Data.List.Nodup
import Mathlib.Data.List.Pairwise
import StagedLowering.Proofs.Reachable

/-!
# Files that are trees

A file is tree-shaped if no node is listed twice. `treeShaped_iff` shows that it then spells one
forest below its root, and `IsTree.preorder_eq` that a walk is the preorder of that forest.
-/

namespace StagedLowering.File

/-- What is reachable is a tree, whatever the parent links say. -/
structure TreeShaped (file : File) : Prop where
  inRange : ∀ {parent child : NodeId}, file.Reachable parent → child ∈ file.children parent →
    child < file.size
  distinct : ∀ {parent : NodeId}, file.Reachable parent → (file.children parent).Nodup
  single : ∀ {parent other child : NodeId}, file.Reachable parent → file.Reachable other →
    child ∈ file.children parent → child ∈ file.children other → parent = other
  rootUnlisted : ∀ {parent : NodeId}, file.Reachable parent → root ∉ file.children parent

/-- The reachable nodes are the root and, below it, this forest. -/
structure IsTree (file : File) (below : Forest) : Prop where
  spells : file.Spells (.cons root below .nil)
  nodup : (root :: below.ids).Nodup
  inRange : ∀ id ∈ below.ids, id < file.size

/-- A tree below a root that is nothing but a root. -/
structure PlainTree (file : File) : Prop where
  shaped : file.TreeShaped
  plain : file.kind? root = some .root

variable {file other : File} {below forest : Forest} {unseen : List NodeId} {id : NodeId}

/-! ### Trees are tree-shaped -/

theorem Spells.reachable (spells : file.Spells forest) (inRange : ∀ id ∈ forest.ids, id < file.size)
    (roots : ∀ id ∈ forest.roots, file.Reachable id) : ∀ id ∈ forest.ids, file.Reachable id := by
  induction forest with
  | nil => exact fun _ member => absurd member List.not_mem_nil
  | cons id below beside belowIh besideIh =>
    simp only [Forest.ids, Forest.roots, List.mem_cons, List.mem_append] at inRange roots ⊢
    obtain ⟨lists, belowSpells, besideSpells⟩ := spells
    have here := roots id (.inl rfl)
    rintro x (rfl | inBelow | inBeside)
    · exact here
    · refine belowIh belowSpells (fun y member => inRange y (.inr (.inl member))) ?_ x inBelow
      intro child root
      exact .child here (lists ▸ root) (inRange child (.inr (.inl (below.roots_subset root))))
    · exact besideIh besideSpells (fun y member => inRange y (.inr (.inr member)))
        (fun y member => roots y (.inr member)) x inBeside

theorem IsTree.reachable_iff (tree : file.IsTree below) :
    file.Reachable id ↔ id ∈ root :: below.ids := by
  have ids : (Forest.cons root below .nil).ids = root :: below.ids := by simp [Forest.ids]
  constructor
  · intro reachable
    induction reachable with
    | root => exact List.mem_cons_self
    | child _ listed _ ih =>
      rw [← ids] at ih ⊢
      exact tree.spells.children_subset ih listed
  · intro member
    refine tree.spells.reachable ?_ ?_ id (ids ▸ member)
    · intro x member
      rcases List.mem_cons.mp (ids ▸ member) with rfl | inBelow
      · exact root_lt file
      · exact tree.inRange x inBelow
    · intro x rooted
      rw [List.mem_singleton.mp rooted]
      exact .root

theorem IsTree.nodup_listed (tree : file.IsTree below) :
    (root :: (root :: below.ids).flatMap file.children).Nodup := by
  have perm := tree.spells.ids_perm
  simp only [Forest.ids, Forest.roots, List.append_nil] at perm
  exact perm.nodup_iff.mp tree.nodup

theorem IsTree.single (tree : file.IsTree below) {parent other child : NodeId}
    (inTree : parent ∈ root :: below.ids) (otherInTree : other ∈ root :: below.ids)
    (listed : child ∈ file.children parent) (otherListed : child ∈ file.children other) :
    parent = other := by
  have nodup := (List.nodup_cons.mp tree.nodup_listed).2
  have disjoint := (List.nodup_flatMap.mp nodup).2
  have : Std.Symm (Function.onFun List.Disjoint file.children) :=
    ⟨fun _ _ apart => List.disjoint_symm apart⟩
  refine Classical.byContradiction fun different => ?_
  exact disjoint.forall inTree otherInTree different listed otherListed

theorem IsTree.treeShaped (tree : file.IsTree below) : file.TreeShaped where
  inRange reachable listed := by
    have ids := tree.spells.children_subset (by simpa [Forest.ids] using tree.reachable_iff.mp reachable)
      listed
    rcases List.mem_cons.mp (by simpa [Forest.ids] using ids) with rfl | inBelow
    · exact root_lt file
    · exact tree.inRange _ inBelow
  distinct reachable := by
    have nodup := (List.nodup_cons.mp tree.nodup_listed).2
    exact (List.nodup_flatMap.mp nodup).1 _ (tree.reachable_iff.mp reachable)
  single reachable otherReachable listed otherListed :=
    tree.single (tree.reachable_iff.mp reachable) (tree.reachable_iff.mp otherReachable) listed
      otherListed
  rootUnlisted reachable listed :=
    (List.nodup_cons.mp tree.nodup_listed).1
      (List.mem_flatMap.mpr ⟨_, tree.reachable_iff.mp reachable, listed⟩)

theorem IsTree.mem_of_listed (tree : file.IsTree below) {parent child : NodeId}
    (reachable : file.Reachable parent) (listed : child ∈ file.children parent) :
    child ∈ below.ids := by
  have shaped := tree.treeShaped
  have inTree := Reachable.child reachable listed (shaped.inRange reachable listed)
  rcases List.mem_cons.mp (tree.reachable_iff.mp inTree) with rfl | inBelow
  · exact absurd listed (shaped.rootUnlisted reachable)
  · exact inBelow

/-! ### Tree-shaped files are trees -/

/-- The state of a search that never meets a node again: pending edges lead from nodes it has seen
to distinct nodes it has not, and whatever it has seen it came to along an edge. -/
structure Frontier (file : File) (unseen : List NodeId) (pending : List (NodeId × NodeId)) :
    Prop where
  nodup : unseen.Nodup
  edges : ∀ edge ∈ pending, file.Reachable edge.1 ∧ edge.2 ∈ file.children edge.1 ∧ edge.1 ∉ unseen
  distinct : (pending.map (·.2)).Nodup
  fresh : ∀ edge ∈ pending, edge.2 ∈ unseen
  seen : ∀ id < file.size, id ∉ unseen →
    id = root ∨ ∃ parent, file.Reachable parent ∧ parent ∉ unseen ∧ id ∈ file.children parent

theorem TreeShaped.frontier (shaped : file.TreeShaped) :
    file.Frontier ((List.range file.size).erase root) ((file.children root).map (root, ·)) where
  nodup := List.nodup_range.erase _
  edges := by
    rintro edge member
    obtain ⟨child, listed, rfl⟩ := List.mem_map.mp member
    exact ⟨.root, listed, List.nodup_range.not_mem_erase⟩
  distinct := by simpa [Function.comp_def] using shaped.distinct .root
  fresh := by
    rintro edge member
    obtain ⟨child, listed, rfl⟩ := List.mem_map.mp member
    refine List.nodup_range.mem_erase_iff.mpr ⟨?_, List.mem_range.mpr (shaped.inRange .root listed)⟩
    rintro rfl
    exact shaped.rootUnlisted .root listed
  seen id exists_ absent := by
    refine .inl (Classical.byContradiction fun different => absent ?_)
    exact List.nodup_range.mem_erase_iff.mpr ⟨different, List.mem_range.mpr exists_⟩

theorem Frontier.next (shaped : file.TreeShaped) {parent child : NodeId}
    {pending : List (NodeId × NodeId)} (frontier : file.Frontier unseen ((parent, child) :: pending)) :
    file.Frontier (unseen.erase child) ((file.children child).map (child, ·) ++ pending) := by
  obtain ⟨nodup, edges, distinct, fresh, seen⟩ := frontier
  obtain ⟨above, listed, parentSeen⟩ := edges _ List.mem_cons_self
  have childFresh : child ∈ unseen := fresh _ List.mem_cons_self
  have reachable : file.Reachable child := .child above listed (shaped.inRange above listed)
  -- A node that the child lists is listed by no other, so the search cannot have come to it before.
  have newFresh : ∀ grandchild ∈ file.children child, grandchild ∈ unseen.erase child := by
    intro grandchild below
    refine nodup.mem_erase_iff.mpr ⟨?_, Classical.byContradiction fun absent => ?_⟩
    · rintro rfl
      exact parentSeen (shaped.single above reachable listed below ▸ childFresh)
    · rcases seen grandchild (shaped.inRange reachable below) absent with rfl | ⟨q, up, qSeen, inQ⟩
      · exact shaped.rootUnlisted reachable below
      · exact qSeen (shaped.single up reachable inQ below ▸ childFresh)
  have shrinks : ∀ {id : NodeId}, id ∉ unseen → id ∉ unseen.erase child :=
    fun absent member => absent (List.erase_subset member)
  rw [List.map_cons, List.nodup_cons] at distinct
  refine ⟨nodup.erase _, ?_, ?_, ?_, ?_⟩
  · intro edge member
    rcases List.mem_append.mp member with new | old
    · obtain ⟨grandchild, below, rfl⟩ := List.mem_map.mp new
      exact ⟨reachable, below, nodup.not_mem_erase⟩
    · obtain ⟨up, inList, edgeSeen⟩ := edges edge (List.mem_cons_of_mem _ old)
      exact ⟨up, inList, shrinks edgeSeen⟩
  · rw [List.map_append, List.nodup_append]
    refine ⟨by simpa [Function.comp_def] using shaped.distinct reachable, distinct.2, ?_⟩
    rintro a new b old rfl
    obtain ⟨edge, member, rfl⟩ := List.mem_map.mp old
    obtain ⟨up, inList, edgeSeen⟩ := edges edge (List.mem_cons_of_mem _ member)
    have below : edge.2 ∈ file.children child := by simpa using new
    exact edgeSeen (shaped.single up reachable inList below ▸ childFresh)
  · intro edge member
    rcases List.mem_append.mp member with new | old
    · obtain ⟨grandchild, below, rfl⟩ := List.mem_map.mp new
      exact newFresh grandchild below
    · refine nodup.mem_erase_iff.mpr ⟨?_, fresh edge (List.mem_cons_of_mem _ old)⟩
      rintro rfl
      exact distinct.1 (List.mem_map.mpr ⟨edge, old, rfl⟩)
  · intro id exists_ absent
    by_cases same : id = child
    · exact .inr ⟨parent, above, shrinks parentSeen, same ▸ listed⟩
    · rcases seen id exists_ fun member => absent (nodup.mem_erase_iff.mpr ⟨same, member⟩) with
        rfl | ⟨q, up, qSeen, inQ⟩
      · exact .inl rfl
      · exact .inr ⟨q, up, shrinks qSeen, inQ⟩

/-- What such a search still meets is a forest. -/
theorem Frontier.exists_forest (shaped : file.TreeShaped) {pending : List (NodeId × NodeId)}
    (frontier : file.Frontier unseen pending) :
    ∃ forest : Forest, forest.roots = pending.map (·.2) ∧ file.Spells forest ∧
      forest.ids.Nodup ∧ forest.ids ⊆ unseen := by
  induction count : unseen.length generalizing unseen pending with
  | zero =>
    cases pending with
    | nil => exact ⟨.nil, rfl, trivial, .nil, List.nil_subset _⟩
    | cons edge pending =>
      have fresh := frontier.fresh edge List.mem_cons_self
      rw [List.length_eq_zero_iff.mp count] at fresh
      exact absurd fresh List.not_mem_nil
  | succ count ih =>
    cases pending with
    | nil => exact ⟨.nil, rfl, trivial, .nil, List.nil_subset _⟩
    | cons edge pending =>
      obtain ⟨parent, child⟩ := edge
      have fresh : child ∈ unseen := frontier.fresh _ List.mem_cons_self
      obtain ⟨forest, roots, spells, nodup, subset⟩ := ih (frontier.next shaped)
        (by rw [List.length_erase_of_mem fresh]; omega)
      have cut : forest.roots = file.children child ++ pending.map (·.2) := by
        simpa [Function.comp_def] using roots
      obtain ⟨below, beside, rfl, belowRoots, besideRoots⟩ := Forest.exists_append cut
      obtain ⟨belowSpells, besideSpells⟩ := spells_append.mp spells
      rw [Forest.ids_append] at nodup subset
      refine ⟨.cons child below beside, by simp [Forest.roots, besideRoots],
        ⟨belowRoots.symm, belowSpells, besideSpells⟩, ?_, ?_⟩
      · exact List.nodup_cons.mpr ⟨fun again => frontier.nodup.not_mem_erase (subset again), nodup⟩
      · exact List.cons_subset.mpr ⟨fresh, List.Subset.trans subset List.erase_subset⟩

theorem treeShaped_iff : file.TreeShaped ↔ ∃ below : Forest, file.IsTree below := by
  constructor
  · intro shaped
    obtain ⟨below, roots, spells, nodup, subset⟩ := shaped.frontier.exists_forest shaped
    have roots : file.children root = below.roots := by simpa [Function.comp_def] using roots.symm
    refine ⟨below, ⟨roots, spells, trivial⟩, ?_, ?_⟩
    · exact List.nodup_cons.mpr ⟨fun again => List.nodup_range.not_mem_erase (subset again), nodup⟩
    · intro id member
      exact List.mem_range.mp (List.erase_subset (subset member))
  · rintro ⟨below, tree⟩
    exact tree.treeShaped

/-! ### The walk of a tree -/

theorem walkFrom_forest (spells : file.Spells forest) (nodup : forest.ids.Nodup)
    (unseenNodup : unseen.Nodup) (fresh : forest.ids ⊆ unseen) (depth : Nat)
    (pending : List (NodeId × Nat)) :
    ∃ left : List NodeId, left.Nodup ∧ (∀ id, id ∈ left ↔ id ∈ unseen ∧ id ∉ forest.ids) ∧
      (file.walkFrom unseen (forest.roots.map (·, depth) ++ pending)).map (·.1) =
        forest.ids ++ (file.walkFrom left pending).map (·.1) := by
  induction forest generalizing unseen depth pending with
  | nil => exact ⟨unseen, unseenNodup, by simp [Forest.ids], rfl⟩
  | cons id below beside belowIh besideIh =>
    obtain ⟨lists, belowSpells, besideSpells⟩ := spells
    rw [Forest.ids, List.nodup_cons, List.nodup_append] at nodup
    obtain ⟨notAgain, belowNodup, besideNodup, disjoint⟩ := nodup
    rw [Forest.ids, List.cons_subset, List.append_subset] at fresh
    obtain ⟨here, belowFresh, besideFresh⟩ := fresh
    have shrunk : ∀ x, x ∈ below.ids ++ beside.ids → x ∈ unseen → x ∈ unseen.erase id := by
      intro x inForest member
      refine unseenNodup.mem_erase_iff.mpr ⟨?_, member⟩
      rintro rfl
      exact notAgain inForest
    obtain ⟨middle, middleNodup, memMiddle, belowWalk⟩ := belowIh belowSpells belowNodup
      (unseenNodup.erase id) (fun x member => shrunk x (List.mem_append_left _ member) (belowFresh member))
      (depth + 1) (beside.roots.map (·, depth) ++ pending)
    obtain ⟨left, leftNodup, memLeft, besideWalk⟩ := besideIh besideSpells besideNodup middleNodup
      (fun x member => (memMiddle x).mpr
        ⟨shrunk x (List.mem_append_right _ member) (besideFresh member),
          fun inBelow => disjoint x inBelow x member rfl⟩)
      depth pending
    refine ⟨left, leftNodup, ?_, ?_⟩
    · intro x
      rw [memLeft, memMiddle, unseenNodup.mem_erase_iff]
      simp only [Forest.ids, List.mem_cons, List.mem_append, not_or]
      grind
    · rw [Forest.roots, List.map_cons, List.cons_append, walkFrom, if_pos here, lists, List.map_cons,
        belowWalk, besideWalk, Forest.ids, List.cons_append, List.append_assoc]

theorem IsTree.preorder_eq (tree : file.IsTree below) : file.preorder = root :: below.ids := by
  have ids : (Forest.cons root below .nil).ids = root :: below.ids := by simp [Forest.ids]
  obtain ⟨left, _, _, walked⟩ := walkFrom_forest tree.spells (ids ▸ tree.nodup) List.nodup_range
    (fun x member => by
      rcases List.mem_cons.mp (ids ▸ member) with rfl | inBelow
      · exact List.mem_range.mpr (root_lt file)
      · exact List.mem_range.mpr (tree.inRange x inBelow)) 0 []
  rw [ids, show (file.walkFrom left []) = [] by rw [walkFrom]] at walked
  simpa [preorder, walk, Forest.roots] using walked

/-- In a tree the edges lead to each node below the root once. -/
theorem IsTree.edges_perm (tree : file.IsTree below) : (file.edges.map (·.2)).Perm below.ids := by
  have perm := tree.spells.ids_perm
  simp only [Forest.ids, Forest.roots, List.append_nil] at perm
  have all : file.edges = file.preorder.flatMap fun id => (file.children id).map (id, ·) := by
    refine List.filter_eq_self.mpr fun edge member => decide_eq_true_eq.mpr ?_
    obtain ⟨parent, reached, inList⟩ := List.mem_flatMap.mp member
    obtain ⟨child, listed, rfl⟩ := List.mem_map.mp inList
    exact tree.treeShaped.inRange (mem_preorder.mp reached) listed
  have targets : file.edges.map (·.2) = file.preorder.flatMap file.children := by
    simp [all, List.map_flatMap, Function.comp_def]
  rw [targets, tree.preorder_eq]
  exact ((List.perm_cons root).mp perm).symm

end StagedLowering.File
