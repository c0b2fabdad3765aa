import StagedLowering.Pass.Flatten
import StagedLowering.Tree.Links
import StagedLowering.Proofs.TreeShape

/-!
# Parent links

`checkLinks_ok_iff` shows that the check accepts exactly the files that are trees with a parent link
at every node to the one that lists it. Repairing the links of a tree whose root has none gives such
a file (`wellLinked_patchLinks`).
-/

namespace StagedLowering

theorem forM_ok_iff {α ε : Type} (check : α → Except ε Unit) (list : List α) :
    list.forM check = .ok () ↔ ∀ a ∈ list, check a = .ok () := by
  induction list with
  | nil => exact ⟨fun _ _ member => absurd member List.not_mem_nil, fun _ => rfl⟩
  | cons a rest ih =>
    rw [List.forall_mem_cons, ← ih]
    show (check a >>= fun _ => rest.forM check) = .ok () ↔ _
    cases check a with
    | error error => exact ⟨nofun, fun both => nomatch both.1⟩
    | ok done => exact ⟨fun later => ⟨rfl, later⟩, fun both => both.2⟩

namespace File

structure WellLinked (file : File) : Prop where
  rootUnset : file.rootNode.parent = none
  shaped : file.TreeShaped
  links : ∀ {parent child : NodeId}, file.Reachable parent → child ∈ file.children parent →
    file.parent? child = some parent

def Linked (file : File) : Prop :=
  ∀ ⦃parent child : NodeId⦄, file.Reachable parent → child ∈ file.children parent →
    file.parent? child = some parent

variable {file other : File} {forest below : Forest} {unseen : List NodeId}
  {id parent child : NodeId}

theorem parent?_some (linked : file.parent? child = some parent) :
    ∃ node : Node, file.node? child = some node ∧ node.parent = some parent := by
  obtain ⟨node, found, link⟩ := Option.bind_eq_some_iff.mp linked
  exact ⟨node, found, link⟩

/-! ### The check -/

/-- What the check finds below pending edges when it accepts them: a forest of fresh nodes, each
linked to the node that lists it. -/
structure Accepted (file : File) (unseen : List NodeId) (pending : List (NodeId × NodeId))
    (forest : Forest) : Prop where
  roots : forest.roots = pending.map (·.2)
  spells : file.Spells forest
  nodup : forest.ids.Nodup
  fresh : forest.ids ⊆ unseen
  pendingLinks : ∀ edge ∈ pending, file.parent? edge.2 = some edge.1
  innerLinks : ∀ id ∈ forest.ids, ∀ child ∈ file.children id, file.parent? child = some id

theorem Accepted.cons (nodup : unseen.Nodup) (fresh : child ∈ unseen)
    (linked : file.parent? child = some parent) {pending : List (NodeId × NodeId)}
    (accepted : file.Accepted (unseen.erase child)
      ((file.children child).map (child, ·) ++ pending) forest) :
    ∃ forest : Forest, file.Accepted unseen ((parent, child) :: pending) forest := by
  have cut : forest.roots = file.children child ++ pending.map (·.2) := by
    simpa [Function.comp_def] using accepted.roots
  obtain ⟨below, beside, rfl, belowRoots, besideRoots⟩ := Forest.exists_append cut
  obtain ⟨belowSpells, besideSpells⟩ := spells_append.mp accepted.spells
  have idsNodup := accepted.nodup
  have subset := accepted.fresh
  have inner := accepted.innerLinks
  rw [Forest.ids_append] at idsNodup subset inner
  refine ⟨.cons child below beside, by simp [Forest.roots, besideRoots],
    ⟨belowRoots.symm, belowSpells, besideSpells⟩, ?_, ?_, ?_, ?_⟩
  · exact List.nodup_cons.mpr ⟨fun again => nodup.not_mem_erase (subset again), idsNodup⟩
  · exact List.cons_subset.mpr ⟨fresh, List.Subset.trans subset List.erase_subset⟩
  · intro edge member
    rcases List.mem_cons.mp member with rfl | later
    · exact linked
    · exact accepted.pendingLinks edge (List.mem_append_right _ later)
  · intro id member grandchild listed
    rcases List.mem_cons.mp member with rfl | later
    · exact accepted.pendingLinks (id, grandchild)
        (List.mem_append_left _ (List.mem_map.mpr ⟨grandchild, listed, rfl⟩))
    · exact inner id later grandchild listed

theorem Accepted.tail {pending : List (NodeId × NodeId)}
    (accepted : file.Accepted unseen ((parent, child) :: pending) forest) (nodup : unseen.Nodup) :
    child ∈ unseen ∧ file.parent? child = some parent ∧
      ∃ rest : Forest, file.Accepted (unseen.erase child)
        ((file.children child).map (child, ·) ++ pending) rest := by
  obtain ⟨roots, spells, idsNodup, fresh, pendingLinks, innerLinks⟩ := accepted
  cases forest with
  | nil => cases roots
  | cons id below beside =>
    obtain ⟨rfl, besideRoots⟩ := List.cons.inj roots
    rw [Forest.ids, List.nodup_cons] at idsNodup
    rw [Forest.ids, List.cons_subset] at fresh
    simp only [Forest.ids] at innerLinks
    refine ⟨fresh.1, pendingLinks _ List.mem_cons_self, below.append beside, ?_,
      spells_append.mpr spells.2, ?_, ?_, ?_, ?_⟩
    · simpa [Function.comp_def, spells.1] using besideRoots
    · rw [Forest.ids_append]
      exact idsNodup.2
    · rw [Forest.ids_append]
      intro x member
      refine nodup.mem_erase_iff.mpr ⟨?_, fresh.2 member⟩
      rintro rfl
      exact idsNodup.1 member
    · intro edge member
      rcases List.mem_append.mp member with new | old
      · obtain ⟨grandchild, listed, rfl⟩ := List.mem_map.mp new
        exact innerLinks id List.mem_cons_self grandchild listed
      · exact pendingLinks edge (List.mem_cons_of_mem _ old)
    · intro x member
      rw [Forest.ids_append] at member
      exact innerLinks x (List.mem_cons_of_mem _ member)

theorem checkEdges_ok_iff (nodup : unseen.Nodup) (pending : List (NodeId × NodeId)) :
    file.checkEdges unseen pending = .ok () ↔
      ∃ forest : Forest, file.Accepted unseen pending forest := by
  fun_induction checkEdges file unseen pending with
  | case1 unseen =>
    refine ⟨fun _ => ⟨.nil, rfl, trivial, .nil, List.nil_subset _, ?_, ?_⟩, fun _ => rfl⟩
    · exact fun _ member => absurd member List.not_mem_nil
    · exact fun _ member => absurd member List.not_mem_nil
  | case2 unseen parent child pending missing =>
    constructor
    · intro passed
      cases passed
    · rintro ⟨forest, accepted⟩
      obtain ⟨node, found, _⟩ := parent?_some (accepted.tail nodup).2.1
      rw [missing] at found
      cases found
  | case3 unseen parent child pending node found fresh unset =>
    constructor
    · intro passed
      cases passed
    · rintro ⟨forest, accepted⟩
      have linked := (accepted.tail nodup).2.1
      simp [parent?, found, unset] at linked
  | case4 unseen child pending node found fresh link set ih =>
    have linked : file.parent? child = some link := by simp [parent?, found, set]
    rw [ih (nodup.erase child), ← children_of_node? found]
    constructor
    · rintro ⟨forest, accepted⟩
      exact accepted.cons nodup fresh linked
    · rintro ⟨forest, accepted⟩
      exact (accepted.tail nodup).2.2
  | case5 unseen parent child pending node found fresh link set wrong =>
    constructor
    · intro passed
      cases passed
    · rintro ⟨forest, accepted⟩
      have linked := (accepted.tail nodup).2.1
      simp [parent?, found, set] at linked
      exact absurd linked wrong
  | case6 unseen parent child pending node found seen =>
    constructor
    · intro passed
      cases passed
    · rintro ⟨forest, accepted⟩
      exact absurd (accepted.tail nodup).1 seen

theorem IsTree.fresh (tree : file.IsTree below) : below.ids ⊆ (List.range file.size).erase root := by
  intro id member
  refine List.nodup_range.mem_erase_iff.mpr ⟨?_, List.mem_range.mpr (tree.inRange id member)⟩
  rintro rfl
  exact (List.nodup_cons.mp tree.nodup).1 member

theorem IsTree.accepted (tree : file.IsTree below)
    (links : ∀ {parent child : NodeId}, file.Reachable parent → child ∈ file.children parent →
      file.parent? child = some parent) :
    file.Accepted ((List.range file.size).erase root) ((file.children root).map (root, ·)) below where
  roots := by simpa [Function.comp_def] using tree.spells.1.symm
  spells := tree.spells.2.1
  nodup := (List.nodup_cons.mp tree.nodup).2
  fresh := tree.fresh
  pendingLinks := by
    rintro edge member
    obtain ⟨child, listed, rfl⟩ := List.mem_map.mp member
    exact links .root listed
  innerLinks id member child listed :=
    links (tree.reachable_iff.mpr (List.mem_cons_of_mem _ member)) listed

theorem Accepted.isTree
    (accepted : file.Accepted ((List.range file.size).erase root)
      ((file.children root).map (root, ·)) below) : file.IsTree below where
  spells := ⟨by simpa [Function.comp_def] using accepted.roots.symm, accepted.spells, trivial⟩
  nodup := List.nodup_cons.mpr
    ⟨fun again => List.nodup_range.not_mem_erase (accepted.fresh again), accepted.nodup⟩
  inRange id member := List.mem_range.mp (List.erase_subset (accepted.fresh member))

theorem checkLinks_ok_iff : file.checkLinks = .ok () ↔ file.WellLinked := by
  have fresh : ((List.range file.size).erase root).Nodup := List.nodup_range.erase _
  rw [checkLinks]
  cases unset : file.rootNode.parent with
  | some parent =>
    refine ⟨nofun, fun linked => ?_⟩
    rw [linked.rootUnset] at unset
    cases unset
  | none =>
    rw [← children_root]
    refine (checkEdges_ok_iff fresh _).trans ⟨?_, fun linked => ?_⟩
    · rintro ⟨below, accepted⟩
      have tree := accepted.isTree
      refine ⟨unset, tree.treeShaped, fun {parent child} reachable listed => ?_⟩
      rcases List.mem_cons.mp (tree.reachable_iff.mp reachable) with rfl | inBelow
      · exact accepted.pendingLinks (root, child) (List.mem_map.mpr ⟨child, listed, rfl⟩)
      · exact accepted.innerLinks parent inBelow child listed
    · obtain ⟨below, tree⟩ := treeShaped_iff.mp linked.shaped
      exact ⟨below, tree.accepted linked.links⟩

/-! ### The repair -/

section repair

variable (state : File × Nat) (edge : NodeId × NodeId) (edges : List (NodeId × NodeId))

@[simp] theorem address_patchEdge : (patchEdge state edge).1.address = state.1.address := by
  rw [patchEdge]
  split
  · rfl
  · rfl

@[simp] theorem size_patchEdge : (patchEdge state edge).1.size = state.1.size := by
  rw [patchEdge]
  split
  · exact size_setParent ..
  · rfl

@[simp] theorem children_patchEdge (id : NodeId) :
    (patchEdge state edge).1.children id = state.1.children id := by
  rw [patchEdge]
  split
  · exact children_setParent ..
  · rfl

@[simp] theorem kind?_patchEdge (id : NodeId) :
    (patchEdge state edge).1.kind? id = state.1.kind? id := by
  rw [patchEdge]
  split
  · exact kind?_setParent ..
  · rfl

theorem parent?_patchEdge (exists_ : edge.2 < state.1.size) (id : NodeId) :
    (patchEdge state edge).1.parent? id = if edge.2 = id then some edge.1 else state.1.parent? id := by
  rw [patchEdge]
  split
  · exact parent?_setParent exists_ ..
  · next agrees =>
    split
    · next same =>
      obtain ⟨node, found⟩ := exists_node? exists_
      simpa [parent?, ← same, found] using agrees
    · rfl

@[simp] theorem address_patchEdges :
    (edges.foldl patchEdge state).1.address = state.1.address := by
  induction edges generalizing state with
  | nil => rfl
  | cons edge edges ih => rw [List.foldl_cons, ih, address_patchEdge]

@[simp] theorem size_patchEdges : (edges.foldl patchEdge state).1.size = state.1.size := by
  induction edges generalizing state with
  | nil => rfl
  | cons edge edges ih => rw [List.foldl_cons, ih, size_patchEdge]

@[simp] theorem children_patchEdges (id : NodeId) :
    (edges.foldl patchEdge state).1.children id = state.1.children id := by
  induction edges generalizing state with
  | nil => rfl
  | cons edge edges ih => rw [List.foldl_cons, ih, children_patchEdge]

@[simp] theorem kind?_patchEdges (id : NodeId) :
    (edges.foldl patchEdge state).1.kind? id = state.1.kind? id := by
  induction edges generalizing state with
  | nil => rfl
  | cons edge edges ih => rw [List.foldl_cons, ih, kind?_patchEdge]

/-- A link ends at the last of the edges to its node. -/
theorem parent?_patchEdges (inRange : ∀ edge ∈ edges, edge.2 < state.1.size) (id : NodeId) :
    (edges.foldl patchEdge state).1.parent? id =
      ((edges.reverse.find? (·.2 = id)).map (·.1)).or (state.1.parent? id) := by
  induction edges generalizing state with
  | nil => rfl
  | cons edge edges ih =>
    have here := inRange edge List.mem_cons_self
    rw [List.foldl_cons, ih _ fun later member => by
      rw [size_patchEdge]
      exact inRange later (List.mem_cons_of_mem _ member)]
    rw [List.reverse_cons, List.find?_append, parent?_patchEdge _ _ here]
    by_cases same : edge.2 = id
    · cases edges.reverse.find? (·.2 = id) <;> simp [same]
    · cases edges.reverse.find? (·.2 = id) <;> simp [same]

end repair

@[simp] theorem address_patchLinks (file : File) : file.patchLinks.1.address = file.address :=
  address_patchEdges ..

@[simp] theorem size_patchLinks (file : File) : file.patchLinks.1.size = file.size :=
  size_patchEdges ..

@[simp] theorem children_patchLinks (file : File) (id : NodeId) :
    file.patchLinks.1.children id = file.children id := children_patchEdges ..

@[simp] theorem kind?_patchLinks (file : File) (id : NodeId) :
    file.patchLinks.1.kind? id = file.kind? id := kind?_patchEdges ..

@[simp] theorem reachable_patchLinks : file.patchLinks.1.Reachable id ↔ file.Reachable id :=
  reachable_congr (size_patchLinks file) (children_patchLinks file)

theorem parent?_patchLinks (file : File) (id : NodeId) :
    file.patchLinks.1.parent? id =
      ((file.edges.reverse.find? (·.2 = id)).map (·.1)).or (file.parent? id) :=
  parent?_patchEdges _ _ (fun _ member => (mem_edges.mp member).2.2) id

theorem TreeShaped.congr (shaped : file.TreeShaped) (size : other.size = file.size)
    (children : ∀ id, other.children id = file.children id) : other.TreeShaped where
  inRange reachable listed := by
    rw [children] at listed
    exact size ▸ shaped.inRange ((reachable_congr size children).mp reachable) listed
  distinct reachable := by
    rw [children]
    exact shaped.distinct ((reachable_congr size children).mp reachable)
  single reachable again listed listedAgain := by
    rw [children] at listed listedAgain
    exact shaped.single ((reachable_congr size children).mp reachable)
      ((reachable_congr size children).mp again) listed listedAgain
  rootUnlisted reachable := by
    rw [children]
    exact shaped.rootUnlisted ((reachable_congr size children).mp reachable)

/-- Repairing the links of a tree sets all of them. -/
theorem TreeShaped.linked_patchLinks (shaped : file.TreeShaped) : file.patchLinks.1.Linked := by
  intro parent child reachable listed
  rw [reachable_patchLinks] at reachable
  rw [children_patchLinks] at listed
  have edge := mem_edges.mpr ⟨reachable, listed, shaped.inRange reachable listed⟩
  rw [parent?_patchLinks]
  cases found : file.edges.reverse.find? (·.2 = child) with
  | none =>
    have absent := List.find?_eq_none.mp found _ (List.mem_reverse.mpr edge)
    simp at absent
  | some last =>
    have isChild : last.2 = child := by simpa using List.find?_some found
    have member := List.mem_reverse.mp (List.mem_of_find?_eq_some found)
    obtain ⟨lastReachable, lastListed, _⟩ := mem_edges.mp member
    rw [shaped.single reachable lastReachable listed (isChild ▸ lastListed)]
    rfl

theorem TreeShaped.patchLinks (shaped : file.TreeShaped) : file.patchLinks.1.TreeShaped :=
  shaped.congr (size_patchLinks file) (children_patchLinks file)

/-- Repairing the links of a tree makes it well linked, but for a link that the root may have. -/
theorem TreeShaped.wellLinked_patchLinks (shaped : file.TreeShaped)
    (unset : file.parent? root = none) : file.patchLinks.1.WellLinked where
  rootUnset := by
    rw [← parent?_root, parent?_patchLinks, unset]
    cases found : file.edges.reverse.find? (·.2 = root) with
    | none => rfl
    | some edge =>
      have isRoot : edge.2 = root := by simpa using List.find?_some found
      have member := List.mem_reverse.mp (List.mem_of_find?_eq_some found)
      obtain ⟨reachable, listed, _⟩ := mem_edges.mp member
      exact absurd (isRoot ▸ listed) (shaped.rootUnlisted reachable)
  shaped := shaped.patchLinks
  links reachable listed := shaped.linked_patchLinks reachable listed

end File

theorem Module.checkLinks_ok_iff {m : Module} :
    m.checkLinks = .ok () ↔ ∀ file ∈ m.files, file.WellLinked := by
  refine (forM_ok_iff _ _).trans ?_
  simp only [File.checkLinks_ok_iff]

end StagedLowering
