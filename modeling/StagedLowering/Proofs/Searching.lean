import Mathlib.Data.Finset.Card
import StagedLowering.Proofs.Rendering

/-!
# Depth-first search

A walk keeps what is pending in one list, where a node can wait more than once and at several
depths. `walk_eq_search` shows that it is still the recursive search in depth, whatever the children
lists say: what waits for the second time has been entered by its turn. The invariant is that the
nodes a walk may enter are those the search has not seen (`Leaves`).
-/

namespace StagedLowering.File

variable {file : File} {seen more unseen : List NodeId} {id : NodeId}

theorem card_unseen_lt (exists_ : id < file.size) (fresh : id ∉ seen) (subset : id :: seen ⊆ more) :
    (Finset.range file.size \ more.toFinset).card <
      (Finset.range file.size \ seen.toFinset).card := by
  refine Finset.card_lt_card (Finset.ssubset_iff_of_subset ?_ |>.mpr ⟨id, ?_, ?_⟩)
  · intro other left
    rw [Finset.mem_sdiff, List.mem_toFinset] at left ⊢
    exact ⟨left.1, fun again => left.2 (subset (List.mem_cons_of_mem _ again))⟩
  · simp [exists_, fresh]
  · simp [subset List.mem_cons_self]

/-- The nodes that a depth-first search enters, each with its depth, when `seen` have been entered
before: the given nodes from left to right, each followed by what is found below it. A number that
is not of a node or was entered already is passed over. -/
def search (file : File) (seen : List NodeId) (depth : Nat) : List NodeId → List (NodeId × Nat)
  | [] => []
  | id :: rest =>
    if id < file.size ∧ id ∉ seen then
      let below := file.search (id :: seen) (depth + 1) (file.children id)
      (id, depth) :: (below ++ file.search (below.map (·.1) ++ id :: seen) depth rest)
    else file.search seen depth rest
termination_by ids => ((Finset.range file.size \ seen.toFinset).card, ids.length)
decreasing_by
  · next fresh => exact .left _ _ (card_unseen_lt fresh.1 fresh.2 (List.Subset.refl _))
  · next fresh => exact .left _ _ (card_unseen_lt fresh.1 fresh.2 (List.subset_append_right _ _))
  · exact .right _ (by simp)

structure Leaves (file : File) (seen unseen : List NodeId) : Prop where
  nodup : unseen.Nodup
  mem_iff : ∀ id : NodeId, id ∈ unseen ↔ id < file.size ∧ id ∉ seen

theorem leaves_range (file : File) : file.Leaves [] (List.range file.size) where
  nodup := List.nodup_range
  mem_iff id := by simp

theorem Leaves.enter (leaves : file.Leaves seen unseen) (id : NodeId) :
    file.Leaves (id :: seen) (unseen.erase id) where
  nodup := leaves.nodup.erase id
  mem_iff other := by
    rw [leaves.nodup.mem_erase_iff, leaves.mem_iff, List.mem_cons, not_or]
    exact and_left_comm

theorem Leaves.congr (leaves : file.Leaves seen unseen) (same : ∀ id, id ∈ more ↔ id ∈ seen) :
    file.Leaves more unseen where
  nodup := leaves.nodup
  mem_iff id := by rw [leaves.mem_iff, same]

/-- A walk over nodes of one depth finds what the search finds, and goes on from there. -/
theorem walkFrom_search (leaves : file.Leaves seen unseen) (depth : Nat) (ids : List NodeId)
    (pending : List (NodeId × Nat)) :
    ∃ left : List NodeId, file.Leaves ((file.search seen depth ids).map (·.1) ++ seen) left ∧
      file.walkFrom unseen (ids.map (·, depth) ++ pending) =
        file.search seen depth ids ++ file.walkFrom left pending := by
  fun_induction search file seen depth ids generalizing unseen pending with
  | case1 => exact ⟨unseen, leaves, rfl⟩
  | case2 seen depth id rest fresh below belowIh =>
    rename_i besideIh
    obtain ⟨middle, belowLeaves, belowWalk⟩ :=
      belowIh (leaves.enter id) (rest.map (·, depth) ++ pending)
    obtain ⟨left, besideLeaves, besideWalk⟩ := besideIh belowLeaves pending
    refine ⟨left, besideLeaves.congr fun other => ?_, ?_⟩
    · simp only [List.map_cons, List.map_append, List.mem_cons, List.mem_append]
      tauto
    · rw [List.map_cons, List.cons_append, walkFrom, if_pos ((leaves.mem_iff id).mpr fresh),
        belowWalk, besideWalk, List.cons_append, List.append_assoc]
  | case3 seen depth id rest stale ih =>
    obtain ⟨left, after, walked⟩ := ih leaves pending
    refine ⟨left, after, ?_⟩
    rw [List.map_cons, List.cons_append, walkFrom, if_neg (mt (leaves.mem_iff id).mp stale), walked]

theorem walk_eq_search (file : File) : file.walk = file.search [] 0 [root] := by
  obtain ⟨left, -, walked⟩ := walkFrom_search (leaves_range file) 0 [root] []
  rw [show file.walkFrom left [] = [] by rw [walkFrom], List.append_nil, List.append_nil] at walked
  exact walked

/-! ### What is read off the walk -/

/-- The edges of a node stand together, in the order of its list. -/
theorem edges_eq (file : File) : file.edges = file.preorder.flatMap fun parent =>
    ((file.children parent).filter (· < file.size)).map (parent, ·) := by
  simp only [edges, List.filter_flatMap, List.filter_map, Function.comp_def]

theorem shown_nodup (file : File) : (file.shown.map (·.id)).Nodup := by
  have nodup := preorder_nodup file
  rw [preorder_eq_shown] at nodup
  exact nodup.of_cons

theorem mem_shown_ids : id ∈ file.shown.map (·.id) ↔ file.Reachable id ∧ id ≠ root := by
  constructor
  · intro member
    obtain ⟨entry, shown, rfl⟩ := List.mem_map.mp member
    obtain ⟨⟨reachable, below, -⟩, -⟩ := of_mem_shown shown
    exact ⟨reachable, below⟩
  · rintro ⟨reachable, below⟩
    exact List.mem_map.mpr (exists_shown reachable below)

/-- The walk is the recursive search in depth. So a preorder has the reachable nodes, each once and
the root first; the edges are what those nodes list of the file; and each of them but the root is
printed at the depth it was found. -/
theorem walk_exact (file : File) :
    file.walk = file.search [] 0 [root] ∧
    (file.preorder.head? = some root ∧ file.preorder.Nodup ∧
      ∀ id, id ∈ file.preorder ↔ file.Reachable id) ∧
    (file.edges = file.preorder.flatMap fun parent =>
      ((file.children parent).filter (· < file.size)).map (parent, ·)) ∧
    (file.render.toList = Text.lined (file.heading :: file.shown.map Shown.chars) ∧
      ((root, 0) :: file.shown.map fun entry => (entry.id, entry.depth)) =
        file.search [] 0 [root] ∧
      (∀ entry ∈ file.shown, file.kind? entry.id = some entry.kind ∧
        file.parent? entry.id = entry.parent) ∧
      (file.shown.map (·.id)).Nodup ∧
      ∀ id, id ∈ file.shown.map (·.id) ↔ file.Reachable id ∧ id ≠ root) := by
  refine ⟨walk_eq_search file, ⟨?_, preorder_nodup file, fun _ => mem_preorder⟩, edges_eq file,
    toList_render file, ?_, fun entry shown => (of_mem_shown shown).2, shown_nodup file,
    fun _ => mem_shown_ids⟩
  · rw [preorder_eq_shown, List.head?_cons]
  · rw [← walk_eq_search, walk_eq_shown]

/-- A node that waits at two depths is found where its turn comes first. -/
example : ({ path := "", nodes := #[⟨.root, none, [1, 3, 2, 9]⟩, ⟨.block, none, [2, 1]⟩,
    ⟨.block, none, [0, 3]⟩, ⟨.block, none, [1]⟩] } : File).walk =
    [(0, 0), (1, 1), (2, 2), (3, 3)] := by
  cbv

end StagedLowering.File
