import Mathlib.Data.Set.Card
import StagedLowering.Proofs.AtRest
import StagedLowering.Proofs.Balance
import StagedLowering.Proofs.Gains
import StagedLowering.Proofs.Opening

/-!
# Taking blocks out

What the pass over blocks makes of a file, whatever the lists say (`flattenBlocks_exact`). The
blocks are out of reach after it and nothing else is. In a tree each block gives way to what it
lists.
-/

namespace StagedLowering

namespace File

variable {file flat : File} {forest below : Forest} {pending list other : List NodeId} {id : NodeId}

/-! ### In place -/

/-- A list with each of its blocks replaced by what the block lists, and so on in that. -/
inductive Expands (file : File) : List NodeId → List NodeId → Prop
  | nil : file.Expands [] []
  | plain {id : NodeId} {pending list : List NodeId} (plain : file.isBlock id = false)
      (rest : file.Expands pending list) : file.Expands (id :: pending) (id :: list)
  | block {id : NodeId} {pending list lifted : List NodeId} (block : file.isBlock id = true)
      (inner : file.Expands (file.children id) lifted) (rest : file.Expands pending list) :
      file.Expands (id :: pending) (lifted ++ list)

theorem Expands.unique (first : file.Expands pending list) (second : file.Expands pending other) :
    list = other := by
  induction first generalizing other with
  | nil =>
    cases second
    rfl
  | plain plain _ ih =>
    cases second with
    | plain _ rest => rw [ih rest]
    | block block =>
      rw [plain] at block
      cases block
  | block block _ _ innerIh restIh =>
    cases second with
    | plain plain =>
      rw [plain] at block
      cases block
    | block _ inner rest => rw [innerIh inner, restIh rest]

theorem Spells.expands (spells : file.Spells forest) :
    file.Expands forest.roots (forest.contract file.isBlock).roots := by
  induction forest with
  | nil => exact .nil
  | cons id below beside belowIh besideIh =>
    obtain ⟨lists, belowSpells, besideSpells⟩ := spells
    rw [Forest.contract]
    split
    · next block =>
      rw [Forest.roots_append]
      exact .block block (lists ▸ belowIh belowSpells) (besideIh besideSpells)
    · next plain => exact .plain (by simpa using plain) (besideIh besideSpells)

/-- If a file spells the contracted forest, its lists are those of the forest with the blocks
replaced. -/
theorem Spells.expands_children (spells : file.Spells forest)
    (contracted : flat.Spells (forest.contract file.isBlock)) (member : id ∈ forest.ids)
    (plain : file.isBlock id = false) : file.Expands (file.children id) (flat.children id) := by
  induction forest with
  | nil => cases member
  | cons head below beside belowIh besideIh =>
    obtain ⟨lists, belowSpells, besideSpells⟩ := spells
    rw [Forest.ids, List.mem_cons, List.mem_append] at member
    rw [Forest.contract] at contracted
    split at contracted
    · next block =>
      obtain ⟨belowFlat, besideFlat⟩ := spells_append.mp contracted
      rcases member with rfl | inBelow | inBeside
      · rw [plain] at block
        cases block
      · exact belowIh belowSpells belowFlat inBelow
      · exact besideIh besideSpells besideFlat inBeside
    · obtain ⟨flatLists, belowFlat, besideFlat⟩ := contracted
      rcases member with rfl | inBelow | inBeside
      · rw [lists, flatLists]
        exact belowSpells.expands
      · exact belowIh belowSpells belowFlat inBelow
      · exact besideIh besideSpells besideFlat inBeside

theorem IsTree.expands_flatten (tree : file.IsTree below) (rootPlain : file.isBlock root = false)
    (reachable : file.Reachable id) (plain : file.isBlock id = false) :
    file.Expands (file.children id) (file.flatten.1.children id) := by
  have contracted : (Forest.cons root below .nil).contract file.isBlock =
      .cons root (below.contract file.isBlock) .nil := by
    simp [Forest.contract, rootPlain]
  refine tree.spells.expands_children (contracted ▸ (tree.flatten rootPlain).spells) ?_ plain
  simpa [Forest.ids] using tree.reachable_iff.mp reachable

/-! ### The file without its blocks -/

/-- Another file has the same nodes, but no block of the first is reachable in it. -/
structure Unblocked (file flat : File) : Prop where
  address : flat.address = file.address
  size : flat.size = file.size
  kinds : ∀ id, flat.kind? id = file.kind? id
  links : ∀ id, flat.parent? id = file.parent? id
  blocks : ∀ id, file.isBlock id = true → flat.children id = file.children id
  unreachable : ∀ id, ¬file.Reachable id → flat.node? id = file.node? id
  reachable : ∀ id, flat.Reachable id ↔ file.Reachable id ∧ file.isBlock id = false

theorem node?_flatten_of_unreachable (unreachable : ¬file.Reachable id) :
    file.flatten.1.node? id = file.node? id := by
  refine node?_ext (kind?_flatten file id) ?_ (parent?_flatten file id)
  exact children_flattenEach_other _ _ fun member => unreachable (mem_preorder.mp member)

theorem unblocked_flatten (rootPlain : file.isBlock root = false) :
    file.Unblocked file.flatten.1 where
  address := address_flatten file
  size := size_flatten file
  kinds := kind?_flatten file
  links := parent?_flatten file
  blocks _ block := children_flattenEach_block _ _ block
  unreachable _ := node?_flatten_of_unreachable
  reachable _ := reachable_flatten_iff rootPlain

/-- The blocks that are reachable are counted. -/
theorem flatten_snd_eq_ncard (rootPlain : file.isBlock root = false) :
    file.flatten.2 = Set.ncard {id | file.Reachable id ∧ file.isBlock id = true} := by
  have blocks : {id | file.Reachable id ∧ file.isBlock id = true} =
      (file.preorder.filter file.isBlock).toFinset := by
    ext id
    simp [mem_preorder]
  rw [flatten_snd_eq rootPlain, blocks, Set.ncard_coe_finset,
    List.toFinset_card_of_nodup (file.preorder_nodup.filter _)]

end File

/-! ### A second time -/

variable {σ : Type}

/-- What the pass over blocks does to a file whose root is none. The root keeps its kind, so the
pass can be run again, which changes nothing. -/
theorem flattenBlocks_exact (state : State σ File)
    (rootPlain : state.unit.isBlock File.root = false) :
    ∃ after : State σ File, flattenBlocks state = (.ok (), after) ∧
      state.unit.Unblocked after.unit ∧
      after.context = state.context.bump "blocks_flattened"
        (Set.ncard {id | state.unit.Reachable id ∧ state.unit.isBlock id = true}) ∧
      flattenBlocks after = (.ok (), after) ∧
      (state.unit.TreeShaped →
        (∀ id, state.unit.Reachable id → state.unit.isBlock id = false → ∀ list,
          state.unit.Expands (state.unit.children id) list ↔ list = after.unit.children id) ∧
        after.unit.preorder = state.unit.preorder.filter (!state.unit.isBlock ·)) := by
  obtain ⟨_, ran⟩ := flattenBlocks_apply state
  rw [File.flatten_snd_eq_ncard rootPlain] at ran
  refine ⟨_, ran, File.unblocked_flatten rootPlain, rfl, ?_, fun shaped => ?_⟩
  · rw [flattenBlocks_of_flat (File.flat_flatten rootPlain), Context.bump_zero_bump]
  · obtain ⟨below, tree⟩ := File.treeShaped_iff.mp shaped
    refine ⟨fun id reachable plain list => ?_, tree.preorder_flatten rootPlain⟩
    have expands := tree.expands_flatten rootPlain reachable plain
    exact ⟨fun other => other.unique expands, fun same => same ▸ expands⟩

theorem flattenBlocks_nested :
    let state : State Unit File := ⟨(), {}, {}, File.nested⟩
    state.unit.isBlock File.root = false ∧ state.unit.TreeShaped ∧
      ∃ after : State Unit File, flattenBlocks state = (.ok (), after) ∧
        after.unit.preorder = [0, 1, 2, 5] := by
  intro state
  have rootPlain : state.unit.isBlock File.root = false := rfl
  have shaped : state.unit.TreeShaped := File.wellLinked_nested.shaped
  obtain ⟨after, ran, _, _, _, tree⟩ := flattenBlocks_exact state rootPlain
  refine ⟨rootPlain, shaped, after, ran, ?_⟩
  rw [(tree shaped).2]
  cbv

def File.tangled : File where
  path := "tangled"
  nodes := #[
    { kind := .root, children := [1, 5] },
    { kind := .function "main", children := [2, 4] },
    { kind := .block, children := [3, 2, 50] },
    { kind := .literal 1 },
    { kind := .literal 2 },
    { kind := .function "other", children := [2, 1] }]

/-- The function that comes first gets what the block lists. -/
example : File.tangled.flatten.2 = 1 ∧ File.tangled.flatten.1.children 1 = [3, 50, 4] ∧
    File.tangled.flatten.1.children 5 = [1] := by
  cbv

end StagedLowering
