import StagedLowering.Tree.Walk
import StagedLowering.Proofs.Forest
import StagedLowering.Proofs.Views

/-!
# Reachable nodes

`mem_preorder` shows that a walk finds exactly what the children lists reach from the root, whatever
they say, and `preorder_nodup` that it finds it once. On a forest the walk is its preorder
(`walkFrom_forest`).
-/

namespace StagedLowering.File

inductive Reachable (file : File) : NodeId → Prop
  | root : file.Reachable root
  | child {parent child : NodeId} (above : file.Reachable parent)
      (listed : child ∈ file.children parent) (exists_ : child < file.size) : file.Reachable child

/-- The lists lead from the first node to the second through nodes of `unseen` alone. -/
inductive Leads (file : File) (unseen : List NodeId) : NodeId → NodeId → Prop
  | here {id : NodeId} (fresh : id ∈ unseen) : file.Leads unseen id id
  | step {id child last : NodeId} (fresh : id ∈ unseen) (listed : child ∈ file.children id)
      (rest : file.Leads unseen child last) : file.Leads unseen id last

variable {file other : File} {unseen : List NodeId} {id last : NodeId}

theorem Reachable.lt (reachable : file.Reachable id) : id < file.size := by
  cases reachable with
  | root => exact root_lt file
  | child _ _ exists_ => exact exists_

theorem Reachable.mono (size : file.size = other.size)
    (children : ∀ id, file.Reachable id → file.children id ⊆ other.children id)
    (reachable : file.Reachable id) : other.Reachable id := by
  induction reachable with
  | root => exact .root
  | child above listed exists_ ih => exact .child ih (children _ above listed) (size ▸ exists_)

theorem reachable_congr (size : other.size = file.size)
    (children : ∀ id, other.children id = file.children id) :
    other.Reachable id ↔ file.Reachable id :=
  ⟨.mono size fun id _ => (children id ▸ List.Subset.refl _),
    .mono size.symm fun id _ => (children id ▸ List.Subset.refl _)⟩

/-! ### What a walk finds -/

theorem Leads.mem_first (leads : file.Leads unseen id last) : id ∈ unseen := by
  cases leads with
  | here fresh => exact fresh
  | step fresh _ _ => exact fresh

theorem Leads.mem_last (leads : file.Leads unseen id last) : last ∈ unseen := by
  induction leads with
  | here fresh => exact fresh
  | step _ _ _ ih => exact ih

theorem Leads.mono {more : List NodeId} (subset : unseen ⊆ more)
    (leads : file.Leads unseen id last) : file.Leads more id last := by
  induction leads with
  | here fresh => exact .here (subset fresh)
  | step fresh listed _ ih => exact .step (subset fresh) listed ih

/-- A path either avoids a node or starts anew behind its last visit there. -/
theorem Leads.avoid (nodup : unseen.Nodup) (leads : file.Leads unseen id last) (mid : NodeId) :
    file.Leads (unseen.erase mid) id last ∨ last = mid ∨
      ∃ child ∈ file.children mid, file.Leads (unseen.erase mid) child last := by
  induction leads with
  | @here id fresh =>
    by_cases same : id = mid
    · exact .inr (.inl same)
    · exact .inl (.here ((nodup.mem_erase_iff).mpr ⟨same, fresh⟩))
  | @step id child last fresh listed _ ih =>
    rcases ih with avoids | back
    · by_cases same : id = mid
      · exact .inr (.inr ⟨child, same ▸ listed, avoids⟩)
      · exact .inl (.step ((nodup.mem_erase_iff).mpr ⟨same, fresh⟩) listed avoids)
    · exact .inr back

theorem mem_walkFrom (nodup : unseen.Nodup) (pending : List (NodeId × Nat)) :
    last ∈ (file.walkFrom unseen pending).map (·.1) ↔
      ∃ entry ∈ pending, file.Leads unseen entry.1 last := by
  fun_induction walkFrom file unseen pending with
  | case1 => simp
  | case2 unseen id depth pending fresh ih =>
    rw [List.map_cons, List.mem_cons, ih (nodup.erase id)]
    constructor
    · rintro (rfl | ⟨entry, member, leads⟩)
      · exact ⟨_, List.mem_cons_self, .here fresh⟩
      · have leads := leads.mono List.erase_subset
        rcases List.mem_append.mp member with new | old
        · obtain ⟨child, listed, rfl⟩ := List.mem_map.mp new
          exact ⟨_, List.mem_cons_self, .step fresh listed leads⟩
        · exact ⟨entry, List.mem_cons_of_mem _ old, leads⟩
    · rintro ⟨entry, member, leads⟩
      rcases leads.avoid nodup id with avoids | same | ⟨child, listed, avoids⟩
      · refine .inr ⟨entry, List.mem_append_right _ ?_, avoids⟩
        rcases List.mem_cons.mp member with rfl | old
        · exact absurd avoids.mem_first nodup.not_mem_erase
        · exact old
      · exact .inl same
      · exact .inr ⟨(child, depth + 1),
          List.mem_append_left _ (List.mem_map.mpr ⟨child, listed, rfl⟩), avoids⟩
  | case3 unseen id depth pending seen ih =>
    rw [ih nodup]
    constructor
    · rintro ⟨entry, member, leads⟩
      exact ⟨entry, List.mem_cons_of_mem _ member, leads⟩
    · rintro ⟨entry, member, leads⟩
      rcases List.mem_cons.mp member with rfl | old
      · exact absurd leads.mem_first seen
      · exact ⟨entry, old, leads⟩

theorem nodup_walkFrom (nodup : unseen.Nodup) (pending : List (NodeId × Nat)) :
    ((file.walkFrom unseen pending).map (·.1)).Nodup := by
  fun_induction walkFrom file unseen pending with
  | case1 => exact .nil
  | case2 unseen id depth pending fresh ih =>
    rw [List.map_cons, List.nodup_cons]
    refine ⟨fun again => ?_, ih (nodup.erase id)⟩
    obtain ⟨_, _, leads⟩ := (mem_walkFrom (nodup.erase id) _).mp again
    exact nodup.not_mem_erase leads.mem_last
  | case3 unseen id depth pending seen ih => exact ih nodup

theorem reachable_of_leads (start : file.Reachable id)
    (leads : file.Leads (List.range file.size) id last) : file.Reachable last := by
  induction leads with
  | here _ => exact start
  | step _ listed rest ih => exact ih (.child start listed (List.mem_range.mp rest.mem_first))

theorem Leads.snoc {parent child : NodeId} (leads : file.Leads unseen id parent)
    (listed : child ∈ file.children parent) (fresh : child ∈ unseen) :
    file.Leads unseen id child := by
  induction leads with
  | here here => exact .step here listed (.here fresh)
  | step here first _ ih => exact .step here first (ih listed)

/-- A walk finds exactly the reachable nodes, whatever the lists say. -/
theorem mem_preorder : id ∈ file.preorder ↔ file.Reachable id := by
  rw [preorder, walk, mem_walkFrom List.nodup_range]
  constructor
  · rintro ⟨entry, member, leads⟩
    rw [List.mem_singleton.mp member] at leads
    exact reachable_of_leads .root leads
  · intro reachable
    refine ⟨_, List.mem_singleton_self _, ?_⟩
    induction reachable with
    | root => exact .here (List.mem_range.mpr (root_lt file))
    | child _ listed exists_ ih => exact ih.snoc listed (List.mem_range.mpr exists_)

theorem preorder_nodup (file : File) : file.preorder.Nodup :=
  nodup_walkFrom List.nodup_range _

theorem mem_edges {parent child : NodeId} :
    (parent, child) ∈ file.edges ↔
      file.Reachable parent ∧ child ∈ file.children parent ∧ child < file.size := by
  simp only [edges, List.mem_filter, List.mem_flatMap, List.mem_map, decide_eq_true_eq,
    Prod.mk.injEq]
  constructor
  · rintro ⟨⟨_, member, _, listed, rfl, rfl⟩, exists_⟩
    exact ⟨mem_preorder.mp member, listed, exists_⟩
  · rintro ⟨reachable, listed, exists_⟩
    exact ⟨⟨_, mem_preorder.mpr reachable, _, listed, rfl, rfl⟩, exists_⟩

end StagedLowering.File
