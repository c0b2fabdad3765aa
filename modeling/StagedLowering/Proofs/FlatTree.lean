import StagedLowering.Proofs.Flattening

/-!
# Flattening a tree

Flattening turns a tree into the same tree with its blocks contracted (`IsTree.flatten`). In a tree
every block is opened once, when the list of the nearest node above it that is no block is spliced.
-/

namespace StagedLowering

namespace Forest

/-- The nodes that `inner` holds of and that are below none that it does not hold of. -/
def opened (inner : NodeId → Bool) : Forest → List NodeId
  | nil => []
  | cons id below beside =>
    (if inner id then id :: below.opened inner else []) ++ beside.opened inner

/-- The nodes that `inner` holds of and that are below one that it does not hold of. -/
def enclosed (inner : NodeId → Bool) : Forest → List NodeId
  | nil => []
  | cons id below beside =>
    (if inner id then below.enclosed inner else below.ids.filter inner) ++ beside.enclosed inner

variable {forest : Forest} {inner : NodeId → Bool} {id : NodeId}

theorem enclosed_append (inner : NodeId → Bool) (forest more : Forest) :
    (forest.append more).enclosed inner = forest.enclosed inner ++ more.enclosed inner := by
  induction forest with
  | nil => rfl
  | cons id below beside _ ih => simp only [append, enclosed, ih, List.append_assoc]

theorem mem_opened_or_enclosed :
    id ∈ forest.ids.filter inner ↔ id ∈ forest.opened inner ∨ id ∈ forest.enclosed inner := by
  induction forest with
  | nil => simp [ids, opened, enclosed]
  | cons head below beside belowIh besideIh =>
    by_cases taken : inner head
    · simp only [ids, opened, enclosed, taken, List.filter_cons, List.filter_append, List.mem_cons,
        List.mem_append, if_pos, belowIh, besideIh]
      grind
    · simp only [ids, opened, enclosed, taken, List.filter_cons, List.filter_append, List.mem_append]
      grind

theorem opened_subset : forest.opened inner ⊆ forest.ids :=
  fun _ member => List.mem_of_mem_filter (mem_opened_or_enclosed.mpr (.inl member))

theorem enclosed_subset : forest.enclosed inner ⊆ forest.ids :=
  fun _ member => List.mem_of_mem_filter (mem_opened_or_enclosed.mpr (.inr member))

theorem not_enclosed_of_opened (nodup : forest.ids.Nodup) (opened : id ∈ forest.opened inner) :
    id ∉ forest.enclosed inner := by
  induction forest with
  | nil => cases opened
  | cons head below beside belowIh besideIh =>
    rw [ids, List.nodup_cons, List.nodup_append] at nodup
    obtain ⟨notAgain, belowNodup, besideNodup, disjoint⟩ := nodup
    rw [List.mem_append, not_or] at notAgain
    intro enclosed
    rw [Forest.opened] at opened
    rw [Forest.enclosed] at enclosed
    by_cases taken : inner head
    · rw [if_pos taken] at opened enclosed
      rcases List.mem_append.mp enclosed with inBelow | inBeside
      · rcases List.mem_append.mp opened with here | there
        · rcases List.mem_cons.mp here with rfl | here
          · exact notAgain.1 (enclosed_subset inBelow)
          · exact belowIh belowNodup here inBelow
        · exact disjoint id (enclosed_subset inBelow) id (opened_subset there) rfl
      · rcases List.mem_append.mp opened with here | there
        · rcases List.mem_cons.mp here with rfl | here
          · exact notAgain.2 (enclosed_subset inBeside)
          · exact disjoint id (opened_subset here) id (enclosed_subset inBeside) rfl
        · exact besideIh besideNodup there inBeside
    · rw [if_neg taken] at opened enclosed
      have opened : id ∈ beside.opened inner := opened
      rcases List.mem_append.mp enclosed with inBelow | inBeside
      · exact disjoint id (List.mem_of_mem_filter inBelow) id (opened_subset opened) rfl
      · exact besideIh besideNodup opened inBeside

end Forest

namespace File

variable {file : File} {forest below : Forest} {fresh : List NodeId}

/-- Splicing the roots of a forest gives the roots of the contracted forest and opens the blocks
that are below none but blocks. -/
theorem splice_forest (spells : file.Spells forest) (nodup : forest.ids.Nodup)
    (freshNodup : fresh.Nodup) (subset : forest.opened file.isBlock ⊆ fresh)
    (pending : List NodeId) :
    ∃ left : List NodeId, left.Nodup ∧
      (∀ id, id ∈ left ↔ id ∈ fresh ∧ id ∉ forest.opened file.isBlock) ∧
      file.splice fresh (forest.roots ++ pending) =
        ((forest.contract file.isBlock).roots ++ (file.splice left pending).1,
          (file.splice left pending).2) := by
  induction forest generalizing fresh pending with
  | nil => exact ⟨fresh, freshNodup, by simp [Forest.opened], rfl⟩
  | cons id below beside belowIh besideIh =>
    obtain ⟨lists, belowSpells, besideSpells⟩ := spells
    rw [Forest.ids, List.nodup_cons, List.nodup_append] at nodup
    obtain ⟨notAgain, belowNodup, besideNodup, disjoint⟩ := nodup
    rw [Forest.roots, List.cons_append, splice]
    by_cases block : file.isBlock id
    · simp only [Forest.opened, block, if_pos, List.cons_append, List.cons_subset,
        List.append_subset] at subset
      obtain ⟨here, belowSubset, besideSubset⟩ := subset
      have still : ∀ x ∈ below.ids ++ beside.ids, x ∈ fresh → x ∈ fresh.erase id := by
        intro x inForest member
        refine freshNodup.mem_erase_iff.mpr ⟨?_, member⟩
        rintro rfl
        exact notAgain inForest
      obtain ⟨middle, middleNodup, memMiddle, belowSplice⟩ := belowIh belowSpells belowNodup
        (freshNodup.erase id)
        (fun x member => still x (List.mem_append_left _ (Forest.opened_subset member))
          (belowSubset member))
        (beside.roots ++ pending)
      obtain ⟨left, leftNodup, memLeft, besideSplice⟩ := besideIh besideSpells besideNodup
        middleNodup
        (fun x member => (memMiddle x).mpr
          ⟨still x (List.mem_append_right _ (Forest.opened_subset member)) (besideSubset member),
            fun inBelow =>
              disjoint x (Forest.opened_subset inBelow) x (Forest.opened_subset member) rfl⟩)
        pending
      refine ⟨left, leftNodup, ?_, ?_⟩
      · intro x
        rw [memLeft, memMiddle, freshNodup.mem_erase_iff]
        simp only [Forest.opened, block, if_pos, List.mem_append, List.mem_cons, not_or]
        grind
      · rw [if_pos block, if_pos here, lists, belowSplice, besideSplice, Forest.contract,
          if_pos block, Forest.roots_append, List.append_assoc]
    · simp only [Forest.opened, block, Bool.false_eq_true, if_false, List.nil_append] at subset
      obtain ⟨left, leftNodup, memLeft, besideSplice⟩ := besideIh besideSpells besideNodup
        freshNodup subset pending
      refine ⟨left, leftNodup, ?_, ?_⟩
      · intro x
        simp only [memLeft, Forest.opened, block, Bool.false_eq_true, if_false, List.nil_append]
      · rw [if_neg block, besideSplice, Forest.contract, if_neg block, Forest.roots,
          List.cons_append]

/-- The nodes of the forest are in range, and its blocks that are below other nodes are fresh. -/
structure Flattenable (state : File × List NodeId) (forest : Forest) : Prop where
  spells : state.1.Spells forest
  nodup : forest.ids.Nodup
  inRange : ∀ id ∈ forest.ids, id < state.1.size
  freshNodup : state.2.Nodup
  subset : forest.enclosed state.1.isBlock ⊆ state.2

/-- What flattening the lists of a forest in turn comes to: the forest is contracted, and the blocks
below other nodes are opened. -/
structure Flattens (state : File × List NodeId) (forest : Forest) : Prop where
  spells : (flattenEach state forest.ids).1.Spells (forest.contract state.1.isBlock)
  freshNodup : (flattenEach state forest.ids).2.Nodup
  mem_fresh : ∀ id, id ∈ (flattenEach state forest.ids).2 ↔
    id ∈ state.2 ∧ id ∉ forest.enclosed state.1.isBlock

variable {state : File × List NodeId} {more : Forest}

theorem Flattenable.left (able : Flattenable state (forest.append more)) :
    Flattenable state forest := by
  obtain ⟨spells, nodup, inRange, freshNodup, subset⟩ := able
  rw [Forest.ids_append] at inRange nodup
  rw [Forest.enclosed_append, List.append_subset] at subset
  exact ⟨(spells_append.mp spells).1, (List.nodup_append.mp nodup).1,
    fun id member => inRange id (List.mem_append_left _ member), freshNodup, subset.1⟩

theorem Flattenable.right (able : Flattenable state (forest.append more))
    (first : Flattens state forest) : Flattenable (flattenEach state forest.ids) more := by
  obtain ⟨spells, nodup, inRange, freshNodup, subset⟩ := able
  rw [Forest.ids_append] at inRange nodup
  rw [Forest.enclosed_append, List.append_subset] at subset
  obtain ⟨_, moreNodup, disjoint⟩ := List.nodup_append.mp nodup
  refine ⟨(spells_append.mp spells).2.congr ?_, moreNodup, ?_, first.freshNodup, ?_⟩
  · intro id later
    exact children_flattenEach_other _ _ fun earlier => disjoint id earlier id later rfl
  · intro id later
    rw [size_flattenEach]
    exact inRange id (List.mem_append_right _ later)
  · rw [isBlock_flattenEach]
    intro id later
    exact (first.mem_fresh id).mpr ⟨subset.2 later,
      fun earlier => disjoint id (Forest.enclosed_subset earlier) id (Forest.enclosed_subset later) rfl⟩

theorem Flattens.append (nodup : (forest.append more).ids.Nodup) (first : Flattens state forest)
    (second : Flattens (flattenEach state forest.ids) more) :
    Flattens state (forest.append more) := by
  rw [Forest.ids_append] at nodup
  obtain ⟨_, _, disjoint⟩ := List.nodup_append.mp nodup
  obtain ⟨spells, freshNodup, memFresh⟩ := second
  rw [isBlock_flattenEach] at spells memFresh
  refine ⟨?_, ?_, ?_⟩
  · rw [Forest.ids_append, flattenEach_append, Forest.contract_append, spells_append]
    refine ⟨first.spells.congr fun id earlier => ?_, spells⟩
    rw [Forest.ids_contract] at earlier
    exact children_flattenEach_other _ _
      fun later => disjoint id (List.mem_of_mem_filter earlier) id later rfl
  · rw [Forest.ids_append, flattenEach_append]
    exact freshNodup
  · intro id
    rw [Forest.ids_append, flattenEach_append, memFresh, first.mem_fresh, Forest.enclosed_append,
      List.mem_append, not_or, and_assoc]

/-- A block at the top stays out of its own forest: only what is below it is flattened. -/
theorem Flattenable.of_block {id : NodeId} {below beside : Forest}
    (able : Flattenable state (.cons id below beside)) (block : state.1.isBlock id = true) :
    Flattenable state (below.append beside) := by
  obtain ⟨⟨_, spells⟩, nodup, inRange, freshNodup, subset⟩ := able
  rw [Forest.enclosed, if_pos block] at subset
  rw [Forest.ids] at inRange nodup
  refine ⟨spells_append.mpr spells, ?_, ?_, freshNodup, ?_⟩
  · rw [Forest.ids_append]
    exact (List.nodup_cons.mp nodup).2
  · rw [Forest.ids_append]
    exact fun x member => inRange x (List.mem_cons_of_mem _ member)
  · rw [Forest.enclosed_append]
    exact subset

/-- Flattening the list of a node opens the blocks that its forest shows at the top. -/
theorem Flattenable.flattenAt {id : NodeId} {below beside : Forest}
    (able : Flattenable state (.cons id below beside)) (plain : state.1.isBlock id = false) :
    Flattenable (File.flattenAt id state) (below.append beside) ∧
      (File.flattenAt id state).1.children id = (below.contract state.1.isBlock).roots ∧
      ∀ x, x ∈ (File.flattenAt id state).2 ↔ x ∈ state.2 ∧ x ∉ below.opened state.1.isBlock := by
  obtain ⟨⟨lists, belowSpells, besideSpells⟩, nodup, inRange, freshNodup, subset⟩ := able
  simp only [Forest.enclosed, plain, Bool.false_eq_true, if_false, List.append_subset] at subset
  rw [Forest.ids, List.nodup_cons] at nodup
  rw [Forest.ids] at inRange
  obtain ⟨notAgain, forestNodup⟩ := nodup
  obtain ⟨belowNodup, _, disjoint⟩ := List.nodup_append.mp forestNodup
  have opened : below.opened state.1.isBlock ⊆ state.2 := fun x member =>
    subset.1 (Forest.mem_opened_or_enclosed.mpr (.inl member))
  obtain ⟨left, leftNodup, memLeft, spliced⟩ :=
    splice_forest belowSpells belowNodup freshNodup opened []
  rw [List.append_nil, ← lists, splice, List.append_nil] at spliced
  have here := inRange id List.mem_cons_self
  rw [flattenAt_of_not_isBlock state plain, spliced]
  refine ⟨⟨?_, ?_, ?_, leftNodup, ?_⟩, ?_, memLeft⟩
  · refine (spells_append.mpr ⟨belowSpells, besideSpells⟩).congr fun x member => ?_
    rw [Forest.ids_append] at member
    rw [children_setChildren here, if_neg]
    rintro rfl
    exact notAgain member
  · rw [Forest.ids_append]
    exact forestNodup
  · intro x member
    rw [Forest.ids_append] at member
    rw [size_setChildren]
    exact inRange x (List.mem_cons_of_mem _ member)
  · have blocks : (state.1.setChildren id (below.contract state.1.isBlock).roots).isBlock =
        state.1.isBlock := funext fun x => isBlock_congr (kind?_setChildren ..)
    rw [blocks, Forest.enclosed_append, List.append_subset]
    constructor
    · intro x member
      refine (memLeft x).mpr ⟨subset.1 (Forest.mem_opened_or_enclosed.mpr (.inr member)), ?_⟩
      exact fun opened => Forest.not_enclosed_of_opened belowNodup opened member
    · intro x member
      refine (memLeft x).mpr ⟨subset.2 member, fun opened => ?_⟩
      exact disjoint x (Forest.opened_subset opened) x (Forest.enclosed_subset member) rfl
  · rw [children_setChildren here, if_pos rfl]

theorem Flattenable.flattens (able : Flattenable state forest) : Flattens state forest := by
  induction forest generalizing state with
  | nil => exact ⟨trivial, able.freshNodup, by simp [Forest.ids, Forest.enclosed, flattenEach]⟩
  | cons id below beside belowIh besideIh =>
    have both : ∀ {state : File × List NodeId}, Flattenable state (below.append beside) →
        Flattens state (below.append beside) := fun able =>
      .append able.nodup (belowIh able.left) (besideIh (able.right (belowIh able.left)))
    have ids : (Forest.cons id below beside).ids = id :: (below.append beside).ids := by
      rw [Forest.ids, Forest.ids_append]
    cases block : state.1.isBlock id with
    | true =>
      obtain ⟨spells, freshNodup, memFresh⟩ := both (able.of_block block)
      have still : flattenEach state (Forest.cons id below beside).ids =
          flattenEach state (below.append beside).ids := by
        rw [ids, flattenEach_cons, flattenAt_of_isBlock state block]
      refine ⟨?_, still ▸ freshNodup, fun x => ?_⟩
      · rw [still, Forest.contract, if_pos block, ← Forest.contract_append]
        exact spells
      · rw [still, memFresh, Forest.enclosed, if_pos block, Forest.enclosed_append]
    | false =>
      obtain ⟨able', list, memOpened⟩ := able.flattenAt block
      obtain ⟨spells, freshNodup, memFresh⟩ := both able'
      rw [isBlock_flattenAt] at spells memFresh
      have moved : flattenEach state (Forest.cons id below beside).ids =
          flattenEach (File.flattenAt id state) (below.append beside).ids := by
        rw [ids, flattenEach_cons]
      have notAgain : id ∉ (below.append beside).ids := by
        have nodup := able.nodup
        rw [ids] at nodup
        exact (List.nodup_cons.mp nodup).1
      have contracted : (Forest.cons id below beside).contract state.1.isBlock =
          .cons id (below.contract state.1.isBlock) (beside.contract state.1.isBlock) := by
        simp [Forest.contract, block]
      refine ⟨?_, moved ▸ freshNodup, fun x => ?_⟩
      · rw [moved, contracted]
        rw [Forest.contract_append, spells_append] at spells
        exact ⟨(children_flattenEach_other _ _ notAgain).trans list, spells⟩
      · rw [moved, memFresh, memOpened, Forest.enclosed, if_neg (by simp [block]),
          Forest.enclosed_append, List.mem_append, List.mem_append,
          Forest.mem_opened_or_enclosed]
        grind

/-- Flattening starts with every block fresh. -/
theorem IsTree.flattenable (tree : file.IsTree below) :
    Flattenable (file, (List.range file.size).filter file.isBlock) (.cons root below .nil) := by
  have ids : (Forest.cons root below .nil).ids = root :: below.ids := by simp [Forest.ids]
  have inRange : ∀ id ∈ (Forest.cons root below .nil).ids, id < file.size := by
    intro id member
    rcases List.mem_cons.mp (ids ▸ member) with rfl | inBelow
    · exact root_lt file
    · exact tree.inRange id inBelow
  refine ⟨tree.spells, ids ▸ tree.nodup, inRange, List.nodup_range.filter _, fun id member => ?_⟩
  have block := Forest.mem_opened_or_enclosed.mpr (.inr member)
  obtain ⟨inForest, isBlock⟩ := List.mem_filter.mp block
  exact List.mem_filter.mpr ⟨List.mem_range.mpr (inRange id inForest), isBlock⟩

theorem IsTree.flatten (tree : file.IsTree below) (rootPlain : file.isBlock root = false) :
    file.flatten.1.IsTree (below.contract file.isBlock) := by
  have ids : (Forest.cons root below .nil).ids = root :: below.ids := by simp [Forest.ids]
  have contracted : (Forest.cons root below .nil).contract file.isBlock =
      .cons root (below.contract file.isBlock) .nil := by
    simp [Forest.contract, rootPlain]
  have spells := tree.flattenable.flattens.spells
  rw [ids, ← tree.preorder_eq, ← flatten_fst, contracted] at spells
  refine ⟨spells, ?_, ?_⟩
  · rw [Forest.ids_contract]
    exact tree.nodup.sublist (List.filter_sublist.cons_cons _)
  · intro id member
    rw [Forest.ids_contract] at member
    rw [size_flatten]
    exact tree.inRange id (List.mem_of_mem_filter member)

theorem TreeShaped.flatten (shaped : file.TreeShaped) (rootPlain : file.isBlock root = false) :
    file.flatten.1.TreeShaped := by
  obtain ⟨below, tree⟩ := treeShaped_iff.mp shaped
  exact (tree.flatten rootPlain).treeShaped

end File
end StagedLowering
