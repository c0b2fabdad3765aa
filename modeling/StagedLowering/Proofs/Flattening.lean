import StagedLowering.Pass.Flatten
import StagedLowering.Proofs.TreeShape

/-!
# Flattening

Flattening changes lists alone, those of reachable nodes that are no blocks, and leaves no block in
them (`children_flatten`, `isBlock_of_reachable_flatten`). It makes nothing reachable that was not
(`reachable_of_flatten`).
-/

namespace StagedLowering.File

variable {file other : File} {fresh pending : List NodeId} {id : NodeId}

/-! ### Splicing -/

theorem splice_congr (blocks : ∀ id, other.isBlock id = file.isBlock id)
    (lists : ∀ id, file.isBlock id = true → other.children id = file.children id) :
    other.splice fresh pending = file.splice fresh pending := by
  fun_induction splice file fresh pending with
  | case1 fresh => rw [splice]
  | case2 fresh id pending block unopened ih =>
    rw [splice, if_pos (blocks id ▸ block), if_pos unopened, lists id block, ih]
  | case3 fresh id pending block opened ih =>
    rw [splice, if_pos (blocks id ▸ block), if_neg opened, ih]
  | case4 fresh id pending plain spliced left same ih =>
    rw [splice, if_neg (blocks id ▸ plain), ih, same]

theorem isBlock_of_mem_splice (member : id ∈ (file.splice fresh pending).1) :
    file.isBlock id = false := by
  fun_induction splice file fresh pending with
  | case1 fresh => cases member
  | case2 fresh id pending block unopened ih => exact ih member
  | case3 fresh id pending block opened ih => exact ih member
  | case4 fresh id pending plain spliced left same ih =>
    rw [same] at ih
    rcases List.mem_cons.mp member with rfl | later
    · simpa using plain
    · exact ih later

/-- Splicing drops nothing but blocks. -/
theorem mem_splice_of_mem (plain : file.isBlock id = false) (member : id ∈ pending) :
    id ∈ (file.splice fresh pending).1 := by
  fun_induction splice file fresh pending with
  | case1 fresh => cases member
  | case2 fresh block pending isBlock unopened ih =>
    rcases List.mem_cons.mp member with rfl | later
    · rw [plain] at isBlock
      cases isBlock
    · exact ih (List.mem_append_right _ later)
  | case3 fresh block pending isBlock opened ih =>
    rcases List.mem_cons.mp member with rfl | later
    · rw [plain] at isBlock
      cases isBlock
    · exact ih later
  | case4 fresh head pending other spliced left same ih =>
    rw [same] at ih
    exact List.mem_cons.mpr ((List.mem_cons.mp member).imp_right ih)

theorem reachable_of_mem_splice (start : ∀ id ∈ pending, id < file.size → file.Reachable id)
    (member : id ∈ (file.splice fresh pending).1) (exists_ : id < file.size) :
    file.Reachable id := by
  fun_induction splice file fresh pending with
  | case1 fresh => cases member
  | case2 fresh block pending isBlock unopened ih =>
    refine ih (fun child inList childExists => ?_) member
    rcases List.mem_append.mp inList with lifted | later
    · have blockExists := lt_of_kind? (isBlock_iff.mp isBlock)
      exact .child (start block List.mem_cons_self blockExists) lifted childExists
    · exact start child (List.mem_cons_of_mem _ later) childExists
  | case3 fresh block pending isBlock opened ih =>
    exact ih (fun child later => start child (List.mem_cons_of_mem _ later)) member
  | case4 fresh head pending plain spliced left same ih =>
    rw [same] at ih
    rcases List.mem_cons.mp member with rfl | later
    · exact start _ List.mem_cons_self exists_
    · exact ih (fun child inList => start child (List.mem_cons_of_mem _ inList)) later

/-! ### One list after another -/

section passes

variable (state : File × List NodeId) (ids : List NodeId)

@[simp] theorem address_flattenAt (id : NodeId) :
    (flattenAt id state).1.address = state.1.address := by
  obtain ⟨file, fresh⟩ := state
  rw [flattenAt]
  split
  · rfl
  · rfl

@[simp] theorem size_flattenAt (id : NodeId) : (flattenAt id state).1.size = state.1.size := by
  obtain ⟨file, fresh⟩ := state
  rw [flattenAt]
  split
  · rfl
  · exact size_setChildren ..

@[simp] theorem kind?_flattenAt (id other : NodeId) :
    (flattenAt id state).1.kind? other = state.1.kind? other := by
  obtain ⟨file, fresh⟩ := state
  rw [flattenAt]
  split
  · rfl
  · exact kind?_setChildren ..

@[simp] theorem parent?_flattenAt (id other : NodeId) :
    (flattenAt id state).1.parent? other = state.1.parent? other := by
  obtain ⟨file, fresh⟩ := state
  rw [flattenAt]
  split
  · rfl
  · exact parent?_setChildren ..

theorem flattenAt_of_isBlock (block : state.1.isBlock id = true) : flattenAt id state = state := by
  obtain ⟨file, fresh⟩ := state
  exact if_pos block

theorem flattenAt_of_not_isBlock (plain : state.1.isBlock id = false) :
    flattenAt id state =
      (state.1.setChildren id (state.1.splice state.2 (state.1.children id)).1,
        (state.1.splice state.2 (state.1.children id)).2) := by
  obtain ⟨file, fresh⟩ := state
  exact if_neg (by simpa using plain)

theorem children_flattenAt_other {other : NodeId} (different : id ≠ other) :
    (flattenAt id state).1.children other = state.1.children other := by
  cases block : state.1.isBlock id with
  | true => rw [flattenAt_of_isBlock state block]
  | false =>
    rw [flattenAt_of_not_isBlock state block]
    by_cases exists_ : id < state.1.size
    · rw [children_setChildren exists_, if_neg different]
    · rw [children, setChildren, node?_modify, if_neg different, children]

def flattenEach : File × List NodeId := ids.foldl (fun state id => flattenAt id state) state

@[simp] theorem flattenEach_cons (id : NodeId) :
    flattenEach state (id :: ids) = flattenEach (flattenAt id state) ids := rfl

theorem flattenEach_append (more : List NodeId) :
    flattenEach state (ids ++ more) = flattenEach (flattenEach state ids) more :=
  List.foldl_append

@[simp] theorem address_flattenEach : (flattenEach state ids).1.address = state.1.address := by
  induction ids generalizing state with
  | nil => rfl
  | cons id ids ih => rw [flattenEach_cons, ih, address_flattenAt]

@[simp] theorem size_flattenEach : (flattenEach state ids).1.size = state.1.size := by
  induction ids generalizing state with
  | nil => rfl
  | cons id ids ih => rw [flattenEach_cons, ih, size_flattenAt]

@[simp] theorem kind?_flattenEach (id : NodeId) :
    (flattenEach state ids).1.kind? id = state.1.kind? id := by
  induction ids generalizing state with
  | nil => rfl
  | cons id ids ih => rw [flattenEach_cons, ih, kind?_flattenAt]

@[simp] theorem parent?_flattenEach (id : NodeId) :
    (flattenEach state ids).1.parent? id = state.1.parent? id := by
  induction ids generalizing state with
  | nil => rfl
  | cons id ids ih => rw [flattenEach_cons, ih, parent?_flattenAt]

@[simp] theorem isBlock_flattenAt (id : NodeId) :
    (flattenAt id state).1.isBlock = state.1.isBlock :=
  funext fun other => isBlock_congr (kind?_flattenAt state id other)

@[simp] theorem isBlock_flattenEach : (flattenEach state ids).1.isBlock = state.1.isBlock :=
  funext fun id => isBlock_congr (kind?_flattenEach state ids id)

theorem children_flattenEach_other (absent : id ∉ ids) :
    (flattenEach state ids).1.children id = state.1.children id := by
  induction ids generalizing state with
  | nil => rfl
  | cons head ids ih =>
    rw [List.mem_cons, not_or] at absent
    rw [flattenEach_cons, ih _ absent.2, children_flattenAt_other _ (Ne.symm absent.1)]

theorem children_flattenEach_block (block : state.1.isBlock id = true) :
    (flattenEach state ids).1.children id = state.1.children id := by
  induction ids generalizing state with
  | nil => rfl
  | cons head ids ih =>
    rw [flattenEach_cons, ih]
    · by_cases same : head = id
      · rw [same, flattenAt_of_isBlock state block]
      · exact children_flattenAt_other state same
    · rw [isBlock_flattenAt, block]

theorem children_flattenAt_block (head : NodeId) (block : state.1.isBlock id = true) :
    (flattenAt head state).1.children id = state.1.children id :=
  children_flattenEach_block state [head] block

/-- The list of the first node becomes a splice, and the nodes after it leave it alone. -/
theorem children_flattenEach_head {ids : List NodeId} (absent : id ∉ ids)
    (exists_ : id < state.1.size) (plain : state.1.isBlock id = false) :
    (flattenEach state (id :: ids)).1.children id =
      (state.1.splice state.2 (state.1.children id)).1 := by
  rw [flattenEach_cons, children_flattenEach_other _ _ absent, flattenAt_of_not_isBlock state plain,
    children_setChildren exists_, if_pos rfl]

end passes

/-- Each list becomes a splice of what it was, with the blocks that are fresh at its turn. -/
theorem children_flattenEach (state : File × List NodeId) {ids : List NodeId} (nodup : ids.Nodup)
    (exists_ : ∀ id ∈ ids, id < state.1.size) (member : id ∈ ids)
    (plain : state.1.isBlock id = false) :
    ∃ fresh : List NodeId, (flattenEach state ids).1.children id =
      (state.1.splice fresh (state.1.children id)).1 := by
  induction ids generalizing state with
  | nil => cases member
  | cons head ids ih =>
    obtain ⟨absent, nodup⟩ := List.nodup_cons.mp nodup
    rcases List.mem_cons.mp member with rfl | later
    · exact ⟨state.2,
        children_flattenEach_head state absent (exists_ id List.mem_cons_self) plain⟩
    · have different : head ≠ id := fun same => absent (same ▸ later)
      obtain ⟨fresh, list⟩ := ih (flattenAt head state) nodup
        (fun id member => by
          rw [size_flattenAt]
          exact exists_ id (List.mem_cons_of_mem _ member))
        later (by rw [isBlock_flattenAt, plain])
      refine ⟨fresh, list.trans ?_⟩
      rw [children_flattenAt_other state different]
      congr 1
      exact splice_congr (fun id => congrFun (isBlock_flattenAt ..) id)
        fun block isBlock => children_flattenAt_block state head isBlock

/-! ### The whole file -/

theorem flatten_fst (file : File) :
    file.flatten.1 =
      (flattenEach (file, (List.range file.size).filter file.isBlock) file.preorder).1 := rfl

@[simp] theorem address_flatten (file : File) : file.flatten.1.address = file.address :=
  address_flattenEach ..

@[simp] theorem size_flatten (file : File) : file.flatten.1.size = file.size := size_flattenEach ..

@[simp] theorem kind?_flatten (file : File) (id : NodeId) :
    file.flatten.1.kind? id = file.kind? id := kind?_flattenEach ..

@[simp] theorem parent?_flatten (file : File) (id : NodeId) :
    file.flatten.1.parent? id = file.parent? id := parent?_flattenEach ..

/-- The list of a reachable node that is no block becomes a splice of what it was. -/
theorem children_flatten (reachable : file.Reachable id) (plain : file.isBlock id = false) :
    ∃ fresh : List NodeId, file.flatten.1.children id = (file.splice fresh (file.children id)).1 :=
  children_flattenEach _ (preorder_nodup file) (fun _ member => (mem_preorder.mp member).lt)
    (mem_preorder.mpr reachable) plain

theorem reachable_of_flatten (reachable : file.flatten.1.Reachable id) : file.Reachable id := by
  induction reachable with
  | root => exact .root
  | @child parent child _ listed exists_ ih =>
    rw [size_flatten] at exists_
    cases block : file.isBlock parent with
    | true =>
      rw [flatten_fst, children_flattenEach_block _ _ block] at listed
      exact .child ih listed exists_
    | false =>
      obtain ⟨fresh, list⟩ := children_flatten ih block
      rw [list] at listed
      exact reachable_of_mem_splice (fun child inList childExists => .child ih inList childExists)
        listed exists_

/-- Below a root that is no block no block stays reachable. -/
theorem isBlock_of_reachable_flatten (rootPlain : file.isBlock root = false)
    (reachable : file.flatten.1.Reachable id) : file.isBlock id = false := by
  induction reachable with
  | root => exact rootPlain
  | child above listed _ ih =>
    obtain ⟨fresh, list⟩ := children_flatten (reachable_of_flatten above) ih
    rw [list] at listed
    exact isBlock_of_mem_splice listed

end StagedLowering.File
