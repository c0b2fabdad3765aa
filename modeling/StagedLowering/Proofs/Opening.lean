import Mathlib.Data.List.Induction
import StagedLowering.Proofs.Flattening

/-!
# Which blocks are opened

A block is opened at most once, for whichever list comes to it first, and what it lists may be
shared with blocks that other lists open. Nothing is lost by that: flattening opens the blocks that
are reachable (`mem_left_iff`), and a node that is none stays reachable (`reachable_flatten_iff`),
whatever the lists say.
-/

namespace StagedLowering.File

variable {file : File} {fresh pending left more ids before after : List NodeId} {id block : NodeId}
  {state : File × List NodeId} {kept keeps : NodeId → Prop}

/-! ### What is taken in -/

structure TakenIn (inner : NodeId → Bool) (kept : NodeId → Prop) (left : List NodeId)
    (id : NodeId) : Prop where
  opened : inner id = true → id ∉ left
  kept : inner id = false → kept id

theorem TakenIn.mono {inner : NodeId → Bool} (taken : TakenIn inner kept left id)
    (fewer : more ⊆ left) (keep : kept id → keeps id) : TakenIn inner keeps more id where
  opened isBlock member := taken.opened isBlock (fewer member)
  kept plain := keep (taken.kept plain)

/-! ### One splice -/

theorem splice_sublist (fresh pending : List NodeId) :
    (file.splice fresh pending).2.Sublist fresh := by
  fun_induction splice file fresh pending with
  | case1 fresh => exact .refl _
  | case2 fresh id pending block unopened ih => exact ih.trans List.erase_sublist
  | case3 fresh id pending block opened ih => exact ih
  | case4 fresh id pending plain spliced left same ih =>
    rw [same] at ih
    exact ih

theorem opened_of_pending (nodup : fresh.Nodup) (isBlock : file.isBlock id = true)
    (member : id ∈ pending) : id ∉ (file.splice fresh pending).2 := by
  fun_induction splice file fresh pending with
  | case1 fresh => cases member
  | case2 fresh head pending _ unopened ih =>
    rcases List.mem_cons.mp member with rfl | later
    · exact fun still => nodup.not_mem_erase ((splice_sublist ..).subset still)
    · exact ih (nodup.erase head) (List.mem_append_right _ later)
  | case3 fresh head pending _ opened ih =>
    rcases List.mem_cons.mp member with rfl | later
    · exact fun still => opened ((splice_sublist ..).subset still)
    · exact ih nodup later
  | case4 fresh head pending plain spliced left same ih =>
    rw [same] at ih
    rcases List.mem_cons.mp member with rfl | later
    · exact absurd isBlock plain
    · exact ih nodup later

/-- A splice takes in what is pending. -/
theorem takenIn_of_pending (nodup : fresh.Nodup) (member : id ∈ pending) :
    TakenIn file.isBlock (· ∈ (file.splice fresh pending).1) (file.splice fresh pending).2 id where
  opened isBlock := opened_of_pending nodup isBlock member
  kept plain := mem_splice_of_mem plain member

/-- A splice takes in what the blocks list that it opens. -/
theorem takenIn_of_opened (nodup : fresh.Nodup) (wasFresh : block ∈ fresh)
    (opened : block ∉ (file.splice fresh pending).2) (inList : id ∈ file.children block) :
    TakenIn file.isBlock (· ∈ (file.splice fresh pending).1) (file.splice fresh pending).2 id := by
  fun_induction splice file fresh pending with
  | case1 fresh => exact absurd wasFresh opened
  | case2 fresh head pending isBlock unopened ih =>
    by_cases same : block = head
    · exact takenIn_of_pending (nodup.erase head) (List.mem_append_left _ (same ▸ inList))
    · exact ih (nodup.erase head) ((List.mem_erase_of_ne same).mpr wasFresh) opened
  | case3 fresh head pending isBlock again ih => exact ih nodup wasFresh opened
  | case4 fresh head pending plain spliced left same ih =>
    rw [same] at ih
    exact (ih nodup wasFresh opened).mono (List.Subset.refl _) (List.mem_cons_of_mem _)

/-- A splice opens blocks in what is pending or listed by a block that it opens. -/
theorem known_of_splice {known : NodeId → Prop} (start : ∀ id ∈ pending, known id)
    (closed : ∀ block, file.isBlock block = true → known block →
      ∀ id ∈ file.children block, known id)
    (wasFresh : block ∈ fresh) (opened : block ∉ (file.splice fresh pending).2) : known block := by
  fun_induction splice file fresh pending with
  | case1 fresh => exact absurd wasFresh opened
  | case2 fresh head pending isBlock unopened ih =>
    rw [List.forall_mem_cons] at start
    by_cases same : block = head
    · exact same ▸ start.1
    · refine ih (fun id member => ?_) ((List.mem_erase_of_ne same).mpr wasFresh) opened
      rcases List.mem_append.mp member with inList | later
      · exact closed head isBlock start.1 id inList
      · exact start.2 id later
  | case3 fresh head pending isBlock again ih =>
    exact ih (fun id member => start id (List.mem_cons_of_mem _ member)) wasFresh opened
  | case4 fresh head pending plain spliced left same ih =>
    rw [same] at ih
    exact ih (fun id member => start id (List.mem_cons_of_mem _ member)) wasFresh opened

/-! ### Splices in turn -/

theorem flattenAt_sublist (state : File × List NodeId) (id : NodeId) :
    (flattenAt id state).2.Sublist state.2 := by
  cases isBlock : state.1.isBlock id with
  | true => rw [flattenAt_of_isBlock state isBlock]
  | false =>
    rw [flattenAt_of_not_isBlock state isBlock]
    exact splice_sublist ..

theorem flattenEach_sublist (state : File × List NodeId) (ids : List NodeId) :
    (flattenEach state ids).2.Sublist state.2 := by
  induction ids generalizing state with
  | nil => exact .refl _
  | cons id ids ih => exact (ih (flattenAt id state)).trans (flattenAt_sublist state id)

/-- A block that is opened at a node is opened in a splice of its list. -/
theorem opened_of_flattenAt (wasFresh : block ∈ state.2) (opened : block ∉ (flattenAt id state).2) :
    state.1.isBlock id = false ∧ block ∉ (state.1.splice state.2 (state.1.children id)).2 := by
  cases plain : state.1.isBlock id with
  | true =>
    rw [flattenAt_of_isBlock state plain] at opened
    exact absurd wasFresh opened
  | false =>
    rw [flattenAt_of_not_isBlock state plain] at opened
    exact ⟨rfl, opened⟩

/-- What flattening the lists of some nodes in turn takes in: all that they listed, and all that the
blocks list that are opened on the way, at one of the nodes or another. -/
structure TakesIn (state : File × List NodeId) (ids : List NodeId) : Prop where
  listed : ∀ parent ∈ ids, state.1.isBlock parent = false → ∀ id ∈ state.1.children parent,
    TakenIn state.1.isBlock (· ∈ (flattenEach state ids).1.children parent)
      (flattenEach state ids).2 id
  lifted : ∀ block ∈ state.2, state.1.isBlock block = true → block ∉ (flattenEach state ids).2 →
    ∀ id ∈ state.1.children block, TakenIn state.1.isBlock
      (fun id => ∃ parent ∈ ids, state.1.isBlock parent = false ∧
        id ∈ (flattenEach state ids).1.children parent)
      (flattenEach state ids).2 id

theorem takesIn_flattenEach (state : File × List NodeId) (fresh : state.2.Nodup) (nodup : ids.Nodup)
    (exists_ : ∀ id ∈ ids, id < state.1.size) : TakesIn state ids := by
  induction ids generalizing state with
  | nil =>
    exact ⟨fun _ member => absurd member List.not_mem_nil,
      fun _ wasFresh _ opened => absurd wasFresh opened⟩
  | cons head ids ih =>
    obtain ⟨absent, nodup⟩ := List.nodup_cons.mp nodup
    rw [List.forall_mem_cons] at exists_
    obtain ⟨listed, lifted⟩ := ih (flattenAt head state)
      (fresh.sublist (flattenAt_sublist state head)) nodup (by simpa using exists_.2)
    rw [isBlock_flattenAt] at listed lifted
    have fewer : (flattenEach state (head :: ids)).2 ⊆ (flattenAt head state).2 :=
      (flattenEach_sublist (flattenAt head state) ids).subset
    constructor
    · intro parent member plain id inList
      rcases List.mem_cons.mp member with rfl | later
      · rw [flattenAt_of_not_isBlock state plain] at fewer
        rw [children_flattenEach_head state absent exists_.1 plain]
        exact (takenIn_of_pending fresh inList).mono fewer fun kept => kept
      · have different := (ne_of_mem_of_not_mem later absent).symm
        rw [← children_flattenAt_other state different] at inList
        exact listed parent later plain id inList
    · intro block wasFresh isBlock opened id inList
      by_cases still : block ∈ (flattenAt head state).2
      · rw [← children_flattenAt_block state head isBlock] at inList
        refine (lifted block still isBlock opened id inList).mono (List.Subset.refl _) ?_
        rintro ⟨parent, member, plain, listed⟩
        exact ⟨parent, List.mem_cons_of_mem _ member, plain, listed⟩
      · obtain ⟨plain, openedHere⟩ := opened_of_flattenAt wasFresh still
        rw [flattenAt_of_not_isBlock state plain] at fewer
        refine (takenIn_of_opened fresh wasFresh openedHere inList).mono fewer fun kept => ?_
        refine ⟨head, List.mem_cons_self, plain, ?_⟩
        rwa [children_flattenEach_head state absent exists_.1 plain]

theorem known_of_flattenEach (known : NodeId → Prop) (nodup : ids.Nodup)
    (start : ∀ parent ∈ ids, ∀ id ∈ state.1.children parent, known id)
    (closed : ∀ block, state.1.isBlock block = true → known block →
      ∀ id ∈ state.1.children block, known id)
    (wasFresh : block ∈ state.2) (opened : block ∉ (flattenEach state ids).2) : known block := by
  induction ids generalizing state with
  | nil => exact absurd wasFresh opened
  | cons head ids ih =>
    obtain ⟨absent, nodup⟩ := List.nodup_cons.mp nodup
    rw [List.forall_mem_cons] at start
    by_cases still : block ∈ (flattenAt head state).2
    · refine ih nodup (fun parent member id listed => ?_)
        (fun block isBlock above id listed => ?_) still opened
      · rw [children_flattenAt_other state (ne_of_mem_of_not_mem member absent).symm] at listed
        exact start.2 parent member id listed
      · rw [isBlock_flattenAt] at isBlock
        rw [children_flattenAt_block state head isBlock] at listed
        exact closed block isBlock above id listed
    · exact known_of_splice start.1 closed wasFresh (opened_of_flattenAt wasFresh still).2

/-! ### The order of the walk -/

/-- What a walk comes to was pending or is listed by a node that it came to before. -/
theorem listed_of_walkFrom {unseen : List NodeId} {pending : List (NodeId × Nat)}
    (split : (file.walkFrom unseen pending).map (·.1) = before ++ id :: after) :
    id ∈ pending.map (·.1) ∨ ∃ parent ∈ before, id ∈ file.children parent := by
  fun_induction walkFrom file unseen pending generalizing before with
  | case1 => simp at split
  | case2 unseen head depth pending fresh ih =>
    cases before with
    | nil =>
      obtain ⟨rfl, -⟩ := List.cons.inj split
      exact .inl List.mem_cons_self
    | cons first before =>
      rw [List.map_cons, List.cons_append] at split
      obtain ⟨rfl, later⟩ := List.cons.inj split
      rcases ih later with listed | ⟨parent, member, listed⟩
      · rw [List.map_append, List.mem_append] at listed
        rcases listed with lifted | later
        · exact .inr ⟨head, List.mem_cons_self, by simpa using lifted⟩
        · exact .inl (List.mem_cons_of_mem _ later)
      · exact .inr ⟨parent, List.mem_cons_of_mem _ member, listed⟩
  | case3 unseen head depth pending seen ih =>
    exact (ih split).imp_left (List.mem_cons_of_mem _)

theorem listed_of_preorder (split : file.preorder = before ++ id :: after) :
    id = root ∨ ∃ parent ∈ before, id ∈ file.children parent := by
  simpa using listed_of_walkFrom split

/-! ### The whole file -/

def blocks (file : File) : List NodeId := (List.range file.size).filter file.isBlock

theorem blocks_nodup (file : File) : file.blocks.Nodup := List.nodup_range.filter _

theorem mem_blocks : id ∈ file.blocks ↔ file.isBlock id = true := by
  rw [blocks, List.mem_filter, List.mem_range]
  exact ⟨And.right, fun isBlock => ⟨lt_of_kind? (isBlock_iff.mp isBlock), isBlock⟩⟩

theorem nodup_passed (split : file.preorder = before ++ after) :
    before.Nodup ∧ ∀ id ∈ before, id ∉ after := by
  have nodup := file.preorder_nodup
  rw [split, List.nodup_append] at nodup
  exact ⟨nodup.1, fun id earlier later => nodup.2.2 id earlier id later rfl⟩

/-- The list of a node does not change any more once the walk has passed it. -/
theorem children_flatten_of_passed (split : file.preorder = before ++ after)
    (passed : id ∈ before) :
    file.flatten.1.children id = (flattenEach (file, file.blocks) before).1.children id := by
  rw [flatten_fst, split, flattenEach_append]
  exact children_flattenEach_other _ _ ((nodup_passed split).2 id passed)

/-- The node stays reachable, or it is a block that is opened once the lists of these nodes have been
flattened in turn. -/
def Survives (file : File) (before : List NodeId) (id : NodeId) : Prop :=
  file.flatten.1.Reachable id ∨
    (file.isBlock id = true ∧ id ∉ (flattenEach (file, file.blocks) before).2)

theorem Survives.reachable (survives : file.Survives before id) (plain : file.isBlock id = false) :
    file.flatten.1.Reachable id := by
  rcases survives with reachable | ⟨isBlock, -⟩
  · exact reachable
  · rw [plain] at isBlock
    cases isBlock

theorem Survives.append (survives : file.Survives before id) (more : List NodeId) :
    file.Survives (before ++ more) id := by
  refine survives.imp_right (And.imp_right fun opened still => opened ?_)
  rw [flattenEach_append] at still
  exact (flattenEach_sublist _ _).subset still

/-- What the nodes passed so far have taken in survives with them. -/
theorem survives_of_takenIn (split : file.preorder = before ++ after) (exists_ : id < file.size)
    (passed : ∀ parent ∈ before, file.Survives before parent)
    (taken : TakenIn file.isBlock
      (fun id => ∃ parent ∈ before, file.isBlock parent = false ∧
        id ∈ (flattenEach (file, file.blocks) before).1.children parent)
      (flattenEach (file, file.blocks) before).2 id) : file.Survives before id := by
  cases isBlock : file.isBlock id with
  | true => exact .inr ⟨isBlock, taken.opened isBlock⟩
  | false =>
    obtain ⟨parent, member, plain, listed⟩ := taken.kept isBlock
    rw [← children_flatten_of_passed split member] at listed
    exact .inl (.child ((passed parent member).reachable plain) listed (size_flatten file ▸ exists_))

/-- If the nodes passed so far survive, so does the next node of the walk. -/
theorem survives_next (split : file.preorder = before ++ id :: after)
    (passed : ∀ parent ∈ before, file.Survives before parent) : file.Survives before id := by
  have takes := takesIn_flattenEach (file, file.blocks) file.blocks_nodup (nodup_passed split).1
    fun id member => (mem_preorder.mp (split ▸ List.mem_append_left _ member)).lt
  have exists_ : id < file.size :=
    (mem_preorder.mp (split ▸ List.mem_append_right _ List.mem_cons_self)).lt
  rcases listed_of_preorder split with rfl | ⟨parent, member, listed⟩
  · exact .inl .root
  cases isBlock : file.isBlock parent with
  | false =>
    refine survives_of_takenIn split exists_ passed ?_
    exact (takes.listed parent member isBlock id listed).mono (List.Subset.refl _)
      fun kept => ⟨parent, member, isBlock, kept⟩
  | true =>
    rcases passed parent member with reachable | ⟨-, opened⟩
    · have same : file.flatten.1.children parent = file.children parent :=
        children_flattenEach_block _ _ isBlock
      exact .inl (.child reachable (same ▸ listed) (size_flatten file ▸ exists_))
    · exact survives_of_takenIn split exists_ passed
        (takes.lifted parent (mem_blocks.mpr isBlock) isBlock opened id listed)

/-- At each point of the walk the nodes passed so far survive. -/
theorem survives_passed (split : file.preorder = before ++ after) :
    ∀ id ∈ before, file.Survives before id := by
  induction before using List.reverseRecOn generalizing after with
  | nil => exact nofun
  | append_singleton before head ih =>
    rw [List.append_assoc, List.singleton_append] at split
    intro id member
    rcases List.mem_append.mp member with earlier | last
    · exact (ih split id earlier).append _
    · rw [List.mem_singleton.mp last]
      exact (survives_next split (ih split)).append _

theorem survives_of_reachable (reachable : file.Reachable id) : file.Survives file.preorder id :=
  survives_passed (List.append_nil file.preorder).symm id (mem_preorder.mpr reachable)

/-- What is no block stays reachable, whatever the root is. -/
theorem reachable_flatten_of_plain (reachable : file.Reachable id) (plain : file.isBlock id = false) :
    file.flatten.1.Reachable id :=
  (survives_of_reachable reachable).reachable plain

theorem reachable_flatten_iff (rootPlain : file.isBlock root = false) :
    file.flatten.1.Reachable id ↔ file.Reachable id ∧ file.isBlock id = false :=
  ⟨fun reachable => ⟨reachable_of_flatten reachable, isBlock_of_reachable_flatten rootPlain reachable⟩,
    fun before => reachable_flatten_of_plain before.1 before.2⟩

/-- The blocks that are opened in the end are the reachable ones. -/
theorem mem_left_iff (rootPlain : file.isBlock root = false) :
    id ∈ (flattenEach (file, file.blocks) file.preorder).2 ↔
      file.isBlock id = true ∧ ¬file.Reachable id := by
  constructor
  · intro still
    have isBlock := mem_blocks.mp ((flattenEach_sublist _ _).subset still)
    refine ⟨isBlock, fun reachable => ?_⟩
    rcases survives_of_reachable reachable with kept | ⟨-, opened⟩
    · rw [isBlock_of_reachable_flatten rootPlain kept] at isBlock
      cases isBlock
    · exact opened still
  · rintro ⟨isBlock, unreachable⟩
    refine Classical.byContradiction fun opened => unreachable ?_
    have inside : ∀ block, file.isBlock block = true → block < file.size :=
      fun block isBlock => lt_of_kind? (isBlock_iff.mp isBlock)
    refine known_of_flattenEach (fun id => id < file.size → file.Reachable id)
      file.preorder_nodup ?_ ?_ (mem_blocks.mpr isBlock) opened (inside id isBlock)
    · exact fun parent member id listed exists_ => .child (mem_preorder.mp member) listed exists_
    · exact fun block isBlock known id listed exists_ =>
        .child (known (inside block isBlock)) listed exists_

theorem flatten_snd (file : File) : file.flatten.2 =
    file.blocks.length - (flattenEach (file, file.blocks) file.preorder).2.length := rfl

/-- Flattening counts the blocks that are reachable. -/
theorem flatten_snd_eq (rootPlain : file.isBlock root = false) :
    file.flatten.2 = (file.preorder.filter file.isBlock).length := by
  have perm : file.blocks.Perm ((flattenEach (file, file.blocks) file.preorder).2 ++
      file.preorder.filter file.isBlock) := by
    refine (List.perm_ext_iff_of_nodup file.blocks_nodup ?_).mpr fun id => ?_
    · refine List.nodup_append.mpr ⟨file.blocks_nodup.sublist (flattenEach_sublist _ _),
        file.preorder_nodup.filter _, ?_⟩
      rintro id still _ member rfl
      exact ((mem_left_iff rootPlain).mp still).2 (mem_preorder.mp (List.mem_of_mem_filter member))
    · rw [mem_blocks, List.mem_append, mem_left_iff rootPlain, List.mem_filter, mem_preorder]
      grind
  rw [flatten_snd, perm.length_eq, List.length_append, Nat.add_sub_cancel_left]

end StagedLowering.File
