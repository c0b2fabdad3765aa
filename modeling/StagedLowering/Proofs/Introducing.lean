import Mathlib.Data.List.Permutation
import StagedLowering.Proofs.AtRest

/-!
# Introducing temporaries

What becomes of each node when the exposed calls of a tree are wrapped: the new nodes stand behind the
old ones in the order of the edges, and each takes the place of its call in the list of the node that
it is linked to (`IsTree.introduced`). The pass does that to a file whose links are in order and has
nothing to do the second time (`introduceTemporaries_exact`).
-/

namespace StagedLowering

namespace File

variable {file after : File} {below : Forest} {edges : List (NodeId × NodeId)} {number : Nat}
  {id parent call : NodeId}

/-! ### One call -/

theorem node?_wrapCall_new (parentOld : parent < file.size) (callOld : call < file.size) :
    (file.wrapCall number (parent, call)).node? file.size =
      some { kind := .temporary s!"tmp{number}", parent := some parent, children := [call] } := by
  rw [wrapCall, node?_modify, if_neg (Nat.ne_of_lt parentOld), setParent, node?_modify,
    if_neg (Nat.ne_of_lt callOld), node?_push, if_pos rfl]

theorem node?_wrapCall_other (old : id < file.size) (notParent : id ≠ parent) (notCall : id ≠ call) :
    (file.wrapCall number (parent, call)).node? id = file.node? id := by
  rw [wrapCall, node?_modify, if_neg (Ne.symm notParent), setParent, node?_modify,
    if_neg (Ne.symm notCall), node?_push, if_neg (Nat.ne_of_lt old)]

/-! ### All calls -/

theorem size_wrapEdges (file : File) (number : Nat) (edges : List (NodeId × NodeId)) :
    (file.wrapEdges number edges).size = file.size + edges.length := by
  induction edges generalizing file number with
  | nil => rfl
  | cons edge edges ih => rw [wrapEdges, ih, size_wrapCall, List.length_cons, Nat.add_right_comm]; rfl

/-- Only the ends of the edges change. -/
theorem node?_wrapEdges_other (old : id < file.size) (notParent : id ∉ edges.map (·.1))
    (notCall : id ∉ edges.map (·.2)) :
    (file.wrapEdges number edges).node? id = file.node? id := by
  induction edges generalizing file number with
  | nil => rfl
  | cons edge edges ih =>
    rw [List.map_cons, List.mem_cons, not_or] at notParent notCall
    have grown : id < (file.wrapCall number edge).size := by
      rw [size_wrapCall]
      exact Nat.lt_succ_of_lt old
    rw [wrapEdges, ih grown notParent.2 notCall.2]
    exact node?_wrapCall_other old notParent.1 notCall.1

/-- Neither end of an exposed edge is a temporary. -/
theorem Exposed.not_mem_of_isTemporary (exposed : file.Exposed edges)
    (temporary : file.isTemporary id = true) : id ∉ edges.map (·.1) ∧ id ∉ edges.map (·.2) := by
  constructor
  · intro member
    obtain ⟨edge, inEdges, rfl⟩ := List.mem_map.mp member
    obtain ⟨-, -, -, -, plain⟩ := mem_exposedCalls.mp ((exposed.mem_iff _).mp inEdges)
    rw [temporary] at plain
    cases plain
  · intro member
    obtain ⟨edge, inEdges, rfl⟩ := List.mem_map.mp member
    obtain ⟨-, -, -, isCall, -⟩ := mem_exposedCalls.mp ((exposed.mem_iff _).mp inEdges)
    rw [isTemporary_of_isCall isCall] at temporary
    cases temporary

/-- Wrapping leaves the temporaries that are there alone. -/
theorem Exposed.node?_wrapEdges_of_isTemporary (exposed : file.Exposed edges)
    (temporary : file.isTemporary id = true) :
    (file.wrapEdges number edges).node? id = file.node? id := by
  obtain ⟨notParent, notCall⟩ := exposed.not_mem_of_isTemporary temporary
  obtain ⟨name, kind⟩ := isTemporary_iff.mp temporary
  exact node?_wrapEdges_other (lt_of_kind? kind) notParent notCall

/-- The new nodes, in the order of the edges. -/
theorem IsTree.node?_wrapEdges_new (tree : file.IsTree below) (exposed : file.Exposed edges)
    (number : Nat) {j : Nat} (found : edges[j]? = some (parent, call)) :
    (file.wrapEdges number edges).node? (file.size + j) =
      some { kind := .temporary s!"tmp{number + j}", parent := some parent, children := [call] } := by
  induction edges generalizing file below number j with
  | nil => cases found
  | cons edge edges ih =>
    obtain ⟨above, first⟩ := edge
    obtain ⟨reachable, listed, -, -⟩ := exposed.head
    have later := exposed.wrapCall tree number
    cases j with
    | zero =>
      cases found
      have temporary : (file.wrapCall number (parent, call)).isTemporary file.size = true := by
        rw [isTemporary_wrapCall, if_pos rfl]
      have made : (file.wrapCall number (parent, call)).node? file.size = _ :=
        node?_wrapCall_new reachable.lt (tree.treeShaped.inRange reachable listed)
      exact (later.node?_wrapEdges_of_isTemporary temporary).trans made
    | succ j =>
      have rest := ih (tree.wrapCall reachable listed) later (number + 1) found
      rw [size_wrapCall, Nat.add_assoc, Nat.add_comm 1 j, Nat.add_assoc, Nat.add_comm 1 j] at rest
      exact rest

/-- What stands for the end of an edge once the edges are wrapped: the new node over it if the edge
is among them. -/
def standIn (size : Nat) (edges : List (NodeId × NodeId)) (edge : NodeId × NodeId) : NodeId :=
  (edges.idxOf? edge).elim edge.2 (size + ·)

theorem standIn_of_not_mem {size : Nat} {edge : NodeId × NodeId} (absent : edge ∉ edges) :
    standIn size edges edge = edge.2 := by
  rw [standIn, List.idxOf?_eq_none_iff.mpr absent]
  rfl

theorem standIn_head (size : Nat) (edge : NodeId × NodeId) :
    standIn size (edge :: edges) edge = size := by
  simp [standIn, List.idxOf?_cons]

theorem standIn_tail {size : Nat} {edge other : NodeId × NodeId} (different : edge ≠ other) :
    standIn size (other :: edges) edge = standIn (size + 1) edges edge := by
  rw [standIn, standIn, List.idxOf?_cons, if_neg (by simpa using Ne.symm different)]
  cases edges.idxOf? edge with
  | none => rfl
  | some j => exact Nat.add_right_comm size j 1

theorem IsTree.children_wrapEdges (tree : file.IsTree below) (exposed : file.Exposed edges)
    (number : Nat) (old : id < file.size) : (file.wrapEdges number edges).children id =
      (file.children id).map fun child => standIn file.size edges (id, child) := by
  induction edges generalizing file below number with
  | nil => simp [File.wrapEdges, standIn]
  | cons edge edges ih =>
    obtain ⟨parent, call⟩ := edge
    obtain ⟨reachable, listed, -, -⟩ := exposed.head
    have later := exposed.wrapCall tree number
    have grown : id < (file.wrapCall number (parent, call)).size := by
      rw [size_wrapCall]
      exact Nat.lt_succ_of_lt old
    rw [File.wrapEdges, ih (tree.wrapCall reachable listed) later (number + 1) grown, size_wrapCall,
      File.children_wrapCall reachable.lt, if_neg (Nat.ne_of_lt old)]
    by_cases here : id = parent
    · rw [if_pos here, List.map_map, here]
      refine List.map_congr_left fun child _ => ?_
      by_cases same : child = call
      · have new : (parent, file.size) ∉ edges := fun member => Nat.lt_irrefl _
          (mem_exposedCalls.mp ((exposed.mem_iff _).mp (List.mem_cons_of_mem _ member))).2.2.1
        rw [Function.comp_apply, if_pos same, standIn_of_not_mem new, same, standIn_head]
      · rw [Function.comp_apply, if_neg same, standIn_tail fun equal => same (Prod.mk.inj equal).2]
    · rw [if_neg here]
      refine List.map_congr_left fun child _ => ?_
      rw [standIn_tail fun equal => here (Prod.mk.inj equal).1]

/-! ### The file with its temporaries -/

/-- The list of a node with what the nodes from number `size` on hold in their place. -/
def splicedOut (file : File) (size : Nat) (id : NodeId) : List NodeId :=
  (file.children id).flatMap fun child => if size ≤ child then file.children child else [child]

/-- Another file is the file with a temporary over the end of each exposed edge, made in the order of
the edges and numbered from `number` on. Only what can be reached is spliced back: another node may
list numbers that no node had yet, and keeps them. -/
structure Introduced (file : File) (number : Nat) (after : File) : Prop where
  address : after.address = file.address
  size : after.size = file.size + file.exposedCalls.length
  kinds : ∀ id < file.size, after.kind? id = file.kind? id
  added : ∀ j parent call, file.exposedCalls[j]? = some (parent, call) →
    after.node? (file.size + j) =
      some { kind := .temporary s!"tmp{number + j}", parent := some parent, children := [call] }
  spliced : ∀ id, file.Reachable id → after.splicedOut file.size id = file.children id
  unreachable : ∀ id < file.size, ¬file.Reachable id → after.node? id = file.node? id

theorem IsTree.splicedOut_wrapCalls (tree : file.IsTree below) (number : Nat)
    (reachable : file.Reachable id) :
    (file.wrapCalls number).splicedOut file.size id = file.children id := by
  have added {j : Nat} {parent call : NodeId} :
      file.exposedCalls[j]? = some (parent, call) → _ := tree.node?_wrapEdges_new tree.exposed number
  rw [splicedOut, File.wrapCalls, tree.children_wrapEdges tree.exposed number reachable.lt,
    List.flatMap_map]
  conv_rhs => rw [← List.flatMap_singleton' (file.children id)]
  refine List.flatMap_congr fun child listed => ?_
  rw [standIn]
  cases position : file.exposedCalls.idxOf? (id, child) with
  | some j =>
    obtain ⟨within, isEdge, -⟩ := List.idxOf?_eq_some_iff.mp position
    have new := added (List.getElem?_eq_some_iff.mpr ⟨within, isEdge⟩)
    rw [Option.elim_some, if_pos (Nat.le_add_right _ _), children_of_node? new]
  | none =>
    have old := tree.treeShaped.inRange reachable listed
    exact if_neg (Nat.not_le.mpr old)

theorem IsTree.introduced (tree : file.IsTree below) (number : Nat) :
    file.Introduced number (file.wrapCalls number) where
  address := address_wrapCalls file number
  size := size_wrapEdges file number file.exposedCalls
  kinds := by
    obtain ⟨⟨grown, wrapped⟩, -⟩ := tree.wrapCalls number
    exact wrapped.kinds
  added j parent call found := tree.node?_wrapEdges_new tree.exposed number found
  spliced id reachable := tree.splicedOut_wrapCalls number reachable
  unreachable id old unreachable := by
    refine node?_wrapEdges_other old (fun member => ?_) fun member => ?_
    · obtain ⟨edge, inEdges, rfl⟩ := List.mem_map.mp member
      exact unreachable (mem_exposedCalls.mp inEdges).1
    · obtain ⟨edge, inEdges, rfl⟩ := List.mem_map.mp member
      obtain ⟨reachable, listed, exists_, -, -⟩ := mem_exposedCalls.mp inEdges
      exact unreachable (.child reachable listed exists_)

/-! ### What temporaries hold -/

theorem IsTree.reachable_wrapEdges (tree : file.IsTree below) (exposed : file.Exposed edges)
    (number : Nat) (reachable : file.Reachable id) : (file.wrapEdges number edges).Reachable id := by
  induction edges generalizing file below number with
  | nil => exact reachable
  | cons edge edges ih =>
    obtain ⟨parent, call⟩ := edge
    obtain ⟨above, listed, -, -⟩ := exposed.head
    exact ih (tree.wrapCall above listed) (exposed.wrapCall tree number) (number + 1)
      ((tree.reachable_wrapCall above listed).mpr (.inr reachable))

theorem isCall_wrapEdges (file : File) (number : Nat) (edges : List (NodeId × NodeId)) (id : NodeId) :
    (file.wrapEdges number edges).isCall id = file.isCall id := by
  induction edges generalizing file number with
  | nil => rfl
  | cons edge edges ih => rw [wrapEdges, ih, isCall_wrapCall]

/-- The old temporaries hold what they held and the new ones are as they should be. -/
theorem IsTree.filled_wrapCalls_iff (tree : file.IsTree below) (number : Nat) :
    (file.wrapCalls number).Filled ↔ file.Filled := by
  refine ⟨fun filled id reachable temporary => ?_, fun filled => filled.wrapEdges tree tree.exposed number⟩
  have same : (file.wrapCalls number).node? id = file.node? id :=
    tree.exposed.node?_wrapEdges_of_isTemporary temporary
  have still : (file.wrapCalls number).isTemporary id = true := by
    rw [isTemporary, kind?, same]
    exact temporary
  obtain ⟨call, only, isCall⟩ :=
    filled id (tree.reachable_wrapEdges tree.exposed number reachable) still
  refine ⟨call, ?_, ?_⟩
  · rw [children, ← same]
    exact only
  · rwa [File.wrapCalls, isCall_wrapEdges] at isCall

end File

variable {σ : Type}

theorem Context.numbers_countTemporaries (context : Context) {introduced : Nat}
    (some_ : 0 < introduced) :
    (context.countTemporaries introduced).scope.scratch.numbers.get? temporarySlot =
      some (context.nextTemporary + introduced) := by
  rw [countTemporaries, if_pos some_]
  exact NameMap.get?_insert ..

theorem Context.nextTemporary_countTemporaries (context : Context) {introduced : Nat}
    (some_ : 0 < introduced) :
    (context.countTemporaries introduced).nextTemporary = context.nextTemporary + introduced := by
  rw [nextTemporary, context.numbers_countTemporaries some_]
  rfl

/-- What the pass over calls does to a file whose links are in order, as long as the numbers of
temporaries fit in 32 bits. It can be made again, which changes nothing, and the file passes the check
of temporaries after it exactly if each one that was reachable held one call and nothing else. -/
theorem introduceTemporaries_exact (state : State σ File) (linked : state.unit.checkLinks = .ok ())
    (room : state.context.nextTemporary + state.unit.exposedCalls.length < UInt32.size) :
    ∃ after : State σ File, introduceTemporaries state = (.ok (), after) ∧
      state.unit.Introduced state.context.nextTemporary after.unit ∧
      after.unit.checkLinks = .ok () ∧
      (∀ edge ∈ after.unit.edges, after.unit.isCall edge.2 = true →
        after.unit.isTemporary edge.1 = true) ∧
      (0 < state.unit.exposedCalls.length → ∃ counter : UInt32,
        after.context.scope.scratch.numbers.get? temporarySlot = some counter.toNat ∧
        counter.toNat = state.context.nextTemporary + state.unit.exposedCalls.length) ∧
      after.context.statistic "temporaries" =
        state.context.statistic "temporaries" + state.unit.exposedCalls.length ∧
      (∃ again : State σ File, introduceTemporaries after = (.ok (), again) ∧
        again.unit = after.unit) ∧
      (after.unit.checkTemporaries = .ok () ↔
        ∀ id, state.unit.Reachable id → state.unit.isTemporary id = true →
          ∃ call, state.unit.children id = [call] ∧ state.unit.isCall call = true) := by
  rw [File.checkLinks_ok_iff] at linked
  obtain ⟨below, tree⟩ := File.treeShaped_iff.mp linked.shaped
  obtain ⟨-, none⟩ := tree.wrapCalls state.context.nextTemporary
  refine ⟨_, introduceTemporaries_apply state, tree.introduced _,
    File.checkLinks_ok_iff.mpr (linked.wrapCalls _), fun edge member isCall => ?_,
    fun some_ => ?_, ?_, ⟨_, introduceTemporaries_apply _, ?_⟩, ?_⟩
  · refine Bool.not_eq_false _ ▸ fun plain => ?_
    have exposed : edge ∈ (state.unit.wrapCalls state.context.nextTemporary).exposedCalls := by
      rw [File.exposedCalls, List.mem_filter]
      exact ⟨member, by simp [isCall, plain]⟩
    rw [none] at exposed
    cases exposed
  · have fits := UInt32.toNat_ofNat_of_lt room
    refine ⟨_, ?_, fits⟩
    rw [fits]
    exact state.context.numbers_countTemporaries some_
  · exact (state.context.adds_countTemporaries _).statistic _
  · exact File.wrapCalls_of_none none _
  · rw [File.checkTemporaries_ok_iff, none, eq_self, true_and, tree.filled_wrapCalls_iff]
    rfl

/-- A call in the list of another, a temporary from before, and a node that cannot be reached and
lists a number that no node has yet. -/
def File.chained : File where
  path := "chained"
  nodes := #[
    { kind := .root, children := [1] },
    { kind := .function "main", parent := some 0, children := [2, 4] },
    { kind := .call "outer" none, parent := some 1, children := [3] },
    { kind := .call "inner" none, parent := some 2 },
    { kind := .temporary "tmp0", parent := some 1, children := [5] },
    { kind := .call "held" none, parent := some 4 },
    { kind := .block, children := [7] }]

theorem File.checkLinks_chained : File.chained.checkLinks = .ok () := by cbv

theorem File.exposedCalls_chained : File.chained.exposedCalls = [(1, 2), (2, 3)] := by cbv

/-- A node that cannot be reached keeps the number of a later temporary in its list, so what is
spliced out there is not what was listed. From the last number that fits in 32 bits on, the number
left for the next temporary does not fit. -/
theorem introduceTemporaries_overreaches :
    let state (number : Nat) : State Unit File :=
      ⟨(), {}, Context.countTemporaries {} number, File.chained⟩
    let after (number : Nat) := (introduceTemporaries (state number)).2
    File.chained.checkLinks = .ok () ∧
      (after 0).unit.splicedOut File.chained.size 6 ≠ File.chained.children 6 ∧
      (state (UInt32.size - 1)).context.nextTemporary = UInt32.size - 1 ∧
      ∀ counter : UInt32,
        (after (UInt32.size - 1)).context.scope.scratch.numbers.get? temporarySlot ≠
          some counter.toNat := by
  intro state after
  have number : (state (UInt32.size - 1)).context.nextTemporary = UInt32.size - 1 :=
    (Context.nextTemporary_countTemporaries {} (by decide)).trans (Nat.zero_add _)
  refine ⟨File.checkLinks_chained, ?_, number, fun counter held => ?_⟩
  · have spliced : (File.chained.wrapCalls 0).splicedOut File.chained.size 6 = [2] := by cbv
    have first : (state 0).context.nextTemporary = 0 := rfl
    dsimp only [after]
    rw [introduceTemporaries_apply, first]
    exact ne_of_eq_of_ne spliced (by decide)
  · have calls : (state (UInt32.size - 1)).unit.exposedCalls = [(1, 2), (2, 3)] :=
      File.exposedCalls_chained
    dsimp only [after] at held
    rw [introduceTemporaries_apply, Context.numbers_countTemporaries _ (by rw [calls]; decide), number,
      calls] at held
    have left : UInt32.size - 1 + 2 = counter.toNat := Option.some.inj held
    have fits := counter.toNat_lt
    rw [← left] at fits
    exact absurd fits (by decide)

theorem introduceTemporaries_chained :
    let state : State Unit File := ⟨(), {}, Context.countTemporaries {} 3, File.chained⟩
    state.unit.checkLinks = .ok () ∧
      state.context.nextTemporary + state.unit.exposedCalls.length < UInt32.size ∧
      ∃ after : State Unit File, introduceTemporaries state = (.ok (), after) ∧
        after.unit.node? 8 =
          some { kind := .temporary "tmp4", parent := some 2, children := [3] } ∧
        after.context.statistic "temporaries" = 5 := by
  intro state
  have number : state.context.nextTemporary = 3 := rfl
  have calls : state.unit.exposedCalls = [(1, 2), (2, 3)] := File.exposedCalls_chained
  have room : state.context.nextTemporary + state.unit.exposedCalls.length < UInt32.size := by
    rw [number, calls]
    decide
  obtain ⟨after, ran, introduced, -, -, -, counted, -⟩ :=
    introduceTemporaries_exact state File.checkLinks_chained room
  have name : s!"tmp{3 + 1}" = "tmp4" := by cbv
  have second := introduced.added 1 2 3 (by rw [calls]; rfl)
  rw [number, name] at second
  rw [calls] at counted
  exact ⟨File.checkLinks_chained, room, after, ran, second, counted⟩

end StagedLowering
