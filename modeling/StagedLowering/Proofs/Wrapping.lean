import StagedLowering.Pass.Wrap
import StagedLowering.Proofs.Links

/-!
# Wrapping calls

Putting a call into a temporary inserts one node above it (`IsTree.wrapCall`). Wrapping all exposed
calls of a tree leaves a tree that contracts to the old one, keeps links in order, and leaves no call
outside a temporary (`Wrapped`, `wrapped_wrapCalls`).
-/

namespace StagedLowering

namespace Forest

def wrap (call fresh : NodeId) : Forest → Forest
  | nil => nil
  | cons id below beside =>
    if id = call then cons fresh (cons id below nil) (beside.wrap call fresh)
    else cons id (below.wrap call fresh) (beside.wrap call fresh)

variable {forest : Forest} {call fresh id : NodeId} {inner : NodeId → Bool}

theorem roots_wrap :
    (forest.wrap call fresh).roots = forest.roots.map fun id => if id = call then fresh else id := by
  induction forest with
  | nil => rfl
  | cons id below beside _ ih =>
    by_cases here : id = call
    · simp [wrap, roots, here, ih]
    · simp [wrap, roots, here, ih]

theorem map_replace_of_absent {list : List NodeId} (absent : call ∉ list) :
    (list.map fun child => if child = call then fresh else child) = list := by
  conv_rhs => rw [← List.map_id list]
  refine List.map_congr_left fun child member => if_neg ?_
  rintro rfl
  exact absent member

theorem wrap_of_absent (absent : call ∉ forest.ids) : forest.wrap call fresh = forest := by
  induction forest with
  | nil => rfl
  | cons id below beside belowIh besideIh =>
    simp only [ids, List.mem_cons, List.mem_append, not_or] at absent
    rw [wrap, if_neg (Ne.symm absent.1), belowIh absent.2.1, besideIh absent.2.2]

/-- The new node is above the call and nothing else has moved. -/
theorem ids_wrap_perm (nodup : forest.ids.Nodup) (present : call ∈ forest.ids) :
    (forest.wrap call fresh).ids.Perm (fresh :: forest.ids) := by
  induction forest with
  | nil => cases present
  | cons id below beside belowIh besideIh =>
    rw [ids, List.nodup_cons, List.nodup_append] at nodup
    obtain ⟨notAgain, belowNodup, besideNodup, disjoint⟩ := nodup
    rw [List.mem_append, not_or] at notAgain
    by_cases here : id = call
    · subst here
      rw [wrap, if_pos rfl, wrap_of_absent notAgain.2]
      simp [ids]
    · rw [wrap, if_neg here]
      rcases List.mem_cons.mp present with same | later
      · exact absurd same.symm here
      · rcases List.mem_append.mp later with inBelow | inBeside
        · rw [wrap_of_absent fun again => disjoint call inBelow call again rfl]
          have perm := (belowIh belowNodup inBelow).append_right beside.ids
          exact (perm.cons id).trans (.swap ..)
        · rw [wrap_of_absent fun again => disjoint call again call inBeside rfl]
          have perm := (besideIh besideNodup inBeside).append_left below.ids
          exact ((perm.trans List.perm_middle).cons id).trans (.swap ..)

theorem contract_wrap (inserted : inner fresh = true) :
    (forest.wrap call fresh).contract inner = forest.contract inner := by
  induction forest with
  | nil => rfl
  | cons id below beside belowIh besideIh =>
    by_cases here : id = call
    · by_cases taken : inner id
      · simp [wrap, contract, here, inserted, here ▸ taken, besideIh]
      · simp [wrap, contract, here, inserted, here ▸ taken, besideIh, append]
    · rw [wrap, if_neg here, contract, contract, belowIh, besideIh]

end Forest

/-- The lists of the nodes of a forest spell it with the new node above the call, if they name that
node wherever they named the call. -/
theorem File.Spells.wrap {file wrapped : File} {forest : Forest} {call fresh : NodeId}
    (spells : file.Spells forest) (nodup : forest.ids.Nodup)
    (new : wrapped.children fresh = [call])
    (lists : ∀ id ∈ forest.ids, wrapped.children id =
      (file.children id).map fun child => if child = call then fresh else child) :
    wrapped.Spells (forest.wrap call fresh) := by
  induction forest with
  | nil => trivial
  | cons id below beside belowIh besideIh =>
    obtain ⟨here, belowSpells, besideSpells⟩ := spells
    rw [Forest.ids, List.nodup_cons, List.nodup_append] at nodup
    obtain ⟨notAgain, belowNodup, besideNodup, disjoint⟩ := nodup
    simp only [Forest.ids, List.mem_cons, List.mem_append] at lists
    have besideWrap := besideIh besideSpells besideNodup
      fun x member => lists x (.inr (.inr member))
    have list := lists id (.inl rfl)
    rw [here, ← Forest.roots_wrap] at list
    by_cases same : id = call
    · subst same
      rw [List.mem_append, not_or] at notAgain
      rw [Forest.wrap_of_absent notAgain.1] at list
      rw [Forest.wrap, if_pos rfl]
      refine ⟨new, ⟨list, belowSpells.congr fun x member => ?_, trivial⟩, besideWrap⟩
      rw [lists x (.inr (.inl member))]
      exact Forest.map_replace_of_absent fun listed =>
        notAgain.1 (belowSpells.children_subset member listed)
    · rw [Forest.wrap, if_neg same]
      exact ⟨list, belowIh belowSpells belowNodup fun x member => lists x (.inr (.inl member)),
        besideWrap⟩

namespace File

variable {file : File} {below : Forest} {number : Nat} {parent call id : NodeId}
  {edges : List (NodeId × NodeId)}

/-! ### One call -/

@[simp] theorem size_wrapCall (file : File) (number : Nat) (edge : NodeId × NodeId) :
    (file.wrapCall number edge).size = file.size + 1 := by
  simp [wrapCall, setParent]

@[simp] theorem address_wrapCall (file : File) (number : Nat) (edge : NodeId × NodeId) :
    (file.wrapCall number edge).address = file.address := rfl

theorem kind?_wrapCall (file : File) (number : Nat) (edge : NodeId × NodeId) (id : NodeId) :
    (file.wrapCall number edge).kind? id =
      if id = file.size then some (.temporary s!"tmp{number}") else file.kind? id := by
  rw [wrapCall, kind?_modify_map, kind?_setParent, kind?_push]

@[simp] theorem isCall_wrapCall (file : File) (number : Nat) (edge : NodeId × NodeId) (id : NodeId) :
    (file.wrapCall number edge).isCall id = file.isCall id := by
  rw [isCall, isCall, kind?_wrapCall]
  split
  · next isNew =>
    have missing : file.kind? id = none := by
      rw [kind?, node?_eq_none.mpr (Nat.le_of_eq isNew.symm), Option.map_none]
    rw [missing]
    rfl
  · rfl

theorem isTemporary_wrapCall (file : File) (number : Nat) (edge : NodeId × NodeId) (id : NodeId) :
    (file.wrapCall number edge).isTemporary id =
      if id = file.size then true else file.isTemporary id := by
  rw [isTemporary, isTemporary, kind?_wrapCall]
  split <;> rfl

theorem children_wrapCall (inRange : parent < file.size) (id : NodeId) :
    (file.wrapCall number (parent, call)).children id =
      if id = file.size then [call]
      else if id = parent then
        (file.children id).map fun child => if child = call then file.size else child
      else file.children id := by
  rw [wrapCall, children_modify_map, children_setParent, children_push]
  by_cases new : id = file.size
  · rw [if_neg (new ▸ Nat.ne_of_lt inRange), if_pos new, if_pos new]
  · by_cases here : parent = id
    · simp [here, new]
    · simp [here, Ne.symm here, new]

theorem parent?_wrapCall (inRange : call < file.size) (id : NodeId) :
    (file.wrapCall number (parent, call)).parent? id =
      if id = file.size then some parent
      else if id = call then some file.size else file.parent? id := by
  have grown : ∀ node : Node, call < (file.push node).size := fun node => by
    rw [size_push]
    exact Nat.lt_succ_of_lt inRange
  rw [wrapCall, parent?_modify_map, parent?_setParent (grown _), parent?_push]
  by_cases new : id = file.size
  · rw [if_neg (new ▸ Nat.ne_of_lt inRange), if_pos new, if_pos new]
  · by_cases here : call = id
    · simp [here, new]
    · simp [here, Ne.symm here, new]

/-- In a tree a call is listed once, so its wrapper replaces it in one list. -/
theorem IsTree.children_wrapCall (tree : file.IsTree below) (reachable : file.Reachable parent)
    (listed : call ∈ file.children parent) {id : NodeId} (inTree : file.Reachable id) :
    (file.wrapCall number (parent, call)).children id =
      (file.children id).map fun child => if child = call then file.size else child := by
  rw [File.children_wrapCall reachable.lt, if_neg (Nat.ne_of_lt inTree.lt)]
  split
  · rfl
  · next different =>
    refine (Forest.map_replace_of_absent fun again => different ?_).symm
    exact tree.treeShaped.single inTree reachable again listed

theorem wrap_root (different : root ≠ call) (fresh : NodeId) :
    (Forest.cons root below .nil).wrap call fresh = .cons root (below.wrap call fresh) .nil := by
  rw [Forest.wrap, if_neg different, Forest.wrap]

/-- Wrapping a call puts one node above it and moves nothing else. -/
theorem IsTree.wrapCall (tree : file.IsTree below) (reachable : file.Reachable parent)
    (listed : call ∈ file.children parent) :
    (file.wrapCall number (parent, call)).IsTree (below.wrap call file.size) := by
  have ids : (Forest.cons root below .nil).ids = root :: below.ids := by simp [Forest.ids]
  have different : root ≠ call := by
    rintro rfl
    exact tree.treeShaped.rootUnlisted reachable listed
  obtain ⟨rootApart, nodup⟩ := List.nodup_cons.mp tree.nodup
  have perm := @Forest.ids_wrap_perm _ call file.size nodup (tree.mem_of_listed reachable listed)
  have unused : file.size ∉ below.ids := fun member => Nat.lt_irrefl _ (tree.inRange _ member)
  refine ⟨?_, ?_, ?_⟩
  · rw [← wrap_root different]
    refine tree.spells.wrap (ids ▸ tree.nodup) ?_ fun id member => ?_
    · rw [File.children_wrapCall reachable.lt, if_pos rfl]
    · exact tree.children_wrapCall reachable listed (tree.reachable_iff.mpr (ids ▸ member))
  · refine List.nodup_cons.mpr ⟨fun member => ?_, perm.nodup_iff.mpr (List.nodup_cons.mpr ⟨unused, nodup⟩)⟩
    rcases List.mem_cons.mp (perm.mem_iff.mp member) with isNew | inBelow
    · exact Nat.ne_of_lt (root_lt file) isNew
    · exact rootApart inBelow
  · intro id member
    rw [size_wrapCall]
    rcases List.mem_cons.mp (perm.mem_iff.mp member) with rfl | inBelow
    · exact Nat.lt_succ_self _
    · exact Nat.lt_succ_of_lt (tree.inRange id inBelow)

theorem IsTree.reachable_wrapCall (tree : file.IsTree below) (reachable : file.Reachable parent)
    (listed : call ∈ file.children parent) :
    (file.wrapCall number (parent, call)).Reachable id ↔ id = file.size ∨ file.Reachable id := by
  have grown : (file.wrapCall number (parent, call)).IsTree (below.wrap call file.size) :=
    tree.wrapCall reachable listed
  have perm := @Forest.ids_wrap_perm _ call file.size (List.nodup_cons.mp tree.nodup).2
    (tree.mem_of_listed reachable listed)
  rw [grown.reachable_iff, tree.reachable_iff, List.mem_cons, perm.mem_iff, List.mem_cons,
    List.mem_cons]
  exact or_left_comm

/-- The wrapped call is the one child of the new node; a list that named it names that node. -/
theorem IsTree.mem_children_wrapCall (tree : file.IsTree below) (reachable : file.Reachable parent)
    (listed : call ∈ file.children parent) {above child : NodeId}
    (inTree : (file.wrapCall number (parent, call)).Reachable above) :
    child ∈ (file.wrapCall number (parent, call)).children above ↔
      above = file.size ∧ child = call ∨
      above = parent ∧ child = file.size ∨
      file.Reachable above ∧ child ≠ call ∧ child ∈ file.children above := by
  have unlisted : ∀ {node : NodeId}, file.Reachable node → file.size ∉ file.children node :=
    fun inTree again => Nat.lt_irrefl _ (tree.treeShaped.inRange inTree again)
  rcases (tree.reachable_wrapCall reachable listed).mp inTree with rfl | old
  · rw [File.children_wrapCall reachable.lt, if_pos rfl, List.mem_singleton]
    have notParent : file.size ≠ parent := (Nat.ne_of_lt reachable.lt).symm
    have notOld : ¬ file.Reachable file.size := fun old => Nat.lt_irrefl _ old.lt
    simp [notParent, notOld]
  · have notNew : above ≠ file.size := Nat.ne_of_lt old.lt
    rw [tree.children_wrapCall reachable listed old, List.mem_map]
    constructor
    · rintro ⟨kept, inList, rfl⟩
      by_cases same : kept = call
      · rw [if_pos same]
        subst same
        exact .inr (.inl ⟨tree.treeShaped.single old reachable inList listed, rfl⟩)
      · rw [if_neg same]
        exact .inr (.inr ⟨old, same, inList⟩)
    · rintro (⟨isNew, -⟩ | ⟨rfl, rfl⟩ | ⟨-, different, inList⟩)
      · exact absurd isNew notNew
      · exact ⟨call, listed, if_pos rfl⟩
      · exact ⟨child, inList, if_neg different⟩

/-! ### Parent links -/

theorem Linked.wrapCall (linked : file.Linked) (tree : file.IsTree below)
    (reachable : file.Reachable parent) (listed : call ∈ file.children parent) :
    (file.wrapCall number (parent, call)).Linked := by
  have callExists := tree.treeShaped.inRange reachable listed
  intro above child inTree inList
  rw [parent?_wrapCall callExists]
  rcases (tree.mem_children_wrapCall reachable listed inTree).mp inList with
    ⟨rfl, rfl⟩ | ⟨rfl, rfl⟩ | ⟨old, different, oldList⟩
  · rw [if_neg (Nat.ne_of_lt callExists), if_pos rfl]
  · rw [if_pos rfl]
  · rw [if_neg (Nat.ne_of_lt (tree.treeShaped.inRange old oldList)), if_neg different]
    exact linked old oldList

theorem WellLinked.wrapCall (linked : file.WellLinked) (reachable : file.Reachable parent)
    (listed : call ∈ file.children parent) :
    (file.wrapCall number (parent, call)).WellLinked := by
  obtain ⟨rootUnset, shaped, links⟩ := linked
  obtain ⟨below, tree⟩ := treeShaped_iff.mp shaped
  refine ⟨?_, (tree.wrapCall reachable listed).treeShaped, fun inTree inList => ?_⟩
  · have rootApart : root ≠ call := by
      rintro rfl
      exact shaped.rootUnlisted reachable listed
    rw [← parent?_root, parent?_wrapCall (shaped.inRange reachable listed),
      if_neg (Nat.ne_of_lt (root_lt file)), if_neg rootApart, parent?_root, rootUnset]
  · exact Linked.wrapCall (fun _ _ => links) tree reachable listed inTree inList

/-! ### All exposed calls -/

theorem mem_exposedCalls {edge : NodeId × NodeId} :
    edge ∈ file.exposedCalls ↔ file.Reachable edge.1 ∧ edge.2 ∈ file.children edge.1 ∧
      edge.2 < file.size ∧ file.isCall edge.2 = true ∧ file.isTemporary edge.1 = false := by
  obtain ⟨parent, child⟩ := edge
  simp only [exposedCalls, List.mem_filter, mem_edges, Bool.and_eq_true, Bool.not_eq_true',
    and_assoc]

/-- The edges are those to calls that no temporary lists, and no call is met twice. -/
structure Exposed (file : File) (edges : List (NodeId × NodeId)) : Prop where
  mem_iff : ∀ edge, edge ∈ edges ↔ edge ∈ file.exposedCalls
  distinct : (edges.map (·.2)).Nodup

theorem IsTree.exposed (tree : file.IsTree below) : file.Exposed file.exposedCalls where
  mem_iff _ := Iff.rfl
  distinct := by
    have nodup := tree.edges_perm.nodup_iff.mpr (List.nodup_cons.mp tree.nodup).2
    exact nodup.sublist (List.filter_sublist.map _)

theorem Exposed.head (exposed : file.Exposed ((parent, call) :: edges)) :
    file.Reachable parent ∧ call ∈ file.children parent ∧ file.isCall call = true ∧
      file.isTemporary parent = false := by
  obtain ⟨reachable, listed, _, isCall, plain⟩ :=
    mem_exposedCalls.mp ((exposed.mem_iff _).mp List.mem_cons_self)
  exact ⟨reachable, listed, isCall, plain⟩

theorem Exposed.wrapCall (exposed : file.Exposed ((parent, call) :: edges)) (tree : file.IsTree below)
    (number : Nat) : (file.wrapCall number (parent, call)).Exposed edges where
  mem_iff := by
    obtain ⟨reachable, listed, _, _⟩ := exposed.head
    have others := (List.nodup_cons.mp exposed.distinct).1
    rintro ⟨above, child⟩
    have before := exposed.mem_iff (above, child)
    rw [mem_exposedCalls] at before ⊢
    simp only [isCall_wrapCall, isTemporary_wrapCall, size_wrapCall]
    constructor
    · intro member
      have different : child ≠ call := by
        rintro rfl
        exact others (List.mem_map.mpr ⟨_, member, rfl⟩)
      obtain ⟨inTree, inList, exists_, isCall, plain⟩ := before.mp (List.mem_cons_of_mem _ member)
      have inGrown : (file.wrapCall number (parent, call)).Reachable above :=
        (tree.reachable_wrapCall reachable listed).mpr (.inr inTree)
      refine ⟨inGrown, ?_, Nat.lt_succ_of_lt exists_, isCall, ?_⟩
      · exact (tree.mem_children_wrapCall reachable listed inGrown).mpr
          (.inr (.inr ⟨inTree, different, inList⟩))
      · rw [if_neg (Nat.ne_of_lt inTree.lt), plain]
    · rintro ⟨inGrown, inList, _, isCall, plain⟩
      have childOld : child < file.size := lt_of_kind? (isCall_iff.mp isCall).choose_spec.choose_spec
      rcases (tree.mem_children_wrapCall reachable listed inGrown).mp inList with
        ⟨rfl, rfl⟩ | ⟨_, rfl⟩ | ⟨inTree, different, oldList⟩
      · simp at plain
      · exact absurd childOld (Nat.lt_irrefl _)
      · rw [if_neg (Nat.ne_of_lt inTree.lt)] at plain
        rcases List.mem_cons.mp (before.mpr ⟨inTree, oldList, childOld, isCall, plain⟩) with
          same | later
        · exact absurd (congrArg Prod.snd same) different
        · exact later
  distinct := (List.nodup_cons.mp exposed.distinct).2

/-- A file with temporaries put into its tree: old nodes keep their kinds, the new ones are
temporaries, and taking those out gives the old tree. -/
structure Wrapped (file wrapped : File) (below grown : Forest) : Prop where
  tree : wrapped.IsTree grown
  size : file.size ≤ wrapped.size
  kinds : ∀ id < file.size, wrapped.kind? id = file.kind? id
  added : ∀ id, file.size ≤ id → id < wrapped.size → wrapped.isTemporary id = true
  old : ∀ id < file.size, wrapped.Reachable id → file.Reachable id
  contract : ∀ inner : NodeId → Bool,
    (∀ id, file.size ≤ id → id < wrapped.size → inner id = true) →
      grown.contract inner = below.contract inner

theorem Wrapped.refl (tree : file.IsTree below) : file.Wrapped file below below where
  tree := tree
  size := Nat.le_refl _
  kinds _ _ := rfl
  added _ new old := absurd old (Nat.not_lt.mpr new)
  old _ _ reachable := reachable
  contract _ _ := rfl

theorem Wrapped.trans {middle last : File} {grown final : Forest}
    (first : file.Wrapped middle below grown) (second : middle.Wrapped last grown final) :
    file.Wrapped last below final where
  tree := second.tree
  size := Nat.le_trans first.size second.size
  kinds id exists_ := (second.kinds id (Nat.lt_of_lt_of_le exists_ first.size)).trans (first.kinds id exists_)
  added id new exists_ := by
    by_cases early : id < middle.size
    · rw [isTemporary_congr (second.kinds id early)]
      exact first.added id new early
    · exact second.added id (Nat.not_lt.mp early) exists_
  old id exists_ reachable :=
    first.old id exists_ (second.old id (Nat.lt_of_lt_of_le exists_ first.size) reachable)
  contract inner taken := by
    rw [second.contract inner fun id new exists_ => taken id (Nat.le_trans first.size new) exists_]
    exact first.contract inner fun id new exists_ =>
      taken id new (Nat.lt_of_lt_of_le exists_ second.size)

theorem IsTree.wrapped_wrapCall (tree : file.IsTree below) (reachable : file.Reachable parent)
    (listed : call ∈ file.children parent) (number : Nat) :
    file.Wrapped (file.wrapCall number (parent, call)) below (below.wrap call file.size) where
  tree := tree.wrapCall reachable listed
  size := by
    rw [size_wrapCall]
    exact Nat.le_succ _
  kinds id exists_ := by rw [kind?_wrapCall, if_neg (Nat.ne_of_lt exists_)]
  added id new exists_ := by
    rw [size_wrapCall] at exists_
    rw [isTemporary_wrapCall, if_pos (Nat.le_antisymm (Nat.lt_succ_iff.mp exists_) new)]
  old id exists_ inGrown := by
    rcases (tree.reachable_wrapCall reachable listed).mp inGrown with isNew | inTree
    · exact absurd isNew (Nat.ne_of_lt exists_)
    · exact inTree
  contract inner taken := by
    refine Forest.contract_wrap (taken file.size (Nat.le_refl _) ?_)
    rw [size_wrapCall]
    exact Nat.lt_succ_self _

theorem IsTree.wrapEdges (tree : file.IsTree below) (exposed : file.Exposed edges) (number : Nat) :
    (∃ grown : Forest, file.Wrapped (file.wrapEdges number edges) below grown) ∧
      (file.wrapEdges number edges).exposedCalls = [] := by
  induction edges generalizing file below number with
  | nil =>
    refine ⟨⟨below, .refl tree⟩, List.eq_nil_iff_forall_not_mem.mpr fun edge member => ?_⟩
    exact List.not_mem_nil ((exposed.mem_iff edge).mpr member)
  | cons edge edges ih =>
    obtain ⟨parent, call⟩ := edge
    obtain ⟨reachable, listed, _, _⟩ := exposed.head
    have step := tree.wrapped_wrapCall reachable listed number
    obtain ⟨⟨grown, rest⟩, none⟩ := ih step.tree (exposed.wrapCall tree number) (number + 1)
    exact ⟨⟨grown, step.trans rest⟩, none⟩

/-- Wrapping the exposed calls of a tree puts temporaries into it and leaves no call exposed. -/
theorem IsTree.wrapCalls (tree : file.IsTree below) (number : Nat) :
    (∃ grown : Forest, file.Wrapped (file.wrapCalls number) below grown) ∧
      (file.wrapCalls number).exposedCalls = [] :=
  tree.wrapEdges tree.exposed number

theorem address_wrapEdges (file : File) (number : Nat) (edges : List (NodeId × NodeId)) :
    (file.wrapEdges number edges).address = file.address := by
  induction edges generalizing file number with
  | nil => rfl
  | cons edge edges ih => rw [File.wrapEdges, ih, address_wrapCall]

theorem address_wrapCalls (file : File) (number : Nat) :
    (file.wrapCalls number).address = file.address := address_wrapEdges ..

theorem Linked.wrapEdges (linked : file.Linked) (tree : file.IsTree below)
    (exposed : file.Exposed edges) (number : Nat) : (file.wrapEdges number edges).Linked := by
  induction edges generalizing file below number with
  | nil => exact linked
  | cons edge edges ih =>
    obtain ⟨parent, call⟩ := edge
    obtain ⟨reachable, listed, _, _⟩ := exposed.head
    exact ih (linked.wrapCall tree reachable listed) (tree.wrapCall reachable listed)
      (exposed.wrapCall tree number) (number + 1)

theorem WellLinked.wrapEdges (linked : file.WellLinked) (exposed : file.Exposed edges)
    (number : Nat) : (file.wrapEdges number edges).WellLinked := by
  induction edges generalizing file number with
  | nil => exact linked
  | cons edge edges ih =>
    obtain ⟨parent, call⟩ := edge
    obtain ⟨reachable, listed, _, _⟩ := exposed.head
    obtain ⟨below, tree⟩ := treeShaped_iff.mp linked.shaped
    exact ih (linked.wrapCall reachable listed) (exposed.wrapCall tree number) (number + 1)

theorem WellLinked.wrapCalls (linked : file.WellLinked) (number : Nat) :
    (file.wrapCalls number).WellLinked := by
  obtain ⟨below, tree⟩ := treeShaped_iff.mp linked.shaped
  exact linked.wrapEdges tree.exposed number

/-! ### What temporaries hold -/

def Filled (file : File) : Prop :=
  ∀ id, file.Reachable id → file.isTemporary id = true →
    ∃ call, file.children id = [call] ∧ file.isCall call = true

theorem Filled.wrapCall (filled : file.Filled) (tree : file.IsTree below)
    (exposed : file.Exposed ((parent, call) :: edges)) (number : Nat) :
    (file.wrapCall number (parent, call)).Filled := by
  obtain ⟨reachable, listed, isCall, plain⟩ := exposed.head
  intro id inGrown temporary
  rw [File.children_wrapCall reachable.lt]
  rw [isTemporary_wrapCall] at temporary
  rcases (tree.reachable_wrapCall reachable listed).mp inGrown with isNew | inTree
  · refine ⟨call, if_pos isNew, ?_⟩
    rw [isCall_wrapCall, isCall]
  · have notNew := Nat.ne_of_lt inTree.lt
    rw [if_neg notNew] at temporary
    have notParent : id ≠ parent := by
      rintro rfl
      rw [plain] at temporary
      cases temporary
    rw [if_neg notNew, if_neg notParent]
    obtain ⟨held, only, heldIsCall⟩ := filled id inTree temporary
    exact ⟨held, only, by rw [isCall_wrapCall, heldIsCall]⟩

theorem Filled.wrapEdges (filled : file.Filled) (tree : file.IsTree below)
    (exposed : file.Exposed edges) (number : Nat) : (file.wrapEdges number edges).Filled := by
  induction edges generalizing file below number with
  | nil => exact filled
  | cons edge edges ih =>
    obtain ⟨parent, call⟩ := edge
    obtain ⟨reachable, listed, _, _⟩ := exposed.head
    exact ih (filled.wrapCall tree exposed number) (tree.wrapCall reachable listed)
      (exposed.wrapCall tree number) (number + 1)

theorem checkTemporaries_ok_iff :
    file.checkTemporaries = .ok () ↔ file.exposedCalls = [] ∧ file.Filled := by
  rw [checkTemporaries]
  cases exposed : file.exposedCalls with
  | cons edge edges => simp
  | nil =>
    rw [eq_self, true_and]
    refine (forM_ok_iff _ _).trans ?_
    simp only [mem_preorder]
    refine forall₂_congr fun id _ => ?_
    cases file.isTemporary id with
    | false => simp
    | true =>
      rw [if_pos rfl]
      rcases file.children id with _ | ⟨only, _ | ⟨second, rest⟩⟩
      · simp
      · by_cases isCall : file.isCall only
        · simp [isCall]
        · simp [isCall]
      · simp

end File
end StagedLowering
