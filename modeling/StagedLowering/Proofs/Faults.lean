import StagedLowering.Proofs.Links

/-!
# The first fault of a tree

`File.descent` has the edges of a file in the order of a depth-first search that takes children from
left to right and enters a node once. The check of parent links goes along them and reports the
first that is at fault (`checkLinks_exact`).
-/

namespace StagedLowering.File

variable {file : File} {unseen children : List NodeId} {earlier edges : List (NodeId × NodeId)}
  {parent child id : NodeId} {violation : Violation}

/-! ### Edges in the order of a search -/

theorem length_erase_lt (fresh : child ∈ unseen) : (unseen.erase child).length < unseen.length := by
  have := List.length_erase_of_mem fresh
  have := List.length_pos_of_mem fresh
  omega

/-- The edges that a search finds from the children of a node, those below a child that it enters
before those to the next, and the nodes that it has not entered after that. -/
def descend (file : File) (unseen : List NodeId) (parent : NodeId) :
    List NodeId → { found : List (NodeId × NodeId) × List NodeId // found.2.length ≤ unseen.length }
  | [] => ⟨([], unseen), Nat.le_refl _⟩
  | child :: rest =>
    if child ∈ unseen then
      match file.descend (unseen.erase child) child (file.children child) with
      | ⟨(below, middle), fewer⟩ =>
        match file.descend middle parent rest with
        | ⟨(beside, left), less⟩ =>
          ⟨((parent, child) :: (below ++ beside), left),
            Nat.le_trans less (Nat.le_trans fewer List.length_erase_le)⟩
    else
      match file.descend unseen parent rest with
      | ⟨(beside, left), less⟩ => ⟨((parent, child) :: beside, left), less⟩
termination_by children => (unseen.length, children.length)
decreasing_by
  · exact Prod.Lex.left _ _ (length_erase_lt ‹child ∈ unseen›)
  · exact Prod.Lex.left _ _ (Nat.lt_of_le_of_lt fewer (length_erase_lt ‹child ∈ unseen›))
  · exact Prod.Lex.right _ (by simp)

def descent (file : File) : List (NodeId × NodeId) :=
  (file.descend ((List.range file.size).erase root) root (file.children root)).1.1

def edgesFrom (file : File) (id : NodeId) : List (NodeId × NodeId) :=
  (file.children id).map (id, ·)

/-- A search enters what a walk enters, and finds the edges of all that it enters. -/
theorem descend_walkFrom (file : File) (unseen : List NodeId) (parent : NodeId)
    (children : List NodeId) (depth : Nat) (pending : List (NodeId × Nat)) :
    ∃ entered : List NodeId,
      (file.walkFrom unseen (children.map (·, depth) ++ pending)).map (·.1) =
        entered ++ (file.walkFrom (file.descend unseen parent children).1.2 pending).map (·.1) ∧
      (file.descend unseen parent children).1.1.Perm
        (children.map (parent, ·) ++ entered.flatMap file.edgesFrom) := by
  fun_induction descend file unseen parent children generalizing depth pending with
  | case1 unseen parent => exact ⟨[], rfl, .nil⟩
  | case2 unseen parent child rest fresh below middle _ inner beside left _ outer belowIh ih =>
    obtain ⟨entered, walk, perm⟩ := belowIh (depth + 1) (rest.map (·, depth) ++ pending)
    obtain ⟨more, walkOn, permOn⟩ := ih depth pending
    rw [inner] at walk perm
    rw [outer] at walkOn permOn
    dsimp only at walk perm walkOn permOn ⊢
    refine ⟨child :: (entered ++ more), ?_, ?_⟩
    · rw [List.map_cons, List.cons_append, walkFrom, if_pos fresh, List.map_cons, walk, walkOn]
      simp
    · rw [List.map_cons, List.cons_append, List.flatMap_cons, List.flatMap_append]
      have swap := List.perm_append_comm_assoc
        (file.edgesFrom child ++ entered.flatMap file.edgesFrom) (rest.map (parent, ·))
        (more.flatMap file.edgesFrom)
      rw [List.append_assoc (file.edgesFrom child) _ (more.flatMap file.edgesFrom)] at swap
      exact .cons _ ((perm.append permOn).trans swap)
  | case3 unseen parent child rest seen beside left _ outer ih =>
    obtain ⟨entered, walk, perm⟩ := ih depth pending
    rw [outer] at walk perm
    dsimp only at walk perm ⊢
    refine ⟨entered, ?_, perm.cons _⟩
    rw [List.map_cons, List.cons_append, walkFrom, if_neg seen, walk]

/-- A search finds each edge of a reachable node as often as the node lists its end. -/
theorem descent_perm (file : File) : file.descent.Perm (file.preorder.flatMap file.edgesFrom) := by
  obtain ⟨entered, walk, perm⟩ :=
    file.descend_walkFrom ((List.range file.size).erase root) root (file.children root) 1 []
  have whole : file.preorder = root :: entered := by
    rw [preorder, File.walk, walkFrom, if_pos (List.mem_range.mpr (root_lt file)), List.map_cons,
      walk, walkFrom]
    simp
  rw [whole, List.flatMap_cons]
  exact perm

/-! ### Faults -/

/-- What is wrong with an edge that comes after the others. An end that is no node or that was
reached before is the fault of the node that lists it; otherwise the end has to link back. -/
def edgeFault (file : File) (earlier : List (NodeId × NodeId)) :
    NodeId × NodeId → Option Violation
  | (parent, child) =>
    if file.size ≤ child then some ⟨.childOutOfRange, file.locate parent⟩
    else if child = root ∨ child ∈ earlier.map (·.2) then
      some ⟨.reachedTwice, file.locate parent⟩
    else
      match file.parent? child with
      | none => some ⟨.linkUnset, file.locate child⟩
      | some link =>
        if link = parent then none else some ⟨.linkPointsAt link parent, file.locate child⟩

def firstFault (file : File) (earlier : List (NodeId × NodeId)) :
    List (NodeId × NodeId) → Option Violation
  | [] => none
  | edge :: later => (file.edgeFault earlier edge).or (file.firstFault (earlier ++ [edge]) later)

theorem firstFault_append (later : List (NodeId × NodeId)) :
    file.firstFault earlier (edges ++ later) =
      (file.firstFault earlier edges).or (file.firstFault (earlier ++ edges) later) := by
  induction edges generalizing earlier with
  | nil => simp [firstFault]
  | cons edge edges ih => simp [firstFault, ih, Option.or_assoc]

theorem firstFault_eq_some_iff :
    file.firstFault earlier edges = some violation ↔
      ∃ before edge after, edges = before ++ edge :: after ∧
        file.firstFault earlier before = none ∧
        file.edgeFault (earlier ++ before) edge = some violation := by
  induction edges generalizing earlier with
  | nil => simp [firstFault]
  | cons edge edges ih =>
    rw [firstFault, Option.or_eq_some_iff, ih]
    constructor
    · rintro (here | ⟨fine, before, other, after, rfl, none, fault⟩)
      · exact ⟨[], edge, edges, rfl, rfl, by simpa using here⟩
      · exact ⟨edge :: before, other, after, rfl, by simp [firstFault, fine, none],
          by simpa using fault⟩
    · rintro ⟨before, other, after, split, none, fault⟩
      cases before with
      | nil =>
        obtain ⟨rfl, rfl⟩ := List.cons.inj split
        exact .inl (by simpa using fault)
      | cons first before =>
        obtain ⟨rfl, rfl⟩ := List.cons.inj split
        obtain ⟨fine, none⟩ := Option.or_eq_none_iff.mp none
        exact .inr ⟨fine, before, other, after, rfl, none, by simpa using fault⟩

theorem firstFault_eq_none_iff :
    file.firstFault earlier edges = none ↔
      ∀ before edge after, edges = before ++ edge :: after →
        file.edgeFault (earlier ++ before) edge = none := by
  constructor
  · rintro none before edge after rfl
    rw [firstFault_append, Option.or_eq_none_iff, firstFault, Option.or_eq_none_iff] at none
    exact none.2.1
  · intro fine
    rw [Option.eq_none_iff_forall_ne_some]
    intro violation fault
    obtain ⟨before, edge, after, split, _, fault⟩ := firstFault_eq_some_iff.mp fault
    rw [fine before edge after split] at fault
    cases fault

/-! ### The check of a search -/

/-- The nodes that a search has not entered are those that no edge so far leads to. -/
structure Tracks (file : File) (unseen : List NodeId) (earlier : List (NodeId × NodeId)) :
    Prop where
  nodup : unseen.Nodup
  mem : ∀ id, id ∈ unseen ↔ id < file.size ∧ id ≠ root ∧ id ∉ earlier.map (·.2)

theorem tracks_nil (file : File) : file.Tracks ((List.range file.size).erase root) [] where
  nodup := List.nodup_range.erase _
  mem id := by
    rw [List.nodup_range.mem_erase_iff, List.mem_range]
    simp [and_comm]

theorem Tracks.enter (tracks : file.Tracks unseen earlier) (parent child : NodeId) :
    file.Tracks (unseen.erase child) (earlier ++ [(parent, child)]) where
  nodup := tracks.nodup.erase _
  mem id := by
    rw [tracks.nodup.mem_erase_iff, tracks.mem]
    simp only [List.map_append, List.map_cons, List.map_nil, List.mem_append, List.mem_singleton,
      not_or]
    grind

theorem Tracks.pass (tracks : file.Tracks unseen earlier) (parent : NodeId)
    (seen : child ∉ unseen) : file.Tracks unseen (earlier ++ [(parent, child)]) := by
  have entered := tracks.enter parent child
  rwa [List.erase_of_not_mem seen] at entered

theorem Tracks.descend (tracks : file.Tracks unseen earlier) (parent : NodeId)
    (children : List NodeId) : file.Tracks (file.descend unseen parent children).1.2
      (earlier ++ (file.descend unseen parent children).1.1) := by
  fun_induction File.descend file unseen parent children generalizing earlier with
  | case1 unseen parent => rwa [List.append_nil]
  | case2 unseen parent child rest fresh below middle _ inner beside left _ outer belowIh ih =>
    have entered := belowIh (tracks.enter parent child)
    rw [inner] at entered
    have passed := ih entered
    rw [outer] at passed
    simpa using passed
  | case3 unseen parent child rest seen beside left _ outer ih =>
    have passed := ih (tracks.pass parent seen)
    rw [outer] at passed
    simpa using passed

theorem Tracks.mem_of_edgeFault (tracks : file.Tracks unseen earlier)
    (fine : file.edgeFault earlier (parent, child) = none) : child ∈ unseen := by
  rw [edgeFault] at fine
  rw [tracks.mem]
  grind

/-- One step of the check. -/
theorem Tracks.checkEdges_cons (tracks : file.Tracks unseen earlier)
    (pending : List (NodeId × NodeId)) :
    file.checkEdges unseen ((parent, child) :: pending) =
      (file.edgeFault earlier (parent, child)).elim
        (file.checkEdges (unseen.erase child) (file.edgesFrom child ++ pending)) .error := by
  rw [checkEdges, edgeFault]
  cases found : file.node? child with
  | none => simp [node?_eq_none.mp found]
  | some node =>
    have inside : ¬file.size ≤ child := fun outside => by simp [node?_eq_none.mpr outside] at found
    have link : file.parent? child = node.parent := by simp [parent?, found]
    have listed : file.children child = node.children := children_of_node? found
    by_cases fresh : child ∈ unseen
    · have reached : ¬(child = root ∨ child ∈ earlier.map (·.2)) :=
        not_or.mpr ((tracks.mem child).mp fresh).2
      simp only [if_pos fresh, if_neg inside, if_neg reached, link]
      cases node.parent with
      | none => rfl
      | some other =>
        by_cases same : other = parent
        · simp [same, edgesFrom, listed]
        · simp [same]
    · have reached : child = root ∨ child ∈ earlier.map (·.2) := by
        have := tracks.mem child
        grind
      simp only [if_neg fresh, if_neg inside, if_pos reached, Option.elim_some]

/-- The check stops at the first fault of what a search finds, and otherwise goes on behind it. -/
theorem Tracks.checkEdges_descend (tracks : file.Tracks unseen earlier)
    (pending : List (NodeId × NodeId)) :
    file.checkEdges unseen (children.map (parent, ·) ++ pending) =
      (file.firstFault earlier (file.descend unseen parent children).1.1).elim
        (file.checkEdges (file.descend unseen parent children).1.2 pending) .error := by
  fun_induction File.descend file unseen parent children generalizing earlier pending with
  | case1 unseen parent => rfl
  | case2 unseen parent child rest fresh below middle _ inner beside left _ outer belowIh ih =>
    have entered := tracks.enter parent child
    have passed := entered.descend child (file.children child)
    have checkBelow := belowIh entered (rest.map (parent, ·) ++ pending)
    rw [inner] at passed checkBelow
    have checkBeside := ih passed pending
    rw [outer] at checkBeside
    dsimp only at checkBelow checkBeside ⊢
    rw [List.map_cons, List.cons_append, tracks.checkEdges_cons, edgesFrom, checkBelow, firstFault,
      firstFault_append, checkBeside]
    cases file.edgeFault earlier (parent, child) with
    | some violation => rfl
    | none => cases file.firstFault (earlier ++ [(parent, child)]) below <;> simp
  | case3 unseen parent child rest seen beside left _ outer ih =>
    rw [List.map_cons, List.cons_append, tracks.checkEdges_cons, firstFault]
    cases fault : file.edgeFault earlier (parent, child) with
    | some violation => rfl
    | none => exact absurd (tracks.mem_of_edgeFault fault) seen

theorem checkLinks_of_unset (unset : file.rootNode.parent = none) :
    file.checkLinks = (file.firstFault [] file.descent).elim (.ok ()) .error := by
  rw [checkLinks, unset, ← children_root, ← List.append_nil (List.map _ _)]
  dsimp only
  rw [file.tracks_nil.checkEdges_descend, checkEdges]
  rfl

/-- The check accepts the trees whose links all agree with them. If the root has no link, it rejects
any other file for the first edge that is at fault, as a search from the root comes to them, each as
often as it is listed. -/
theorem checkLinks_exact (file : File) :
    (file.checkLinks = .ok () ↔ file.WellLinked) ∧
    file.descent.Perm (file.preorder.flatMap file.edgesFrom) ∧
    (file.rootNode.parent = none → ∀ violation : Violation,
      file.checkLinks = .error violation ↔ ∃ earlier edge later,
        file.descent = earlier ++ edge :: later ∧
        (∀ before other after, earlier = before ++ other :: after →
          file.edgeFault before other = none) ∧
        file.edgeFault earlier edge = some violation) := by
  refine ⟨checkLinks_ok_iff, file.descent_perm, fun unset violation => ?_⟩
  rw [checkLinks_of_unset unset]
  trans file.firstFault [] file.descent = some violation
  · cases file.firstFault [] file.descent <;> simp
  · simp only [firstFault_eq_some_iff, firstFault_eq_none_iff, List.nil_append]

def twiceFaulty : File where
  path := "faulty"
  nodes := #[{ kind := .root, children := [1, 3] },
    { kind := .block, parent := some 0, children := [2, 9] },
    { kind := .literal 1, parent := some 1 }, { kind := .block }]

theorem checkLinks_twiceFaulty :
    twiceFaulty.rootNode.parent = none ∧
      twiceFaulty.checkLinks = .error ⟨.childOutOfRange, twiceFaulty.locate 1⟩ := by
  have fine : twiceFaulty.firstFault [] [(0, 1), (1, 2)] = none := by decide
  refine ⟨rfl, ((checkLinks_exact twiceFaulty).2.2 rfl _).mpr
    ⟨[(0, 1), (1, 2)], (1, 9), [(0, 3)], by cbv, ?_, by decide⟩⟩
  exact firstFault_eq_none_iff.mp fine

end StagedLowering.File
