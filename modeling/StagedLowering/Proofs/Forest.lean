import StagedLowering.Tree.File

/-!
# Ordered forests

What children lists spell when nothing is shared: trees side by side, each a node with the forest
below it. `contract` takes nodes out and lifts what is below them into their place.
-/

namespace StagedLowering

/-- A first tree, given by its root and the forest below it, and the trees beside it. -/
inductive Forest
  | nil
  | cons (id : NodeId) (below beside : Forest)
deriving DecidableEq

namespace Forest

def roots : Forest → List NodeId
  | nil => []
  | cons id _ beside => id :: beside.roots

def ids : Forest → List NodeId
  | nil => []
  | cons id below beside => id :: (below.ids ++ beside.ids)

def append : Forest → Forest → Forest
  | nil, more => more
  | cons id below beside, more => cons id below (beside.append more)

/-- Takes out the nodes that `inner` holds of; what is below them takes their place. -/
def contract (inner : NodeId → Bool) : Forest → Forest
  | nil => nil
  | cons id below beside =>
    if inner id then (below.contract inner).append (beside.contract inner)
    else cons id (below.contract inner) (beside.contract inner)

variable {forest : Forest} {inner outer : NodeId → Bool}

@[simp] theorem roots_append (forest more : Forest) :
    (forest.append more).roots = forest.roots ++ more.roots := by
  induction forest with
  | nil => rfl
  | cons id below beside _ ih => simp [append, roots, ih]

@[simp] theorem ids_append (forest more : Forest) :
    (forest.append more).ids = forest.ids ++ more.ids := by
  induction forest with
  | nil => rfl
  | cons id below beside _ ih => simp [append, ids, ih]

theorem append_assoc (forest more rest : Forest) :
    (forest.append more).append rest = forest.append (more.append rest) := by
  induction forest with
  | nil => rfl
  | cons id below beside _ ih => simp [append, ih]

@[simp] theorem append_nil (forest : Forest) : forest.append nil = forest := by
  induction forest with
  | nil => rfl
  | cons id below beside _ ih => simp [append, ih]

theorem exists_append {first second : List NodeId} (cut : forest.roots = first ++ second) :
    ∃ left right : Forest, forest = left.append right ∧ left.roots = first ∧
      right.roots = second := by
  induction forest generalizing first with
  | nil =>
    obtain ⟨rfl, rfl⟩ := List.append_eq_nil_iff.mp cut.symm
    exact ⟨nil, nil, rfl, rfl, rfl⟩
  | cons id below beside _ ih =>
    cases first with
    | nil => exact ⟨nil, cons id below beside, rfl, rfl, cut⟩
    | cons head first =>
      obtain ⟨rfl, rest⟩ := List.cons.inj cut
      obtain ⟨left, right, rfl, rfl, rfl⟩ := ih rest
      exact ⟨cons id below left, right, rfl, rfl, rfl⟩

theorem roots_subset (forest : Forest) : forest.roots ⊆ forest.ids := by
  induction forest with
  | nil => exact List.Subset.refl _
  | cons id below beside _ ih =>
    intro x member
    rcases List.mem_cons.mp member with rfl | later
    · exact List.mem_cons_self
    · exact List.mem_cons_of_mem _ (List.mem_append_right _ (ih later))

/-! ### Contraction -/

theorem contract_append (inner : NodeId → Bool) (forest more : Forest) :
    (forest.append more).contract inner = (forest.contract inner).append (more.contract inner) := by
  induction forest with
  | nil => rfl
  | cons id below beside _ ih =>
    by_cases taken : inner id
    · simp [append, contract, taken, ih, append_assoc]
    · simp [append, contract, taken, ih]

theorem ids_contract (inner : NodeId → Bool) (forest : Forest) :
    (forest.contract inner).ids = forest.ids.filter (!inner ·) := by
  induction forest with
  | nil => rfl
  | cons id below beside belowIh besideIh =>
    by_cases taken : inner id
    · simp [contract, ids, taken, belowIh, besideIh]
    · simp [contract, ids, taken, belowIh, besideIh]

theorem contract_congr (same : ∀ id ∈ forest.ids, inner id = outer id) :
    forest.contract inner = forest.contract outer := by
  induction forest with
  | nil => rfl
  | cons id below beside belowIh besideIh =>
    simp only [ids, List.mem_cons, List.mem_append] at same
    rw [contract, contract, same id (.inl rfl), belowIh fun id member => same id (.inr (.inl member)),
      besideIh fun id member => same id (.inr (.inr member))]

/-- Taking nodes out in two goes takes out those of either. -/
theorem contract_contract (inner outer : NodeId → Bool) (forest : Forest) :
    (forest.contract inner).contract outer = forest.contract fun id => inner id || outer id := by
  induction forest with
  | nil => rfl
  | cons id below beside belowIh besideIh =>
    by_cases taken : inner id
    · simp [contract, taken, contract_append, belowIh, besideIh]
    · simp [contract, taken, belowIh, besideIh]

end Forest

/-- The children lists of the nodes of the forest are what stands below them. -/
def File.Spells (file : File) : Forest → Prop
  | .nil => True
  | .cons id below beside =>
    file.children id = below.roots ∧ file.Spells below ∧ file.Spells beside

namespace File

variable {file other : File} {forest more : Forest}

theorem spells_append : file.Spells (forest.append more) ↔ file.Spells forest ∧ file.Spells more := by
  induction forest with
  | nil => simp [Forest.append, Spells]
  | cons id below beside _ ih => simp [Forest.append, Spells, ih, and_assoc]

/-- Only the lists of the nodes in the forest matter. -/
theorem Spells.congr (spells : file.Spells forest)
    (same : ∀ id ∈ forest.ids, other.children id = file.children id) : other.Spells forest := by
  induction forest with
  | nil => trivial
  | cons id below beside belowIh besideIh =>
    simp only [Forest.ids, List.mem_cons, List.mem_append] at same
    obtain ⟨lists, belowSpells, besideSpells⟩ := spells
    exact ⟨(same id (.inl rfl)).trans lists,
      belowIh belowSpells fun id member => same id (.inr (.inl member)),
      besideIh besideSpells fun id member => same id (.inr (.inr member))⟩

theorem Spells.ids_perm (spells : file.Spells forest) :
    forest.ids.Perm (forest.roots ++ forest.ids.flatMap file.children) := by
  induction forest with
  | nil => exact .nil
  | cons id below beside belowIh besideIh =>
    obtain ⟨lists, belowSpells, besideSpells⟩ := spells
    have perm := (belowIh belowSpells).append (besideIh besideSpells)
    simp only [Forest.ids, Forest.roots, List.flatMap_cons, List.flatMap_append, lists,
      List.cons_append]
    refine .cons id (perm.trans ?_)
    have swap := List.perm_append_comm_assoc (below.roots ++ below.ids.flatMap file.children)
      beside.roots (beside.ids.flatMap file.children)
    simpa only [List.append_assoc] using swap

theorem Spells.children_subset (spells : file.Spells forest) {id : NodeId}
    (member : id ∈ forest.ids) : file.children id ⊆ forest.ids := by
  intro child listed
  exact spells.ids_perm.mem_iff.mpr
    (List.mem_append_right _ (List.mem_flatMap.mpr ⟨id, member, listed⟩))

end File
end StagedLowering
