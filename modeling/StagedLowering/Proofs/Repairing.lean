import StagedLowering.Proofs.Census

/-!
# Repairing links

What the repair of parent links makes of a file, whatever the lists say (`patchParents_exact`). Each
edge overwrites the link of its end, so the last edge to a node decides. A node that several edges
lead to agrees with one of them only, and the repaired file passes the check of links exactly if
there was a tree to begin with (`wellLinked_patchLinks_iff`).
-/

namespace StagedLowering

namespace File

variable {file : File} {list before rest : List (NodeId × NodeId)} {parent child id : NodeId}

/-- Another file differs in links alone: a node links to where the last edge to it comes from, and
one that no edge leads to keeps its link. -/
structure Relinked (file patched : File) : Prop where
  address : patched.address = file.address
  size : patched.size = file.size
  kinds : ∀ id, patched.kind? id = file.kind? id
  lists : ∀ id, patched.children id = file.children id
  last : ∀ before parent child rest, file.edges = before ++ (parent, child) :: rest →
    child ∉ rest.map (·.2) → patched.parent? child = some parent
  others : ∀ id, id ∉ file.edges.map (·.2) → patched.parent? id = file.parent? id

theorem find?_reverse_none (absent : id ∉ list.map (·.2)) :
    list.reverse.find? (·.2 = id) = none := by
  refine List.find?_eq_none.mpr fun edge member => ?_
  rw [decide_eq_true_eq]
  rintro rfl
  exact absent (List.mem_map.mpr ⟨edge, List.mem_reverse.mp member, rfl⟩)

theorem parent?_patchLinks_last (split : file.edges = before ++ (parent, child) :: rest)
    (last : child ∉ rest.map (·.2)) : file.patchLinks.1.parent? child = some parent := by
  rw [parent?_patchLinks, split]
  simp [List.find?_append, find?_reverse_none last]

theorem parent?_patchLinks_other (unlisted : id ∉ file.edges.map (·.2)) :
    file.patchLinks.1.parent? id = file.parent? id := by
  rw [parent?_patchLinks, find?_reverse_none unlisted]
  rfl

theorem relinked_patchLinks (file : File) : file.Relinked file.patchLinks.1 where
  address := address_patchLinks file
  size := size_patchLinks file
  kinds := kind?_patchLinks file
  lists := children_patchLinks file
  last _ _ _ _ split last := parent?_patchLinks_last split last
  others _ unlisted := parent?_patchLinks_other unlisted

theorem edges_patchLinks (file : File) : file.patchLinks.1.edges = file.edges := by
  simp only [edges, preorder_congr (size_patchLinks file) (children_patchLinks file),
    children_patchLinks, size_patchLinks]

/-- The edges are the same the second time, and so is the last of them to each node. -/
theorem patchLinks_patchLinks (file : File) : file.patchLinks.1.patchLinks.1 = file.patchLinks.1 := by
  refine ext_of_views (address_patchLinks _) (kind?_patchLinks _) (children_patchLinks _) fun id => ?_
  rw [parent?_patchLinks, edges_patchLinks, parent?_patchLinks]
  cases file.edges.reverse.find? (·.2 = id) with
  | none => rfl
  | some edge => rfl

theorem wellLinked_patchLinks_iff :
    file.patchLinks.1.WellLinked ↔ file.rootNode.parent = none ∧ file.TreeShaped := by
  rw [← parent?_root]
  constructor
  · rintro ⟨rootUnset, shaped, -⟩
    rw [← parent?_root, parent?_patchLinks] at rootUnset
    refine ⟨(Option.or_eq_none_iff.mp rootUnset).2, shaped.congr (size_patchLinks file).symm ?_⟩
    exact fun id => (children_patchLinks file id).symm
  · rintro ⟨unset, shaped⟩
    exact shaped.wellLinked_patchLinks unset

end File

variable {σ : Type}

/-- What the repair of links does to a file. It can be made again, which changes nothing, and the
file passes the check of links after it exactly if it was a tree under a root without a link. -/
theorem patchParents_exact (state : State σ File) :
    ∃ after : State σ File, patchParents state = (.ok (), after) ∧
      state.unit.Relinked after.unit ∧
      (∃ again : State σ File, patchParents after = (.ok (), again) ∧ again.unit = after.unit) ∧
      (after.unit.checkLinks = .ok () ↔
        state.unit.rootNode.parent = none ∧ state.unit.TreeShaped) := by
  refine ⟨_, patchParents_apply state, state.unit.relinked_patchLinks,
    ⟨_, patchParents_apply _, state.unit.patchLinks_patchLinks⟩, ?_⟩
  rw [File.checkLinks_ok_iff]
  exact File.wellLinked_patchLinks_iff

def File.contested : File where
  path := "contested"
  nodes := #[
    { kind := .root, children := [1, 2] },
    { kind := .function "first", children := [3, 0, 9] },
    { kind := .function "second", children := [3] },
    { kind := .literal 1 }]

/-- The later function gets the node. A second repair moves the link there and back. -/
example : File.contested.patchLinks.1.parent? 3 = some 2 ∧
    File.contested.patchLinks.1.patchLinks.2 = 2 := by
  cbv

end StagedLowering
