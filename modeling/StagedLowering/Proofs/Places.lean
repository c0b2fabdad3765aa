import StagedLowering.Proofs.Declaring

/-!
# Places in a module

A node is found in a module by the position of its file and its own. Some passes go through places in
the order of files and walks (`Module.places`) and write to the kinds of nodes at some of them; what
else there is stays as it is (`Module.SameBut`).
-/

namespace StagedLowering

namespace Module

def placesIn {α : Type} (select : α → List NodeId) (entries : List α) : List (FileId × NodeId) :=
  entries.zipIdx.flatMap fun (entry, i) => (select entry).map (i, ·)

def places (select : File → List NodeId) (m : Module) : List (FileId × NodeId) :=
  placesIn select m.files

def nodeAt? (m : Module) (spot : FileId × NodeId) : Option Node :=
  (m.files[spot.1]?).bind (·.node? spot.2)

/-- Another module differs from `m` in the kinds of the nodes at some places alone. -/
structure SameBut (spots : List (FileId × NodeId)) (m other : Module) : Prop where
  name : other.name = m.name
  addresses : other.files.map File.address = m.files.map File.address
  links : ∀ spot, (other.nodeAt? spot).map (·.parent) = (m.nodeAt? spot).map (·.parent)
  lists : ∀ spot, (other.nodeAt? spot).map (·.children) = (m.nodeAt? spot).map (·.children)
  elsewhere : ∀ spot, spot ∉ spots → other.nodeAt? spot = m.nodeAt? spot

variable {m other : Module} {spots : List (FileId × NodeId)} {spot : FileId × NodeId}
  {may : NodeKind → Bool}

section placesIn

variable {α β : Type} {entries : List α} {selected : α → List NodeId} {i : FileId} {id : NodeId}

theorem mem_placesIn :
    (i, id) ∈ placesIn selected entries ↔ ∃ entry, entries[i]? = some entry ∧ id ∈ selected entry := by
  simp only [placesIn, List.mem_flatMap, List.mem_map, Prod.mk.injEq]
  constructor
  · rintro ⟨⟨entry, j⟩, member, id, among, rfl, rfl⟩
    exact ⟨entry, List.mem_zipIdx_iff_getElem?.mp member, among⟩
  · rintro ⟨entry, found, among⟩
    exact ⟨(entry, i), List.mem_zipIdx_iff_getElem?.mpr found, id, among, rfl, rfl⟩

theorem placesIn_map (f : β → α) (list : List β) :
    placesIn selected (list.map f) = placesIn (fun entry => selected (f entry)) list := by
  unfold placesIn
  rw [List.zipIdx_map, List.flatMap_map]
  rfl

/-- The places up to an entry, with its own, come before those of the rest. -/
theorem placesIn_append_cons (selected : α → List NodeId) (passed : List α) (entry : α)
    (rest : List α) :
    ∃ later, placesIn selected (passed ++ entry :: rest) =
        (placesIn selected passed ++ (selected entry).map (passed.length, ·)) ++ later ∧
      ((∀ other ∈ rest, selected other = []) → later = []) := by
  refine ⟨(rest.zipIdx (passed.length + 1)).flatMap fun (entry, i) => (selected entry).map (i, ·),
    ?_, fun none => ?_⟩
  · rw [placesIn, List.zipIdx_append, List.flatMap_append, List.zipIdx_cons, List.flatMap_cons,
      Nat.zero_add, placesIn, List.append_assoc]
  · refine List.flatMap_eq_nil_iff.mpr fun ⟨other, i⟩ member => ?_
    dsimp only
    rw [none other (List.fst_mem_of_mem_zipIdx member), List.map_nil]

end placesIn

theorem nodeAt?_kind (m : Module) (spot : FileId × NodeId) :
    (m.nodeAt? spot).map (·.kind) = m.kindAt? spot := by
  unfold nodeAt? kindAt?
  cases m.files[spot.1]? <;> rfl

namespace Rebound

variable (rebound : m.Rebound may other)

include rebound

theorem address : other.files.map File.address = m.files.map File.address := by
  rw [← List.forall₂_eq_eq_eq, List.forall₂_map_left_iff, List.forall₂_map_right_iff]
  exact rebound.2.flip.imp fun _ _ file => file.address

/-- A node that may have been bound has the link and the list it had. -/
theorem nodeAt? (spot : FileId × NodeId) :
    (m.nodeAt? spot = none ∧ other.nodeAt? spot = none) ∨
      ∃ node last, m.nodeAt? spot = some node ∧ other.nodeAt? spot = some last ∧
        last.parent = node.parent ∧ last.children = node.children := by
  unfold Module.nodeAt?
  rcases FileByFile.at rebound spot.1 with ⟨none, noneOther⟩ | ⟨file, last, found, lastFound, here⟩
  · rw [none, noneOther]
    exact .inl ⟨rfl, rfl⟩
  · rw [found, lastFound, Option.bind_some, Option.bind_some]
    have lists := here.children spot.2
    have links := here.parent? spot.2
    unfold File.children at lists
    unfold File.parent? at links
    cases node : file.node? spot.2 with
    | none =>
      rw [File.node?_eq_none] at node ⊢
      exact .inl ⟨rfl, here.size ▸ node⟩
    | some node' =>
      obtain ⟨other, present⟩ := File.exists_node? (here.size.symm ▸ File.lt_of_node? node)
      rw [node, present] at lists links
      exact .inr ⟨node', other, rfl, present, links, lists⟩

/-- A module that was rebound differs at the places alone that are bound otherwise than before. -/
theorem sameBut (elsewhere : ∀ spot, spot ∉ spots → other.kindAt? spot = m.kindAt? spot) :
    m.SameBut spots other where
  name := rebound.1
  addresses := rebound.address
  links spot := by
    rcases rebound.nodeAt? spot with ⟨none, noneOther⟩ | ⟨node, last, found, lastFound, link, -⟩
    · rw [none, noneOther]
    · rw [found, lastFound, Option.map_some, Option.map_some, link]
  lists spot := by
    rcases rebound.nodeAt? spot with ⟨none, noneOther⟩ | ⟨node, last, found, lastFound, -, list⟩
    · rw [none, noneOther]
    · rw [found, lastFound, Option.map_some, Option.map_some, list]
  elsewhere spot apart := by
    have kind := elsewhere spot apart
    rcases rebound.nodeAt? spot with ⟨none, noneOther⟩ | ⟨node, last, found, lastFound, link, list⟩
    · rw [none, noneOther]
    · rw [← nodeAt?_kind, ← nodeAt?_kind, found, lastFound, Option.map_some, Option.map_some,
        Option.some.injEq] at kind
      rw [found, lastFound]
      obtain ⟨lastKind, lastParent, lastChildren⟩ := last
      cases link
      cases list
      cases kind
      rfl

end Rebound

end Module
end StagedLowering
