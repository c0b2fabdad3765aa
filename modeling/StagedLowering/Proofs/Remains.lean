import StagedLowering.Proofs.Binding
import StagedLowering.Proofs.Declaring
import StagedLowering.Proofs.Preservation

/-!
# What remains after lowering

A preserved file declares what it declared (`Preserved.declarations_eq`). Calls that were bound stay
so, since later phases fix the kinds of the nodes that are there (`Preserved.allBound`).
-/

namespace StagedLowering

namespace File

variable {file other lowered : File} {below grown : Forest} {id : NodeId} {may : NodeKind → Bool}

/-! ### Declarations -/

theorem declaration?_eq (address : other.address = file.address)
    (kinds : (other.kind? id).map NodeKind.unbound = (file.kind? id).map NodeKind.unbound) :
    other.declaration? id = file.declaration? id := by
  unfold declaration?
  rw [locate_congr address]
  cases found : file.kind? id with
  | none =>
    rw [found, Option.map_none, Option.map_eq_none_iff] at kinds
    rw [kinds]
  | some kind =>
    rw [found, Option.map_some] at kinds
    obtain ⟨another, foundOther, unbound⟩ := Option.map_eq_some_iff.mp kinds
    rw [foundOther]
    cases kind <;> cases another <;> cases unbound <;> rfl

theorem declaration?_of_isScaffold (scaffold : file.isScaffold id = true) :
    file.declaration? id = none := by
  unfold declaration?
  rcases Bool.or_eq_true_iff.mp scaffold with block | temporary
  · rw [isBlock_iff.mp block]
  · obtain ⟨name, kind⟩ := isTemporary_iff.mp temporary
    rw [kind]

/-- Only the nodes that contraction leaves declare anything. -/
theorem IsTree.declarations_eq (tree : file.IsTree below) (plain : file.kind? root = some .root) :
    file.declarations = (below.contract file.isScaffold).ids.filterMap file.declaration? := by
  have rootless : file.declaration? root = none := by rw [declaration?, plain]
  have meaningful (ids : List NodeId) : (ids.filter (!file.isScaffold ·)).filterMap file.declaration? =
      ids.filterMap file.declaration? := by
    rw [List.filterMap_filter]
    refine List.filterMap_congr fun id _ => ?_
    cases scaffold : file.isScaffold id with
    | false => rfl
    | true => exact (declaration?_of_isScaffold scaffold).symm
  rw [declarations, tree.preorder_eq, List.filterMap_cons, rootless, Forest.ids_contract, meaningful]

theorem Preserved.declarations_eq (preserved : file.Preserved lowered below grown)
    (tree : file.IsTree below) (plain : file.kind? File.root = some .root) :
    lowered.declarations = file.declarations := by
  rw [preserved.tree.declarations_eq (preserved.root plain), tree.declarations_eq plain,
    preserved.contract]
  refine List.filterMap_congr fun id member => ?_
  rw [Forest.ids_contract] at member
  have exists_ := tree.inRange id (List.mem_of_mem_filter member)
  exact declaration?_eq (Prod.ext preserved.id preserved.path) (preserved.kinds id exists_)

/-! ### Bound calls -/

def Fixes (may : NodeKind → Bool) (file other : File) : Prop :=
  ∀ ⦃id : NodeId⦄ ⦃kind : NodeKind⦄, file.kind? id = some kind → may kind = false →
    other.kind? id = some kind

theorem carried_fixes (may : NodeKind → Bool) : Carried (Fixes may) where
  refl _ _ _ found _ := found
  trans first second _ _ found fixed := second (first found fixed) fixed

theorem fixes_wrapEdges (number : Nat) (edges : List (NodeId × NodeId)) :
    file.Fixes may (file.wrapEdges number edges) := by
  induction edges generalizing file number with
  | nil => exact (carried_fixes may).refl file
  | cons edge edges ih =>
    refine (carried_fixes may).trans (fun id kind found _ => ?_) (ih (number + 1))
    rw [kind?_wrapCall, if_neg (Nat.ne_of_lt (lt_of_kind? found)), found]

theorem filePhases_fix {σ : Type} (config : Config) :
    (filePhases.run config : Run σ File PhaseError Unit).Keeps (OnUnits (Fixes may)) := by
  refine filePhases_keep (carried_fixes may) (fun file id kind found _ => ?_)
    (fun file id kind found _ => ?_) (fun file number => fixes_wrapEdges number _) config
  · rw [kind?_flatten, found]
  · rw [kind?_patchLinks, found]

def AllBound (file : File) : Prop :=
  ∀ ⦃id : NodeId⦄, file.Reachable id → ∀ callee, file.kind? id ≠ some (.call callee none)

theorem Bound.allBound {symbols : SymbolTable} (bound : file.Bound symbols other)
    (bindable : ∀ id, file.Reachable id → file.Bindable symbols id) : other.AllBound := by
  intro id reachable callee unbound
  have before := bound.rebound.reachable_iff.mp reachable
  rw [bound.kinds id before] at unbound
  obtain ⟨kind, found, binds⟩ := Option.map_eq_some_iff.mp unbound
  cases kind with
  | call name target =>
    cases target with
    | none =>
      obtain ⟨f, known⟩ := bindable id before name found
      rw [SymbolTable.bind, known] at binds
      cases binds
    | some target => cases binds
  | _ => cases binds

/-- What is reachable and no scaffolding was so before. -/
theorem Preserved.reachable (preserved : file.Preserved lowered below grown)
    (tree : file.IsTree below) (reachable : lowered.Reachable id)
    (meant : lowered.isScaffold id = false) : file.Reachable id := by
  rcases List.mem_cons.mp (preserved.tree.reachable_iff.mp reachable) with rfl | member
  · exact .root
  · refine tree.reachable_iff.mpr (List.mem_cons_of_mem _ ?_)
    have left : id ∈ (grown.contract lowered.isScaffold).ids := by
      rw [Forest.ids_contract]
      exact List.mem_filter.mpr ⟨member, by rw [meant]; rfl⟩
    rw [preserved.contract, Forest.ids_contract] at left
    exact List.mem_of_mem_filter left

theorem Preserved.allBound (preserved : file.Preserved lowered below grown)
    (tree : file.IsTree below) (fixes : file.Fixes (fun _ => false) lowered)
    (bound : file.AllBound) : lowered.AllBound := by
  intro id reachable callee unbound
  have meant : lowered.isScaffold id = false := by
    rw [isScaffold, isBlock, isTemporary, unbound]
    rfl
  have before := preserved.reachable tree reachable meant
  obtain ⟨node, present⟩ := exists_node? before.lt
  have found : file.kind? id = some node.kind := by rw [kind?, present, Option.map_some]
  have same := fixes found rfl
  exact bound before callee (found.trans (same.symm.trans unbound))

theorem bindCalls_of_bound {symbols : SymbolTable} {ids : List NodeId}
    (bound : ∀ id ∈ ids, ∀ callee, file.kind? id ≠ some (.call callee none)) :
    file.bindCalls symbols ids = (file, .ok 0) := by
  fun_induction bindCalls symbols file ids with
  | case1 file => rfl
  | case2 file id rest callee found unknown =>
    exact absurd found (bound id List.mem_cons_self callee)
  | case3 file id rest callee found f known last count ran ih =>
    exact absurd found (bound id List.mem_cons_self callee)
  | case4 file id rest notOpen ih => exact ih fun id member => bound id (List.mem_cons_of_mem _ member)

end File

theorem bindFiles_of_bound {symbols : SymbolTable} {files : List File}
    (bound : ∀ file ∈ files, file.AllBound) : bindFiles symbols files = (files, .ok 0) := by
  induction files with
  | nil => rfl
  | cons file rest ih =>
    rw [List.forall_mem_cons] at bound
    have here : file.bindCalls symbols file.preorder = (file, .ok 0) :=
      File.bindCalls_of_bound fun id member => bound.1 (File.mem_preorder.mp member)
    rw [bindFiles, here, ih bound.2]
    rfl

/-- Binding leaves no reachable call without a target. -/
theorem allBound_of_bindCalls {σ : Type} {state after : State σ Module}
    (ran : bindCalls state = (.ok (), after)) : ∀ file ∈ after.unit.files, file.AllBound := by
  rcases bindCalls_cases state with ⟨bindable, files, count, ended, bound⟩ | ⟨-, failure, last, ended⟩
  · cases ended.symm.trans ran
    intro other member
    obtain ⟨file, fileMember, here⟩ := exists_mem_of_forall₂ bound member
    exact here.allBound (bindable file fileMember)
  · cases ended.symm.trans ran

/-! ### Modules -/

def Module.Fixes (may : NodeKind → Bool) : Module → Module → Prop :=
  Module.FileByFile (File.Fixes may)

theorem Module.carried_fixes (may : NodeKind → Bool) : Carried (Module.Fixes may) :=
  (File.carried_fixes may).fileByFile

namespace Module

variable {m lowered : Module} {spot : FileId × NodeId}

theorem Rebound.fixes {may : NodeKind → Bool} (rebound : m.Rebound may lowered) :
    m.Fixes may lowered :=
  ⟨rebound.1, rebound.2.imp fun _ _ file id kind => file.others id kind⟩

theorem Fixes.kindAt? {may : NodeKind → Bool} (fixes : m.Fixes may lowered) {kind : NodeKind}
    (found : m.kindAt? spot = some kind) (fixed : may kind = false) :
    lowered.kindAt? spot = some kind := by
  unfold Module.kindAt? at found ⊢
  rcases FileByFile.at fixes spot.1 with ⟨none, -⟩ | ⟨file, other, entry, entryAfter, here⟩
  · rw [none] at found
    cases found
  · rw [entry] at found
    rw [entryAfter]
    exact here found fixed

section trees

variable (shaped : ∀ file ∈ m.files, file.PlainTree) (preserves : m.Preserves lowered)

include shaped preserves

theorem Preserves.plainTrees : ∀ file ∈ lowered.files, file.PlainTree := by
  intro other member
  obtain ⟨file, before, kept⟩ := exists_mem_of_forall₂ preserves.2 member
  exact kept.plainTree (shaped file before)

/-- What preserving says of each file, once it is a tree below a plain root. -/
theorem Preserves.preserved :
    m.FileByFile (fun file other => ∃ below grown : Forest, file.IsTree below ∧
      file.kind? File.root = some .root ∧ file.Preserved other below grown) lowered := by
  refine ⟨preserves.1, ((List.forall₂_and_left _ _).mpr ⟨shaped, preserves.2⟩).imp ?_⟩
  rintro file other ⟨⟨treeShaped, plain⟩, kept⟩
  obtain ⟨below, tree⟩ := File.treeShaped_iff.mp treeShaped
  obtain ⟨grown, preserved⟩ := kept below tree plain
  exact ⟨below, grown, tree, plain, preserved⟩

theorem Preserves.declarations_eq : lowered.declarations = m.declarations := by
  have lists : lowered.files.map File.declarations = m.files.map File.declarations := by
    rw [← List.forall₂_eq_eq_eq, List.forall₂_map_left_iff, List.forall₂_map_right_iff]
    refine (preserves.preserved shaped).2.flip.imp fun other file kept => ?_
    obtain ⟨below, grown, tree, plain, preserved⟩ := kept
    exact preserved.declarations_eq tree plain
  unfold Module.declarations
  rw [List.flatMap_def, lists, ← List.flatMap_def]

theorem Preserves.unbound {kind : NodeKind} (found : m.kindAt? spot = some kind) :
    (lowered.kindAt? spot).map NodeKind.unbound = some kind.unbound := by
  unfold kindAt? at found ⊢
  rcases FileByFile.at (preserves.preserved shaped) spot.1 with
    ⟨none, -⟩ | ⟨file, other, entry, entryAfter, below, grown, tree, plain, preserved⟩
  · rw [none] at found
    cases found
  · rw [entry, Option.bind_some] at found
    rw [entryAfter, Option.bind_some, preserved.kinds spot.2 (File.lt_of_kind? found), found]
    rfl

theorem Preserves.allBound (fixes : m.Fixes (fun _ => false) lowered)
    (bound : ∀ file ∈ m.files, file.AllBound) : ∀ file ∈ lowered.files, file.AllBound := by
  intro other member
  obtain ⟨file, before, ⟨below, grown, tree, plain, preserved⟩, fixed⟩ :=
    exists_mem_of_forall₂ (FileByFile.and (preserves.preserved shaped) fixes).2 member
  exact preserved.allBound tree fixed (bound file before)

end trees

end Module
end StagedLowering
