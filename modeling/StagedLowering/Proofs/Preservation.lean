import StagedLowering.Proofs.Binding
import StagedLowering.Proofs.FlatTree
import StagedLowering.Proofs.Wrapping

/-!
# Lowering preserves the program

Blocks and temporaries are scaffolding: a file means the tree that is left when they are contracted.
Every pass keeps that tree, and of the nodes that were there it changes what calls and aliases are
bound to at most (`File.Preserved`). So does a run under any configuration, however it ends
(`Pipeline.run_preserves`).
-/

namespace StagedLowering

namespace File

/-- Nodes that say how a file was written or lowered, not what it means. -/
def isScaffold (file : File) (id : NodeId) : Bool := file.isBlock id || file.isTemporary id

/-- A lowered tree: what was there keeps its kind but for bindings, what is new is a temporary, and
both trees contract to one. -/
structure Preserved (file lowered : File) (below grown : Forest) : Prop where
  tree : lowered.IsTree grown
  id : lowered.id = file.id
  path : lowered.path = file.path
  size : file.size ≤ lowered.size
  kinds : ∀ id < file.size,
    (lowered.kind? id).map NodeKind.unbound = (file.kind? id).map NodeKind.unbound
  added : ∀ id, file.size ≤ id → id < lowered.size → lowered.isTemporary id = true
  contract : grown.contract lowered.isScaffold = below.contract file.isScaffold

def Preserves (file lowered : File) : Prop :=
  ∀ below : Forest, file.IsTree below → file.kind? root = some .root →
    ∃ grown : Forest, file.Preserved lowered below grown

variable {file lowered : File} {below grown : Forest}

theorem isScaffold_of_unbound {another : File} {id : NodeId}
    (same : (another.kind? id).map NodeKind.unbound = (file.kind? id).map NodeKind.unbound) :
    another.isScaffold id = file.isScaffold id := by
  unfold isScaffold
  rw [isBlock_of_unbound same, isTemporary_of_unbound same]

theorem Preserved.root (preserved : file.Preserved lowered below grown)
    (plain : file.kind? root = some .root) : lowered.kind? File.root = some .root :=
  kind?_of_unbound_root (preserved.kinds File.root (root_lt file)) plain

theorem Preserves.plainTree (preserves : file.Preserves lowered) (tree : file.PlainTree) :
    lowered.PlainTree := by
  obtain ⟨below, isTree⟩ := treeShaped_iff.mp tree.shaped
  obtain ⟨grown, preserved⟩ := preserves below isTree tree.plain
  exact ⟨preserved.tree.treeShaped, preserved.root tree.plain⟩

theorem carried_preserves : Carried Preserves where
  refl file below tree _ :=
    ⟨below, tree, rfl, rfl, Nat.le_refl _, fun _ _ => rfl,
      fun _ new old => absurd old (Nat.not_lt.mpr new), rfl⟩
  trans {file middle last} left right below tree plain := by
    obtain ⟨grown, first⟩ := left below tree plain
    obtain ⟨final, second⟩ := right grown first.tree (first.root plain)
    refine ⟨final, second.tree, second.id.trans first.id, second.path.trans first.path,
      Nat.le_trans first.size second.size, fun id exists_ => ?_, fun id new exists_ => ?_,
      second.contract.trans first.contract⟩
    · exact (second.kinds id (Nat.lt_of_lt_of_le exists_ first.size)).trans (first.kinds id exists_)
    · by_cases early : id < middle.size
      · rw [isTemporary_of_unbound (second.kinds id early)]
        exact first.added id new early
      · exact second.added id (Nat.not_lt.mp early) exists_

/-! ### Each pass over a file -/

theorem preserves_of_views (address : lowered.address = file.address)
    (size : lowered.size = file.size) (children : ∀ id, lowered.children id = file.children id)
    (kinds : ∀ id, (lowered.kind? id).map NodeKind.unbound = (file.kind? id).map NodeKind.unbound) :
    file.Preserves lowered := by
  intro below tree _
  obtain ⟨id, path⟩ := Prod.mk.inj address
  refine ⟨below, ⟨tree.spells.congr fun id _ => children id, tree.nodup, ?_⟩, id, path,
    Nat.le_of_eq size.symm, fun id _ => kinds id, fun id new old => ?_, ?_⟩
  · rw [size]
    exact tree.inRange
  · omega
  · exact Forest.contract_congr fun id _ => isScaffold_of_unbound (kinds id)

theorem preserves_flatten (file : File) : file.Preserves file.flatten.1 := by
  intro below tree plain
  obtain ⟨id, path⟩ := Prod.mk.inj (address_flatten file)
  have kinds : ∀ id, (file.flatten.1.kind? id).map NodeKind.unbound =
      (file.kind? id).map NodeKind.unbound := by
    intro id
    rw [kind?_flatten]
  have size := size_flatten file
  refine ⟨_, tree.flatten (isBlock_root plain), id, path, Nat.le_of_eq size.symm,
    fun id _ => kinds id, fun id new old => ?_, ?_⟩
  · omega
  · rw [Forest.contract_contract]
    refine Forest.contract_congr fun id _ => ?_
    rw [isScaffold_of_unbound (kinds id)]
    unfold isScaffold
    cases file.isBlock id
    · rfl
    · rfl

theorem preserves_patchLinks (file : File) : file.Preserves file.patchLinks.1 :=
  preserves_of_views (address_patchLinks file) (size_patchLinks file) (children_patchLinks file)
    fun id => by rw [kind?_patchLinks]

theorem preserves_wrapCalls (file : File) (number : Nat) :
    file.Preserves (file.wrapCalls number) := by
  intro below tree _
  obtain ⟨⟨grown, wrapped⟩, _⟩ := tree.wrapCalls number
  obtain ⟨id, path⟩ := Prod.mk.inj (address_wrapCalls file number)
  have kinds : ∀ id < file.size, ((file.wrapCalls number).kind? id).map NodeKind.unbound =
      (file.kind? id).map NodeKind.unbound := by
    intro id exists_
    rw [wrapped.kinds id exists_]
  refine ⟨grown, wrapped.tree, id, path, wrapped.size, kinds, wrapped.added, ?_⟩
  rw [wrapped.contract]
  · exact Forest.contract_congr fun id member =>
      isScaffold_of_unbound (kinds id (tree.inRange id member))
  · intro id new exists_
    rw [isScaffold, wrapped.added id new exists_, Bool.or_true]

theorem Rebound.preserves {may : NodeKind → Bool} (rebound : file.Rebound may lowered) :
    file.Preserves lowered :=
  preserves_of_views rebound.address rebound.size rebound.children rebound.unbound

end File

/-! ### Each phase -/

variable {σ : Type}

theorem filePhases_preserve (config : Config) :
    (filePhases.run config : Run σ File PhaseError Unit).Keeps (OnUnits File.Preserves) :=
  filePhases_keep File.carried_preserves File.preserves_flatten File.preserves_patchLinks
    File.preserves_wrapCalls config

/-! ### Each phase over a module -/

def Module.Preserves : Module → Module → Prop := Module.FileByFile File.Preserves

theorem Module.carried_preserves : Carried Module.Preserves := File.carried_preserves.fileByFile

theorem Module.Rebound.preserves {m changed : Module} {may : NodeKind → Bool}
    (rebound : m.Rebound may changed) : m.Preserves changed :=
  ⟨rebound.1, rebound.2.imp fun _ _ file => file.preserves⟩

theorem modulePhases_preserve (config : Config) :
    ∀ phase ∈ (modulePhases : PhaseList (ModuleBody σ)).phases,
      (phase.body.run config).Keeps (OnUnits Module.Preserves) := by
  simp only [modulePhases, List.forall_mem_cons]
  refine ⟨fun state => ?_, ?_, fun state => ?_, ?_, ?_, fun state => ?_, ?_⟩
  · show Module.Preserves state.unit (collectDeclarations state).2.unit
    rw [collectDeclarations_unit]
    exact Module.carried_preserves.refl _
  · refine Module.carried_preserves.fixpoint fun state => ?_
    show Module.Preserves state.unit (resolveRound state).2.unit
    rw [resolveRound_apply]
    exact (Module.rebound_resolveAliases _ state.unit 0 _).preserves
  · exact Module.Rebound.preserves (bindCalls_rebound state)
  · exact File.carried_preserves.perFile (filePhases_preserve config)
  · exact Module.carried_preserves.check _ config
  · exact Module.carried_preserves.refl state.unit
  · exact fun _ none => absurd none List.not_mem_nil

/-- Whatever the configuration and however the run ends, the files stay the ones they were, old
nodes keep their kinds but for bindings, new nodes are temporaries, and each file contracts to the
tree it contracted to before. -/
theorem Pipeline.run_preserves {config : Config} {pipeline : Pipeline σ}
    (accepted : Pipeline.of config modulePhases = .ok pipeline) (state : State σ Module)
    (shaped : ∀ file ∈ state.unit.files, file.TreeShaped)
    (rooted : ∀ file ∈ state.unit.files, file.kind? File.root = some .root) :
    List.Forall₂ (fun file lowered =>
        ∃ below grown : Forest, file.IsTree below ∧ file.Preserved lowered below grown)
      state.unit.files (pipeline.run state).2.unit.files := by
  obtain ⟨sameConfig, samePhases⟩ := Pipeline.of_ok accepted
  have keeps : pipeline.run.Keeps (OnUnits Module.Preserves) := by
    refine Pipeline.keeps_run Module.carried_preserves ?_
    rw [sameConfig, samePhases]
    exact modulePhases_preserve config
  have plainTrees : ∀ file ∈ state.unit.files, file.TreeShaped ∧ file.kind? File.root = some .root :=
    fun file member => ⟨shaped file member, rooted file member⟩
  have kept := (List.forall₂_and_left _ _).mpr ⟨plainTrees, (keeps state).2⟩
  refine kept.imp fun file lowered both => ?_
  obtain ⟨⟨treeShaped, plain⟩, preserves⟩ := both
  obtain ⟨below, tree⟩ := File.treeShaped_iff.mp treeShaped
  obtain ⟨grown, preserved⟩ := preserves below tree plain
  exact ⟨below, grown, tree, preserved⟩

def File.selfCall : File where
  path := "main"
  nodes := #[
    { kind := .root, children := [1] },
    { kind := .function "main", parent := some 0, children := [2] },
    { kind := .block, parent := some 1, children := [3] },
    { kind := .call "main" none, parent := some 2 }]

theorem File.isTree_selfCall :
    selfCall.IsTree (.cons 1 (.cons 2 (.cons 3 .nil .nil) .nil) .nil) where
  spells := ⟨rfl, ⟨rfl, ⟨rfl, ⟨rfl, trivial, trivial⟩, trivial⟩, trivial⟩, trivial⟩
  nodup := by decide
  inRange := by decide

theorem Pipeline.run_preserves_selfCall :
    Pipeline.of {} modulePhases = .ok (Pipeline.standard : Pipeline Unit) ∧
      List.Forall₂ (fun file lowered =>
          ∃ below grown : Forest, file.IsTree below ∧ file.Preserved lowered below grown)
        [File.selfCall]
        (Pipeline.standard.run ⟨(), {}, {}, "program", [File.selfCall]⟩).2.unit.files := by
  have accepted : Pipeline.of {} modulePhases = .ok (Pipeline.standard : Pipeline Unit) := rfl
  refine ⟨accepted, Pipeline.run_preserves accepted ⟨(), {}, {}, "program", [File.selfCall]⟩ ?_ ?_⟩
  · intro file member
    rw [List.mem_singleton.mp member]
    exact File.isTree_selfCall.treeShaped
  · intro file member
    rw [List.mem_singleton.mp member]
    rfl

end StagedLowering
