import Mathlib
import StagedLowering.Proofs.Acceptance
import StagedLowering.Proofs.Tallies

/-!
# Statistics that balance

The counters of a run are kept by different phases over different walks, before and after files
are restructured. When a run over raw files whose links are in order succeeds they agree with each
other and with what is reachable in the input (`Pipeline.statistics_balance`).
-/

namespace StagedLowering

/-- The counters agree with each other and with what is reachable in the module `m` that a run was
prepared. -/
structure Context.Balances (context : Context) (m : Module) : Prop where
  symbols : context.statistic "symbols" =
    context.statistic "functions" + context.statistic "aliases"
  calls : context.statistic "calls" = context.statistic "calls_bound"
  temporaries : context.statistic "calls_bound" = context.statistic "temporaries"
  blocks : context.statistic "blocks_flattened" = m.kinds.countP (·.isBlock)
  links : context.statistic "parents_patched" = (m.files.map (·.blockContents.length)).sum
  nodes : context.statistic "nodes" + context.statistic "blocks_flattened" =
    m.kinds.length + context.statistic "temporaries"

namespace File

variable {file other : File} {may : NodeKind → Bool}

/-! ### Rebound files -/

namespace Rebound

variable (rebound : file.Rebound may other)

include rebound

theorem preorder_eq : other.preorder = file.preorder :=
  preorder_congr rebound.size rebound.children

theorem kinds_unbound : other.kinds.map NodeKind.unbound = file.kinds.map NodeKind.unbound := by
  rw [kinds, kinds, List.map_filterMap, List.map_filterMap, rebound.preorder_eq]
  exact List.filterMap_congr fun id _ => rebound.unbound id

/-- What a kind is bound to does not matter for what is counted. -/
theorem countP_kinds {holds : NodeKind → Bool} (blind : ∀ kind, holds kind.unbound = holds kind) :
    other.kinds.countP holds = file.kinds.countP holds := by
  have read (file : File) : file.kinds.countP holds = (file.kinds.map NodeKind.unbound).countP holds := by
    rw [List.countP_map]
    exact List.countP_congr fun kind _ => by rw [Function.comp_apply, blind]
  rw [read other, read file, rebound.kinds_unbound]

theorem wellLinked (linked : file.WellLinked) : other.WellLinked where
  rootUnset := by rw [← parent?_root, rebound.parent?, parent?_root, linked.rootUnset]
  shaped := rebound.treeShaped linked.shaped
  links {parent child} reachable listed := by
    rw [rebound.children] at listed
    rw [rebound.parent?]
    exact linked.links (rebound.reachable_iff.mp reachable) listed

theorem blockContents_eq : other.blockContents = file.blockContents := by
  have blocks (id : NodeId) : other.isBlock id = file.isBlock id :=
    isBlock_of_unbound (rebound.unbound id)
  unfold blockContents inBlock
  simp only [rebound.preorder_eq, blocks, rebound.children]

end Rebound

/-- Resolving aliases leaves every call of a raw file as it is, without a target. -/
theorem Raw.countP_isOpen (raw : file.Raw) (rebound : file.Rebound NodeKind.isSynonym other) :
    other.kinds.countP (·.isOpen) = file.kinds.countP (·.isCall) := by
  rw [File.countP_kinds, File.countP_kinds, rebound.preorder_eq]
  refine List.countP_congr fun id member => ?_
  rcases found : file.kind? id with _ | kind
  · have none := rebound.unbound id
    rw [found, Option.map_none, Option.map_eq_none_iff] at none
    rw [none]
    rfl
  · cases synonym : kind.isSynonym with
    | false =>
      rw [rebound.others id kind found synonym, Option.any_some, Option.any_some]
      cases kind with
      | call callee target =>
        rw [raw.unbound id callee target (mem_preorder.mp member) found]
        rfl
      | _ => rfl
    | true =>
      have same := rebound.unbound id
      rw [found, Option.map_some, Option.map_eq_some_iff] at same
      obtain ⟨another, foundOther, unbound⟩ := same
      rw [foundOther]
      cases kind <;> cases synonym
      obtain ⟨resolved, rfl⟩ := NodeKind.unbound_eq_synonym unbound
      rfl

/-! ### One file -/

/-- A raw file with its links in order, and what was made of it before it is lowered. -/
structure Prepared (file bound : File) : Prop where
  raw : file.Raw
  linked : file.WellLinked
  rebound : file.Rebound (fun _ => true) bound

namespace Prepared

variable {bound : File} (prepared : file.Prepared bound)

include prepared

theorem plain : bound.kind? root = some .root :=
  kind?_of_unbound_root (prepared.rebound.unbound root) prepared.raw.plain

theorem flatten_count : bound.flatten.2 = file.kinds.countP (·.isBlock) := by
  rw [File.flatten_count (isBlock_root prepared.plain)]
  exact prepared.rebound.countP_kinds fun kind => by cases kind <;> rfl

theorem patched_flatten : bound.flatten.1.patchLinks.2 = file.blockContents.length := by
  rw [(prepared.rebound.wellLinked prepared.linked).patched_flatten (isBlock_root prepared.plain),
    prepared.rebound.blockContents_eq]

theorem length_exposedCalls : bound.repaired.exposedCalls.length = file.kinds.countP (·.isCall) := by
  obtain ⟨below, tree⟩ := treeShaped_iff.mp (prepared.rebound.treeShaped prepared.raw.shaped)
  have fresh : ∀ id, bound.Reachable id → bound.isTemporary id = false := by
    intro id reachable
    rw [isTemporary_of_unbound (prepared.rebound.unbound id)]
    exact prepared.raw.noTemporary id (prepared.rebound.reachable_iff.mp reachable)
  rw [tree.length_exposedCalls_repaired prepared.plain fresh]
  exact prepared.rebound.countP_kinds fun kind => by cases kind <;> rfl

theorem kinds_lowered : (bound.lowered 0).kinds.Perm
    (temporaries 0 (file.kinds.countP (·.isCall)) ++ bound.kinds.filter (!·.isBlock)) := by
  obtain ⟨below, tree⟩ := treeShaped_iff.mp (prepared.rebound.treeShaped prepared.raw.shaped)
  rw [← prepared.length_exposedCalls]
  exact tree.kinds_lowered (isBlock_root prepared.plain) 0

/-- Lowering keeps the number of nodes that are neither blocks nor temporaries, whatever they are. -/
theorem countP_lowered {holds : NodeKind → Bool} (blind : ∀ kind, holds kind.unbound = holds kind)
    (noBlock : holds .block = false) (noTemporary : ∀ name, holds (.temporary name) = false) :
    (bound.lowered 0).kinds.countP holds = file.kinds.countP holds := by
  have new : (temporaries 0 (file.kinds.countP (·.isCall))).countP holds = 0 := by
    rw [temporaries, List.countP_map, List.countP_eq_zero]
    exact fun _ _ => by simp [noTemporary]
  rw [prepared.kinds_lowered.countP_eq, List.countP_append, new, Nat.zero_add, List.countP_filter,
    ← prepared.rebound.countP_kinds blind]
  refine List.countP_congr fun kind _ => ?_
  cases kind <;> simp [NodeKind.isBlock, noBlock]

theorem length_lowered : (bound.lowered 0).kinds.length + bound.flatten.2 =
    file.kinds.length + file.kinds.countP (·.isCall) := by
  have blocks : bound.kinds.countP (·.isBlock) = file.kinds.countP (·.isBlock) :=
    prepared.rebound.countP_kinds fun kind => by cases kind <;> rfl
  have lengths : bound.kinds.length = file.kinds.length := by
    simpa using congrArg List.length prepared.rebound.kinds_unbound
  have split := List.length_eq_countP_add_countP (·.isBlock) (l := bound.kinds)
  rw [prepared.flatten_count, prepared.kinds_lowered.length_eq, List.length_append,
    ← List.countP_eq_length_filter]
  simp only [temporaries, List.length_map, List.length_range']
  simp at split
  omega

end Prepared

/-- A file declares as many symbols as functions and aliases are reachable in it. -/
theorem length_declarations (file : File) : file.declarations.length =
    file.kinds.countP (·.isFunction) + file.kinds.countP (·.isSynonym) := by
  rw [declarations, countP_kinds, countP_kinds]
  induction file.preorder with
  | nil => rfl
  | cons id ids ih =>
    have one : (file.declaration? id).isSome =
        ((file.kind? id).any (·.isFunction) || (file.kind? id).any (·.isSynonym)) := by
      unfold declaration?
      rcases file.kind? id with _ | kind
      · rfl
      · cases kind <;> rfl
    have apart : ((file.kind? id).any (·.isFunction) && (file.kind? id).any (·.isSynonym)) = false := by
      rcases file.kind? id with _ | kind
      · rfl
      · cases kind <;> rfl
    rw [List.filterMap_cons, List.countP_cons, List.countP_cons]
    grind

end File

/-! ### All files -/

theorem sum_map_of_forall₂ {α β : Type} {R : α → β → Prop} {first : List α} {last : List β}
    (related : List.Forall₂ R first last) {f : α → Nat} {g : β → Nat}
    (same : ∀ {a b}, R a b → g b = f a) : (last.map g).sum = (first.map f).sum := by
  induction related with
  | nil => rfl
  | cons here _ ih => rw [List.map_cons, List.map_cons, List.sum_cons, List.sum_cons, same here, ih]

theorem Module.length_declarations (m : Module) : m.declarations.length =
    m.kinds.countP (·.isFunction) + m.kinds.countP (·.isSynonym) := by
  rw [declarations, List.length_flatMap, countP_kinds, countP_kinds, ← List.sum_map_add]
  exact congrArg List.sum (List.map_congr_left fun file _ => file.length_declarations)

theorem Module.length_kinds (m : Module) : m.kinds.length = (m.files.map (·.kinds.length)).sum := by
  rw [Module.kinds, List.length_flatMap]

variable {m resolved bound last : Module} {context : Context}

namespace Accounts

variable (accounts : Accounts m resolved bound last context)

include accounts

theorem prepared (raw : ∀ file ∈ m.files, file.Raw) (linked : m.checkLinks = .ok ()) :
    List.Forall₂ File.Prepared m.files bound.files := by
  have wide (may : NodeKind → Bool) {m other : Module} (rebound : m.Rebound may other) :
      m.Rebound (fun _ => true) other :=
    ⟨rebound.1, rebound.2.imp fun _ _ file => file.mono fun _ impossible => nomatch impossible⟩
  have rebound := (Module.carried_rebound _).trans (wide _ accounts.resolving)
    (wide _ accounts.binding)
  have given : ∀ file ∈ m.files, file.Raw ∧ file.WellLinked :=
    fun file member => ⟨raw file member, Module.checkLinks_ok_iff.mp linked file member⟩
  refine ((List.forall₂_and_left _ _).mpr ⟨given, rebound.2⟩).imp ?_
  rintro file other ⟨⟨raw, linked⟩, rebound⟩
  exact ⟨raw, linked, rebound⟩

/-- Kinds that lowering neither takes out nor puts in are as many in the end as they were. -/
theorem countP_last (prepared : List.Forall₂ File.Prepared m.files bound.files)
    {holds : NodeKind → Bool} (blind : ∀ kind, holds kind.unbound = holds kind)
    (noBlock : holds .block = false) (noTemporary : ∀ name, holds (.temporary name) = false) :
    last.kinds.countP holds = m.kinds.countP holds := by
  rw [Module.countP_kinds, Module.countP_kinds, accounts.lowering, List.map_map]
  exact sum_map_of_forall₂ prepared fun file => file.countP_lowered blind noBlock noTemporary

theorem balances (raw : ∀ file ∈ m.files, file.Raw) (linked : m.checkLinks = .ok ()) :
    context.Balances m := by
  have prepared := accounts.prepared raw linked
  have functions : last.kinds.countP (·.isFunction) = m.kinds.countP (·.isFunction) :=
    accounts.countP_last prepared (fun kind => by cases kind <;> rfl) rfl fun _ => rfl
  have aliases : last.kinds.countP (·.isSynonym) = m.kinds.countP (·.isSynonym) :=
    accounts.countP_last prepared (fun kind => by cases kind <;> rfl) rfl fun _ => rfl
  have calls : last.kinds.countP (·.isCall) = m.kinds.countP (·.isCall) :=
    accounts.countP_last prepared (fun kind => by cases kind <;> rfl) rfl fun _ => rfl
  have bound : context.statistic "calls_bound" = m.kinds.countP (·.isCall) := by
    rw [accounts.callsBound, Module.countP_kinds, Module.countP_kinds]
    refine sum_map_of_forall₂ (R := fun file other => file.Raw ∧ file.Rebound NodeKind.isSynonym other)
      ((List.forall₂_and_left _ _).mpr ⟨raw, accounts.resolving.2⟩) fun both => ?_
    exact both.1.countP_isOpen both.2
  have temporaries : context.statistic "temporaries" = m.kinds.countP (·.isCall) := by
    rw [accounts.temporaries, Module.countP_kinds]
    exact sum_map_of_forall₂ prepared fun file => file.length_exposedCalls
  have blocks : context.statistic "blocks_flattened" = m.kinds.countP (·.isBlock) := by
    rw [accounts.blocksFlattened, Module.countP_kinds]
    exact sum_map_of_forall₂ prepared fun file => file.flatten_count
  exact {
    symbols := by
      rw [accounts.symbols, accounts.functions, accounts.aliases, functions, aliases,
        m.length_declarations]
    calls := by rw [accounts.calls, calls, bound]
    temporaries := by rw [bound, temporaries]
    blocks := blocks
    links := by
      rw [accounts.parentsPatched]
      exact sum_map_of_forall₂ prepared fun file => file.patched_flatten
    nodes := by
      rw [accounts.nodes, accounts.blocksFlattened, temporaries, Module.length_kinds,
        Module.length_kinds, Module.countP_kinds, accounts.lowering, List.map_map,
        ← List.sum_map_add, ← List.sum_map_add]
      exact sum_map_of_forall₂ prepared fun file => file.length_lowered }

end Accounts

/-! ### The run -/

/-- If a run of the standard pipeline over raw files whose links are in order succeeds, its counters
agree with each other and with what is reachable in those files. -/
theorem Pipeline.statistics_balance {σ : Type} (state : State σ Module)
    (raw : ∀ file ∈ state.unit.files, file.Raw) (linked : state.unit.checkLinks = .ok ())
    (succeeds : (Pipeline.standard.run state).1 = .ok ()) :
    (Pipeline.standard.run state).2.context.Balances state.unit := by
  obtain ⟨resolved, bound, accounts⟩ := Pipeline.run_accounts (Prod.ext succeeds rfl)
  exact accounts.balances raw linked

def File.nested : File where
  path := "main"
  nodes := #[
    { kind := .root, children := [1, 2] },
    { kind := .synonym "entry" "main" none, parent := some 0 },
    { kind := .function "main", parent := some 0, children := [3] },
    { kind := .block, parent := some 2, children := [4] },
    { kind := .block, parent := some 3, children := [5] },
    { kind := .call "entry" none, parent := some 4 }]

theorem File.wellLinked_nested : nested.WellLinked := checkLinks_ok_iff.mp (by cbv)

theorem File.raw_nested : nested.Raw where
  shaped := wellLinked_nested.shaped
  plain := rfl
  unlinked := rfl
  noTemporary id reachable := by
    have all : ∀ id < 6, nested.isTemporary id = false := by decide
    exact all id reachable.lt
  unbound id callee target reachable kind := by
    have all : ∀ id < 6, nested.isCall id = true → id = 5 := by decide
    have isLast := all id reachable.lt (isCall_iff.mpr ⟨callee, target, kind⟩)
    rw [isLast] at kind
    cases kind
    rfl

theorem Pipeline.statistics_balance_nested :
    let state : State Unit Module := ⟨(), {}, {}, "program", [File.nested]⟩
    (∀ file ∈ state.unit.files, file.Raw) ∧ state.unit.checkLinks = .ok () ∧
      (Pipeline.standard.run state).1 = .ok () ∧
      (Pipeline.standard.run state).2.context.Balances state.unit := by
  intro state
  have raw : ∀ file ∈ state.unit.files, file.Raw := by
    intro file member
    rw [List.mem_singleton.mp member]
    exact File.raw_nested
  have linked : state.unit.checkLinks = .ok () := by cbv
  have succeeds : (Pipeline.standard.run state).1 = .ok () := by cbv
  exact ⟨raw, linked, succeeds, Pipeline.statistics_balance state raw linked succeeds⟩

end StagedLowering
