import Mathlib.Data.List.Nodup
import StagedLowering.Proofs.Passes
import StagedLowering.Proofs.Reachable
import StagedLowering.Proofs.Rebinding
import StagedLowering.Proofs.Tables

/-!
# Declared symbols

The symbols that a module declares are read off its nodes, each from a node of its own
(`Module.nodup_spots`). They can be collected exactly if their names are different
(`collectDeclarations_cases`).
-/

namespace StagedLowering

def Symbol.spot (symbol : Symbol) : FileId × NodeId :=
  (symbol.declaredAt.file, symbol.declaredAt.node)

/-- The kind of the node that declares a symbol, before anything was bound. -/
def Symbol.nodeKind (symbol : Symbol) : NodeKind :=
  match symbol.kind with
  | .function => .function symbol.name
  | .synonym target _ => .synonym symbol.name target none

theorem Symbol.nodeKind_of_target {symbol : Symbol} {target : String}
    (some : symbol.target? = some target) : symbol.nodeKind = .synonym symbol.name target none := by
  obtain ⟨name, kind, place⟩ := symbol
  cases kind
  · cases some
  · cases some
    rfl

/-! ### Files -/

namespace File

variable {file : File} {id : NodeId} {symbol : Symbol}

/-- A symbol is read off a node of that name, and no alias is resolved yet. -/
theorem declaration?_some (declared : file.declaration? id = some symbol) :
    symbol.spot = (file.id, id) ∧
      (file.kind? id).map NodeKind.unbound = some symbol.nodeKind ∧
      symbol.resolve none = symbol := by
  unfold declaration? at declared
  split at declared
  · next name kind =>
    cases declared
    exact ⟨rfl, by rw [kind]; rfl, rfl⟩
  · next name target resolved kind =>
    cases declared
    exact ⟨rfl, by rw [kind]; rfl, rfl⟩
  · cases declared

theorem mem_declarations :
    symbol ∈ file.declarations ↔ ∃ id, file.Reachable id ∧ file.declaration? id = some symbol := by
  unfold declarations
  simp only [List.mem_filterMap, mem_preorder]

theorem nodup_spots (file : File) : (file.declarations.map Symbol.spot).Nodup := by
  unfold declarations
  rw [List.map_filterMap]
  refine file.preorder_nodup.filterMap fun id other spot first second => ?_
  obtain ⟨symbol, declared, rfl⟩ := Option.map_eq_some_iff.mp first
  obtain ⟨again, declaredAgain, same⟩ := Option.map_eq_some_iff.mp second
  rw [(declaration?_some declared).1, (declaration?_some declaredAgain).1] at same
  exact (Prod.mk.inj same).2.symm

/-- An alias at a place where the first file has a function. -/
def nearAlias : File where
  path := "b"
  nodes := #[
    { kind := .root, children := [1] },
    { kind := .synonym "alias" "f" none, parent := some 0 }]

/-- An alias at a place where the first file has no node. -/
def farAlias : File where
  path := "b"
  nodes := #[
    { kind := .root, children := [1] },
    { kind := .block, parent := some 0, children := [2] },
    { kind := .synonym "alias" "f" none, parent := some 1 }]

/-- A call and an alias of what is not declared, linked to a root that does not list them. -/
def detached : File where
  path := "detached"
  nodes := #[
    { kind := .root },
    { kind := .call "nowhere" none, parent := some 0 },
    { kind := .synonym "alias" "nowhere" none, parent := some 0 }]

theorem isTree_detached : detached.IsTree .nil :=
  ⟨⟨rfl, trivial, trivial⟩, by decide, by decide⟩

theorem declarations_detached : detached.declarations = [] := by
  refine List.eq_nil_iff_forall_not_mem.mpr fun symbol member => ?_
  obtain ⟨id, reachable, declared⟩ := mem_declarations.mp member
  obtain rfl := List.mem_singleton.mp (isTree_detached.reachable_iff.mp reachable)
  cases declared

end File

/-! ### Modules -/

namespace Module

variable {m : Module} {symbol : Symbol}

def kindAt? (m : Module) (spot : FileId × NodeId) : Option NodeKind :=
  (m.files[spot.1]?).bind (·.kind? spot.2)

theorem mem_declarations :
    symbol ∈ m.declarations ↔ ∃ file ∈ m.files, symbol ∈ file.declarations :=
  List.mem_flatMap

theorem nodup_spots (numbered : m.Numbered) : (m.declarations.map Symbol.spot).Nodup := by
  unfold declarations
  rw [List.map_flatMap, List.nodup_flatMap]
  refine ⟨fun file _ => file.nodup_spots, List.pairwise_iff_getElem.mpr ?_⟩
  intro i j here there before spot first second
  obtain ⟨symbol, member, rfl⟩ := List.mem_map.mp first
  obtain ⟨other, otherMember, same⟩ := List.mem_map.mp second
  obtain ⟨id, _, declared⟩ := File.mem_declarations.mp member
  obtain ⟨otherId, _, otherDeclared⟩ := File.mem_declarations.mp otherMember
  rw [(File.declaration?_some declared).1, (File.declaration?_some otherDeclared).1,
    numbered i _ (List.getElem?_eq_getElem here), numbered j _ (List.getElem?_eq_getElem there)]
    at same
  exact Nat.ne_of_gt before (Prod.mk.inj same).1

theorem kindAt?_spot (numbered : m.Numbered) (member : symbol ∈ m.declarations) :
    (m.kindAt? symbol.spot).map NodeKind.unbound = some symbol.nodeKind := by
  obtain ⟨file, fileMember, member⟩ := mem_declarations.mp member
  obtain ⟨id, _, declared⟩ := File.mem_declarations.mp member
  obtain ⟨spot, kind, _⟩ := File.declaration?_some declared
  obtain ⟨i, found⟩ := List.getElem?_of_mem fileMember
  rw [spot, numbered i file found, kindAt?, found]
  exact kind

theorem numbered_singleton {name : String} {file : File} (first : file.id = 0) :
    ({ name, files := [file] } : Module).Numbered := by
  intro i other found
  cases i with
  | zero =>
    cases found
    exact first
  | succ i => cases found

/-- A file with a function, and a second file, which may carry the number of the first. -/
def behindFunction (second : File) : Module where
  name := "program"
  files := [
    { path := "a", nodes := #[{ kind := .root, children := [1] },
      { kind := .function "f", parent := some 0 }] },
    second]

theorem not_numbered_behindFunction {second : File} (zero : second.id = 0) :
    ¬ (behindFunction second).Numbered := by
  intro numbered
  have one : second.id = 1 := numbered 1 second rfl
  exact absurd (zero.symm.trans one) (by decide)

theorem resolve_none (member : symbol ∈ m.declarations) : symbol.resolve none = symbol := by
  obtain ⟨file, _, member⟩ := mem_declarations.mp member
  obtain ⟨id, _, declared⟩ := File.mem_declarations.mp member
  exact (File.declaration?_some declared).2.2

end Module

/-! ### The phase -/

/-- Collecting into an empty table succeeds exactly if all names are different. -/
theorem collectDeclarations_cases {σ : Type} {state : State σ Module}
    (fresh : state.context.symbols = {}) :
    ((state.unit.declarations.map (·.name)).Nodup ∧ ∃ table statistics,
        collectDeclarations state =
          (.ok (), { state with context := { state.context with symbols := table, statistics } }) ∧
        table.Indexed ∧ table.entries.toList = state.unit.declarations) ∨
      (¬ (state.unit.declarations.map (·.name)).Nodup ∧ ∃ failure last,
        collectDeclarations state = (.error (.error failure), last)) := by
  rw [collectDeclarations_apply, fresh]
  rcases SymbolTable.declareAll_cases SymbolTable.indexed_empty state.unit.declarations with
    ⟨distinct, table, declared, all⟩ | ⟨table, before, symbol, earlier, declared, clash⟩
  · rw [declared]
    exact .inl ⟨distinct, table, _, rfl, all.indexed, all.entries⟩
  · obtain ⟨holder, held, -⟩ := clash.taken
    rw [declared]
    dsimp only
    rw [held]
    exact .inr ⟨clash.not_nodup, _, _, rfl⟩

end StagedLowering
