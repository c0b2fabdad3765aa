import Mathlib
import StagedLowering.Proofs.Traces

/-!
# What a successful run guarantees

Files may hold anything below their roots: lists with cycles, shared or missing nodes, stale links,
calls and aliases that are bound already. If the standard pipeline succeeds all the same, the module
is lowered (`Pipeline.run_standard`).
-/

namespace StagedLowering

open Aliases

namespace File

structure Sound (table : SymbolTable) (file : File) : Prop where
  linked : file.WellLinked
  flat : ∀ id, file.Reachable id → file.isBlock id = false
  held : ∀ id, file.Reachable id → file.isCall id = true →
    ∃ parent, file.Reachable parent ∧ file.isTemporary parent = true ∧ id ∈ file.children parent
  filled : file.Filled
  bound : ∀ id callee target, file.Reachable id → file.kind? id = some (.call callee target) →
    ∃ function, target = some function ∧ table.isFunction function = true

variable {file other middle : File} {table : SymbolTable} {id : NodeId}

theorem Lowerable.held (lowerable : file.Lowerable 0) (plain : file.kind? root = some .root)
    (reachable : (file.lowered 0).Reachable id) (call : (file.lowered 0).isCall id = true) :
    ∃ parent, (file.lowered 0).Reachable parent ∧ (file.lowered 0).isTemporary parent = true ∧
      id ∈ (file.lowered 0).children parent := by
  cases reachable with
  | root =>
    obtain ⟨_, same⟩ := lowerable.old .root (isTemporary_of_isCall call)
    obtain ⟨callee, target, kind⟩ := isCall_iff.mp call
    rw [same, plain] at kind
    cases kind
  | @child parent _ above listed exists_ =>
    refine ⟨parent, above, ?_, listed⟩
    by_contra notTemporary
    have exposed : (parent, id) ∈ (file.lowered 0).exposedCalls :=
      mem_exposedCalls.mpr ⟨above, listed, exists_, call, Bool.eq_false_iff.mpr notTemporary⟩
    rw [lowerable.exposedCalls] at exposed
    cases exposed

theorem Lowerable.sound (lowerable : file.Lowerable 0) (plain : file.kind? root = some .root)
    (bound : (file.lowered 0).checkCalls table = .ok ()) : (file.lowered 0).Sound table where
  linked := lowerable.wellLinked
  flat _ reachable := lowerable.isBlock (isBlock_root plain) reachable
  held _ reachable call := lowerable.held plain reachable call
  filled := lowerable.filled
  bound := checkCalls_ok_iff.mp bound

end File

namespace Module

structure Sound (table : SymbolTable) (m : Module) : Prop where
  links : m.checkLinks = .ok ()
  files : ∀ file ∈ m.files, file.Sound table

def AliasesAgree (table : SymbolTable) (m : Module) : Prop :=
  ∀ (i : Nat) (file : File), m.files[i]? = some file →
    ∀ id name target resolved, file.Reachable id →
      file.kind? id = some (.synonym name target resolved) →
      ∃ entry path function, table.lookup name = some entry ∧
        table.get? entry = some ⟨name, .synonym target resolved, ⟨i, path, id⟩⟩ ∧
        resolved = some function ∧ table.isFunction function = true

variable {rounds : Nat} {m resolved : Module} {table : SymbolTable} {files : List File}

theorem Readied.sound (ready : m.Readied rounds table resolved files)
    (rooted : ∀ file ∈ m.files, file.kind? File.root = some .root)
    (lowerable : ∀ file ∈ files, file.Lowerable 0)
    (verified : ({ resolved with files := files.map (File.lowered 0) } : Module).verify table =
      .ok ()) :
    ({ resolved with files := files.map (File.lowered 0) } : Module).Sound table := by
  obtain ⟨links, bound⟩ := verify_ok_iff.mp verified
  refine ⟨links, fun lowered member => ?_⟩
  obtain ⟨other, otherMember, rfl⟩ := List.mem_map.mp member
  obtain ⟨file, fileMember, traced⟩ := exists_mem_of_forall₂ ready.traced otherMember
  have plain := File.kind?_of_unbound_root (traced.rebound.unbound File.root) (rooted file fileMember)
  exact (lowerable other otherMember).sound plain (bound _ member)

/-- An alias that is reachable in the end was collected, and what was written to it stayed. -/
theorem Readied.aliasesAgree (ready : m.Readied rounds table resolved files) (numbered : m.Numbered)
    (lowerable : ∀ file ∈ files, file.Lowerable 0) :
    ({ resolved with files := files.map (File.lowered 0) } : Module).AliasesAgree table := by
  intro i lowered found id name target function reachable kind
  rw [List.getElem?_map] at found
  obtain ⟨other, otherFound, rfl⟩ := Option.map_eq_some_iff.mp found
  obtain ⟨middle, middleFound, bound⟩ := exists_of_forall₂ ready.bound otherFound
  obtain ⟨file, fileFound, rebound⟩ := exists_of_forall₂ ready.rebound.2 middleFound
  have plain : (other.lowered 0).isTemporary id = false := by
    unfold File.isTemporary
    rw [kind]
    rfl
  obtain ⟨repaired, same⟩ := (lowerable other (List.mem_of_getElem? otherFound)).old reachable plain
  have inFile : file.Reachable id := rebound.reachable_iff.mp
    (bound.rebound.reachable_iff.mp (File.reachable_of_repaired repaired))
  have last : other.kind? id = some (.synonym name target function) := same.symm.trans kind
  obtain ⟨before, oldKind⟩ := File.exists_synonym_of_unbound
    ((bound.rebound.unbound id).trans (rebound.unbound id)) last
  have declared : file.declaration? id = some ⟨name, .synonym target none, file.locate id⟩ := by
    unfold File.declaration?
    rw [oldKind]
  have collected := mem_declarations.mpr
    ⟨file, List.mem_of_getElem? fileFound, File.mem_declarations.mpr ⟨id, inFile, declared⟩⟩
  obtain ⟨entry, entryFound⟩ := List.getElem?_of_mem collected
  obtain ⟨known, lookup, get, isFunction, written⟩ := (ready.settled numbered).written entryFound rfl
  have position : file.id = i := numbered i file fileFound
  have spot : (resolved.files[file.id]?).bind (·.kind? id) = some (.synonym name target (some known)) :=
    written
  rw [position, middleFound, Option.bind_some] at spot
  have kept := bound.rebound.others id _ spot rfl
  rw [last] at kept
  cases kept
  refine ⟨entry, file.path, known, lookup, ?_, rfl, isFunction⟩
  rw [get, ← position]
  rfl

end Module

/-- From plain roots a run that succeeds leaves a lowered module. Its aliases agree with the table if
files carry their positions, as `Module.add` leaves them. -/
theorem Pipeline.run_standard {σ : Type} (state : State σ Module)
    (rooted : ∀ file ∈ state.unit.files, file.kind? File.root = some .root)
    (ok : (Pipeline.standard.run state).1 = .ok ()) :
    (Pipeline.standard.run state).2.unit.Sound (Pipeline.standard.run state).2.context.symbols ∧
      (state.unit.Numbered → (Pipeline.standard.run state).2.unit.AliasesAgree
        (Pipeline.standard.run state).2.context.symbols) := by
  have ends := Pipeline.run_ends Pipeline.standard rfl (fun _ => rfl) rfl state
  rw [ok] at ends
  obtain ⟨resolved, files, ready, lowerable, verified, unit⟩ := ends.readied
  rw [unit]
  exact ⟨ready.sound rooted lowerable verified,
    fun numbered => ready.aliasesAgree numbered lowerable⟩

/-- An alias in a file that carries the number of another is resolved in the table and stays as it
was in the file. A node that cannot be reached keeps a link to a node that does not list it. -/
theorem Pipeline.run_standard_astray :
    let shared : State Unit Module := ⟨(), {}, {}, .behindFunction .nearAlias⟩
    let detached : State Unit Module := ⟨(), {}, {}, ⟨"program", [.detached]⟩⟩
    ((∀ file ∈ shared.unit.files, file.kind? File.root = some .root) ∧ ¬ shared.unit.Numbered ∧
      (Pipeline.standard.run shared).1 = .ok () ∧
      ¬ (Pipeline.standard.run shared).2.unit.AliasesAgree
        (Pipeline.standard.run shared).2.context.symbols) ∧
    File.detached.kind? File.root = some .root ∧ (Pipeline.standard.run detached).1 = .ok () ∧
      ∃ file, (Pipeline.standard.run detached).2.unit.files = [file] ∧
        file.parent? 1 = some File.root ∧ 1 ∉ file.children File.root := by
  intro shared detached
  refine ⟨⟨?_, Module.not_numbered_behindFunction rfl, by cbv, fun agree => ?_⟩, rfl, by cbv, ?_⟩
  · intro file member
    rcases List.mem_cons.mp member with rfl | member
    · rfl
    · rw [List.mem_singleton.mp member]
      rfl
  · have second : (Pipeline.standard.run shared).2.unit.files[1]? = some .nearAlias := by cbv
    have reachable : File.nearAlias.Reachable 1 := .child .root (by decide) (by decide)
    obtain ⟨_, _, _, _, _, resolved, _⟩ := agree 1 .nearAlias second 1 _ _ _ reachable rfl
    cases resolved
  · exact ⟨.detached, by cbv, rfl, by decide⟩

/-- A block that lists itself, links that point anywhere, and stale bindings. -/
def File.knotted : File where
  path := "main"
  nodes := #[
    { kind := .root, children := [1, 2] },
    { kind := .synonym "entry" "main" (some 7), parent := some 2 },
    { kind := .function "main", parent := some 1, children := [3] },
    { kind := .block, children := [4, 3] },
    { kind := .call "entry" (some 1), parent := some 9 }]

def State.knotted : State Unit Module := ⟨(), {}, {}, ⟨"program", [File.knotted]⟩⟩

theorem Pipeline.run_standard_knotted :
    (∀ file ∈ State.knotted.unit.files, file.kind? File.root = some .root) ∧
      (Pipeline.standard.run State.knotted).1 = .ok () ∧ State.knotted.unit.Numbered ∧
      (Pipeline.standard.run State.knotted).2.unit.Sound
        (Pipeline.standard.run State.knotted).2.context.symbols ∧
      (Pipeline.standard.run State.knotted).2.unit.AliasesAgree
        (Pipeline.standard.run State.knotted).2.context.symbols := by
  have rooted : ∀ file ∈ State.knotted.unit.files, file.kind? File.root = some .root := by
    intro file member
    rw [List.mem_singleton.mp member]
    rfl
  have ok : (Pipeline.standard.run State.knotted).1 = .ok () := by cbv
  have numbered : State.knotted.unit.Numbered := Module.numbered_singleton rfl
  obtain ⟨sound, agree⟩ := Pipeline.run_standard State.knotted rooted ok
  exact ⟨rooted, ok, numbered, sound, agree numbered⟩

end StagedLowering
