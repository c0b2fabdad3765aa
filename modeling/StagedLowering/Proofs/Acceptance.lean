import Mathlib
import StagedLowering.Proofs.Traces

/-!
# What the standard pipeline accepts

A raw module has not been lowered yet. `Pipeline.run_bounded` says exactly which raw modules the
standard phases accept under a bound on rounds, in which phase they refuse the others, and what the
calls of an accepted module are bound to.
-/

namespace StagedLowering

open Aliases

/-- A tree under a plain root without a parent link that holds no temporary and no bound call. Parent
links below the root may be anything. -/
structure File.Raw (file : File) : Prop where
  shaped : file.TreeShaped
  plain : file.kind? root = some .root
  unlinked : file.parent? root = none
  noTemporary : ∀ id, file.Reachable id → file.isTemporary id = false
  unbound : ∀ id callee target, file.Reachable id →
    file.kind? id = some (.call callee target) → target = none

structure Module.Raw (m : Module) : Prop where
  numbered : m.Numbered
  files : ∀ file ∈ m.files, file.Raw

def Module.CalleesDeclared (m : Module) : Prop :=
  ∀ file ∈ m.files, ∀ id callee target, file.Reachable id →
    file.kind? id = some (.call callee target) → Declared m.declarations callee

structure Module.Acceptable (bound : Nat) (m : Module) : Prop where
  distinct : (m.declarations.map (·.name)).Nodup
  targets : TargetsDeclared m.declarations
  settles : Settles m.declarations bound
  callees : m.CalleesDeclared

def Module.CallsStandFor (symbols : List Symbol) (m : Module) : Prop :=
  ∀ file ∈ m.files, ∀ id callee target, file.Reachable id →
    file.kind? id = some (.call callee target) →
    ∃ function, target = some function ∧ StandsFor symbols callee function

def FailsIn (phase : PhaseId) (result : Except (Stop PhaseError) Unit) : Prop :=
  ∃ error : PhaseError, result = .error (.error error) ∧ error.phase = phase

/-- How a run over a raw module ends under a bound on rounds, and what it leaves if it succeeds. -/
structure Module.Judged (bound : Nat) (m : Module) (result : Except (Stop PhaseError) Unit)
    (table : SymbolTable) (last : Module) : Prop where
  ok_iff : result = .ok () ↔ m.Acceptable bound
  names : result = .ok () →
    ∀ i : SymbolId, (table.get? i).map (·.name) = (m.declarations[i]?).map (·.name)
  calls : result = .ok () → last.CallsStandFor m.declarations
  clashing : ¬ (m.declarations.map (·.name)).Nodup → FailsIn "collect_declarations" result
  astray : (m.declarations.map (·.name)).Nodup →
    ¬ (TargetsDeclared m.declarations ∧ Settles m.declarations bound) →
      FailsIn "resolve_aliases" result
  unknown : (m.declarations.map (·.name)).Nodup → TargetsDeclared m.declarations →
    Settles m.declarations bound → ¬ m.CalleesDeclared → FailsIn "resolve_calls" result

variable {bound : Nat} {m resolved : Module} {table : SymbolTable} {files : List File}

/-! ### Raw files on their way -/

theorem Module.Raw.bindable_iff (raw : m.Raw) (done : m.Resolved bound table resolved) :
    (∀ file ∈ resolved.files, ∀ id, file.Reachable id → file.Bindable table id) ↔
      m.CalleesDeclared := by
  have settled := done.settled raw.numbered
  constructor
  · intro bindable file member id callee target reachable kind
    obtain ⟨later, laterMember, rebound⟩ := exists_mem_of_forall₂ (R := fun later file =>
      file.Rebound NodeKind.isSynonym later) done.rebound.2.flip member
    cases (raw.files file member).unbound id callee target reachable kind
    have laterKind := rebound.others id _ kind rfl
    exact settled.exists_functionFor.mp
      (bindable later laterMember id (rebound.reachable_iff.mpr reachable) callee laterKind)
  · intro declared later laterMember id reachable callee laterKind
    obtain ⟨file, member, rebound⟩ := exists_mem_of_forall₂ done.rebound.2 laterMember
    obtain ⟨target, found⟩ := File.exists_call_of_unbound (rebound.unbound id) laterKind
    exact settled.exists_functionFor.mpr
      (declared file member id callee target (rebound.reachable_iff.mp reachable) found)

theorem File.Raw.lowerable {file other : File} (raw : file.Raw) (traced : file.Traced table other) :
    other.Lowerable 0 := by
  obtain ⟨rebound, _⟩ := traced
  refine lowerable_of_tree (rebound.treeShaped raw.shaped)
    (kind?_of_unbound_root (rebound.unbound root) raw.plain)
    ((rebound.parent? root).trans raw.unlinked) (fun id reachable => ?_) 0
  rw [isTemporary_of_unbound (rebound.unbound id)]
  exact raw.noTemporary id (rebound.reachable_iff.mp reachable)

namespace Module.Raw

variable (raw : m.Raw) (ready : m.Readied bound table resolved files)

include raw ready

theorem lowerable : ∀ file ∈ files, file.Lowerable 0 := by
  intro other otherMember
  obtain ⟨file, member, traced⟩ := exists_mem_of_forall₂ ready.traced otherMember
  exact (raw.files file member).lowerable traced

theorem callsStandFor :
    ({ resolved with files := files.map (File.lowered 0) } : Module).CallsStandFor
      m.declarations := by
  intro lowered loweredMember id callee target reachable kind
  obtain ⟨file, member, callsFrom⟩ :=
    exists_mem_of_forall₂ (ready.callsFrom (raw.lowerable ready)) loweredMember
  obtain ⟨before, old, found, rfl⟩ := callsFrom id callee target reachable kind
  cases (raw.files file member).unbound id callee old before found
  have declared := (raw.bindable_iff ready.toResolved).mp ready.bindable
    file member id callee none before found
  have settled := ready.settled raw.numbered
  obtain ⟨function, known⟩ := settled.exists_functionFor.mpr declared
  exact ⟨function, known, (settled.functionFor_iff ready.distinct).mp known⟩

/-- Once the calls are bound nothing can fail any more. -/
theorem verified :
    ({ resolved with files := files.map (File.lowered 0) } : Module).verify table = .ok () := by
  have lowerable := raw.lowerable ready
  refine Module.verify_ok_iff.mpr ⟨(forM_ok_iff _ _).mpr fun lowered member => ?_,
    fun lowered member => File.checkCalls_ok_iff.mpr fun id callee target reachable kind => ?_⟩
  · obtain ⟨file, fileMember, rfl⟩ := List.mem_map.mp member
    exact File.checkLinks_ok_iff.mpr (lowerable file fileMember).wellLinked
  · obtain ⟨function, bound, stands⟩ :=
      raw.callsStandFor ready lowered member id callee target reachable kind
    exact ⟨function, bound,
      (ready.settled raw.numbered).isFunction_iff.mpr stands.isFunction⟩

end Module.Raw

/-! ### The verdict -/

def Pipeline.bounded {σ : Type} (bound : Nat) : Pipeline σ where
  config := { maxIterations := bound }
  phases := modulePhases
  accepted := rfl

theorem Module.Raw.judged {result : Except (Stop PhaseError) Unit} {last : Module} (raw : m.Raw)
    (ends : Ends bound m result table last) : m.Judged bound result table last := by
  cases ends with
  | clashing clash phase =>
    exact {
      ok_iff := ⟨nofun, fun acceptable => absurd acceptable.distinct clash⟩
      names := nofun
      calls := nofun
      clashing := fun _ => ⟨_, rfl, phase⟩
      astray := fun distinct => absurd distinct clash
      unknown := fun distinct => absurd distinct clash }
  | astray distinct astray =>
    obtain ⟨not, error, rfl, phase⟩ := astray raw.numbered
    rw [allLead_iff distinct] at not
    exact {
      ok_iff := ⟨nofun, fun acceptable => absurd ⟨acceptable.targets, acceptable.settles⟩ not⟩
      names := nofun
      calls := nofun
      clashing := fun clash => absurd distinct clash
      astray := fun _ _ => ⟨error, rfl, phase⟩
      unknown := fun _ targets settles => absurd ⟨targets, settles⟩ not }
  | stuck done stuck phase =>
    have lead := (allLead_iff done.distinct).mp (done.lead raw.numbered)
    have undeclared : ¬ m.CalleesDeclared := by
      intro declared
      obtain ⟨file, member, id, reachable, not⟩ := stuck
      exact not ((raw.bindable_iff done).mpr declared file member id reachable)
    exact {
      ok_iff := ⟨nofun, fun acceptable => absurd acceptable.callees undeclared⟩
      names := nofun
      calls := nofun
      clashing := fun clash => absurd done.distinct clash
      astray := fun _ not => absurd lead not
      unknown := fun _ _ _ _ => ⟨_, rfl, phase⟩ }
  | refused ready refused phase =>
    obtain ⟨file, member, not⟩ := refused
    exact absurd (raw.lowerable ready file member) not
  | unverified ready lowerable violated phase => exact absurd (raw.verified ready) violated
  | lowered ready lowerable verified =>
    have lead := (allLead_iff ready.distinct).mp (ready.lead raw.numbered)
    have declared := (raw.bindable_iff ready.toResolved).mp ready.bindable
    exact {
      ok_iff := ⟨fun _ => ⟨ready.distinct, lead.1, lead.2, declared⟩, fun _ => rfl⟩
      names := fun _ => (ready.settled raw.numbered).names
      calls := fun _ => raw.callsStandFor ready
      clashing := fun clash => absurd ready.distinct clash
      astray := fun _ not => absurd lead not
      unknown := fun _ _ _ not => absurd declared not }

/-- A run over a module that can be judged comes to no fault. -/
theorem Module.Judged.returned {result : Except (Stop PhaseError) Unit} {last : Module}
    (judged : m.Judged bound result table last) : result ≠ .error .fault := by
  rintro rfl
  have refused {phase : PhaseId} : ¬ FailsIn phase (.error .fault) := by
    rintro ⟨_, impossible, _⟩
    cases impossible
  by_cases distinct : (m.declarations.map (·.name)).Nodup
  · by_cases lead : TargetsDeclared m.declarations ∧ Settles m.declarations bound
    · by_cases callees : m.CalleesDeclared
      · cases judged.ok_iff.mpr ⟨distinct, lead.1, lead.2, callees⟩
      · exact refused (judged.unknown distinct lead.1 lead.2 callees)
    · exact refused (judged.astray distinct lead)
  · exact refused (judged.clashing distinct)

/-- Which raw modules are accepted, in which phase the others are refused, and what calls are bound
to. -/
theorem Pipeline.run_bounded {σ : Type} {bound : Nat} (positive : 1 ≤ bound)
    (state : State σ Module) (raw : state.unit.Raw) :
    state.unit.Judged bound ((Pipeline.bounded bound).run state).1
      ((Pipeline.bounded bound).run state).2.context.symbols
      ((Pipeline.bounded bound).run state).2.unit := by
  have ends := Pipeline.run_ends (Pipeline.bounded bound) rfl (fun _ => rfl) rfl state
  have rounds : max (Pipeline.bounded (σ := σ) bound).config.maxIterations 1 = bound :=
    Nat.max_eq_left positive
  rw [rounds] at ends
  exact raw.judged ends

theorem File.IsTree.raw {file : File} {below : Forest} (tree : file.IsTree below)
    (plain : file.kind? root = some .root) (unlinked : file.parent? root = none)
    (noTemporary : ∀ id < file.size, file.isTemporary id = false)
    (fresh : ∀ id < file.size, (file.kind? id).map NodeKind.unbound = file.kind? id) : file.Raw where
  shaped := tree.treeShaped
  plain := plain
  unlinked := unlinked
  noTemporary id reachable := noTemporary id reachable.lt
  unbound id callee target reachable kind := by
    have same := fresh id reachable.lt
    rw [kind] at same
    cases same
    rfl

/-- A file that carries the number of another may send a resolved alias to a node that is not there.
A callee that is not declared does no harm in a call that cannot be reached. -/
theorem Pipeline.run_bounded_astray :
    let shared : State Unit Module := ⟨(), {}, {}, .behindFunction .farAlias⟩
    let detached : State Unit Module := ⟨(), {}, {}, ⟨"program", [.detached]⟩⟩
    ((∀ file ∈ shared.unit.files, file.Raw) ∧ ¬ shared.unit.Numbered ∧
      ((Pipeline.bounded 1).run shared).1 = .error .fault ∧
      ¬ shared.unit.Judged 1 ((Pipeline.bounded 1).run shared).1
        ((Pipeline.bounded 1).run shared).2.context.symbols
        ((Pipeline.bounded 1).run shared).2.unit) ∧
    detached.unit.Raw ∧ ((Pipeline.bounded 1).run detached).1 = .ok () ∧
      File.detached.kind? 1 = some (.call "nowhere" none) ∧
      ¬ Declared detached.unit.declarations "nowhere" := by
  intro shared detached
  have fault : ((Pipeline.bounded 1).run shared).1 = .error .fault := by cbv
  refine ⟨⟨?_, Module.not_numbered_behindFunction rfl, fault, fun judged => judged.returned fault⟩,
    ⟨Module.numbered_singleton rfl, ?_⟩, by cbv, rfl, Module.not_declared_detached _ _⟩
  · intro file member
    rcases List.mem_cons.mp member with rfl | member
    · have tree : ({ path := "a", nodes := #[{ kind := .root, children := [1] },
          { kind := .function "f", parent := some 0 }] } : File).IsTree (.cons 1 .nil .nil) :=
        ⟨⟨rfl, ⟨rfl, trivial, trivial⟩, trivial⟩, by decide, by decide⟩
      exact tree.raw rfl rfl (by decide) (by decide)
    · rw [List.mem_singleton.mp member]
      have tree : File.farAlias.IsTree (.cons 1 (.cons 2 .nil .nil) .nil) :=
        ⟨⟨rfl, ⟨rfl, ⟨rfl, trivial, trivial⟩, trivial⟩, trivial⟩, by decide, by decide⟩
      exact tree.raw rfl rfl (by decide) (by decide)
  · intro file member
    rw [List.mem_singleton.mp member]
    exact File.isTree_detached.raw rfl rfl (by decide) (by decide)

def File.aliased : File where
  path := "main"
  nodes := #[
    { kind := .root, children := [1, 2] },
    { kind := .synonym "entry" "main" none, parent := some 0 },
    { kind := .function "main", parent := some 0, children := [3] },
    { kind := .call "entry" none }]

theorem File.raw_aliased : aliased.Raw := by
  have tree : aliased.IsTree (.cons 1 .nil (.cons 2 (.cons 3 .nil .nil) .nil)) :=
    ⟨⟨rfl, ⟨rfl, trivial, ⟨rfl, ⟨rfl, trivial, trivial⟩, trivial⟩⟩, trivial⟩, by decide, by decide⟩
  exact tree.raw rfl rfl (by decide) (by decide)

def Module.aliased : Module where
  name := "program"
  files := [File.aliased]

theorem Module.raw_aliased : aliased.Raw where
  numbered := numbered_singleton rfl
  files file member := by
    rw [List.mem_singleton.mp member]
    exact File.raw_aliased

theorem Pipeline.run_bounded_aliased :
    1 ≤ 1 ∧ Module.aliased.Raw ∧
      Module.aliased.Judged 1 ((Pipeline.bounded 1).run ⟨(), {}, {}, Module.aliased⟩).1
        ((Pipeline.bounded 1).run ⟨(), {}, {}, Module.aliased⟩).2.context.symbols
        ((Pipeline.bounded 1).run ⟨(), {}, {}, Module.aliased⟩).2.unit :=
  ⟨Nat.le_refl 1, Module.raw_aliased,
    Pipeline.run_bounded (Nat.le_refl 1) ⟨(), {}, {}, Module.aliased⟩ Module.raw_aliased⟩

end StagedLowering
