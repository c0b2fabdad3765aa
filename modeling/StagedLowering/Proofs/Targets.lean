import Mathlib
import StagedLowering.Proofs.Traces

/-!
# Which calls are bound to what they name

A call that has a target when the run begins keeps it, so after a run that succeeds exactly those
calls are bound to the function of their callee that came unbound or bound to that function already
(`Pipeline.run_standard_targets`).
-/

namespace StagedLowering

/-- Of the calls of the lowered file, those are bound to the function of their callee that had no
target before or that function. -/
def File.BindsAnew (table : SymbolTable) (file lowered : File) : Prop :=
  ∀ id callee target, lowered.Reachable id → lowered.kind? id = some (.call callee target) →
    ∃ old, file.kind? id = some (.call callee old) ∧
      (target = table.functionFor callee ↔ old = none ∨ old = table.functionFor callee)

theorem File.CallsFrom.bindsAnew {table : SymbolTable} {file lowered : File}
    (calls : file.CallsFrom table lowered) : file.BindsAnew table lowered := by
  intro id callee target reachable kind
  obtain ⟨_, old, found, rfl⟩ := calls id callee target reachable kind
  refine ⟨old, found, ?_⟩
  cases old with
  | none => exact ⟨fun _ => .inl rfl, fun _ => rfl⟩
  | some stale => exact ⟨.inr, fun right => right.resolve_left nofun⟩

theorem Pipeline.run_standard_targets {σ : Type} (state : State σ Module)
    (ok : (Pipeline.standard.run state).1 = .ok ()) :
    List.Forall₂ (File.BindsAnew (Pipeline.standard.run state).2.context.symbols)
      state.unit.files (Pipeline.standard.run state).2.unit.files := by
  have ends := Pipeline.run_ends Pipeline.standard rfl (fun _ => rfl) rfl state
  rw [ok] at ends
  obtain ⟨resolved, files, ready, lowerable, verified, unit⟩ := ends.readied
  rw [unit]
  exact (ready.callsFrom lowerable).imp fun _ _ calls => calls.bindsAnew

def File.misbound : File where
  path := "main"
  nodes := #[
    { kind := .root, children := [1, 2] },
    { kind := .function "first", parent := some 0, children := [3] },
    { kind := .function "second", parent := some 0 },
    { kind := .call "first" (some 1), parent := some 1 }]

def Module.misbound : Module where
  name := "program"
  files := [File.misbound]

def State.misbound : State Unit Module := ⟨(), {}, {}, Module.misbound⟩

theorem Pipeline.run_misbound : (Pipeline.standard.run State.misbound).1 = .ok () := by cbv

theorem Pipeline.run_standard_targets_misbound :
    (Pipeline.standard.run State.misbound).1 = .ok () ∧
      List.Forall₂ (File.BindsAnew (Pipeline.standard.run State.misbound).2.context.symbols)
        State.misbound.unit.files (Pipeline.standard.run State.misbound).2.unit.files :=
  ⟨Pipeline.run_misbound, Pipeline.run_standard_targets State.misbound Pipeline.run_misbound⟩

/-- The run accepts the module and leaves the call bound to the wrong function. -/
theorem Pipeline.not_bound_anew :
    ¬ ∀ state : State Unit Module, (Pipeline.standard.run state).1 = .ok () →
      ∀ file ∈ (Pipeline.standard.run state).2.unit.files, ∀ id callee target,
        file.Reachable id → file.kind? id = some (.call callee target) →
          target = (Pipeline.standard.run state).2.context.symbols.functionFor callee := by
  intro bound
  have call : ((Pipeline.standard.run State.misbound).2.unit.files[0]?).map
      (fun file => (decide (3 ∈ file.preorder), file.kind? 3)) =
        some (true, some (.call "first" (some 1))) := by cbv
  have named : (Pipeline.standard.run State.misbound).2.context.symbols.functionFor "first" = some 0 := by cbv
  obtain ⟨file, found, views⟩ := Option.map_eq_some_iff.mp call
  obtain ⟨reachable, kind⟩ := Prod.mk.inj views
  have target := bound State.misbound Pipeline.run_misbound file (List.mem_of_getElem? found) 3
    "first" (some 1) (File.mem_preorder.mp (of_decide_eq_true reachable)) kind
  rw [named] at target
  cases target

end StagedLowering
