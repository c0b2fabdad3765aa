import StagedLowering.Proofs.Calls
import StagedLowering.Proofs.Policies

/-!
# What runs leave when they return

Some bodies keep a promise only if they come to an end: a fault can strike while a scope of theirs is
still open. A relation between the states before and after a run that returns (`Run.Leaves`) passes
from the bodies to their list (`Ledger.leaves_runList`), and from the files to all of them
(`PhaseList.leaves_runFiles`).
-/

namespace StagedLowering

variable {σ υ : Type} {config : Config} {label : String}

def Run.Leaves {ε α : Type} (rel : State σ υ → State σ υ → Prop) (act : Run σ υ ε α) : Prop :=
  ∀ ⦃state last : State σ υ⦄ ⦃result : Except (Stop ε) α⦄, act state = (result, last) →
    result ≠ .error .fault → rel state last

namespace Ledger

variable {β : Type} [Executable β σ υ] [WorkUnit υ] {rel : State σ υ → State σ υ → Prop}

theorem leaves_run (ledger : Ledger rel) {phase : Phase β}
    (body : (Executable.run phase.body config : Run σ υ Failure Unit).Leaves rel) :
    (phase.run config label : Run σ υ PhaseError Unit).Leaves rel := by
  intro state last result ran returned
  have begun : rel state (phase.begin config label state) := ledger.trace ..
  rcases Phase.run_cases ran returned with ⟨-, calls, passed⟩ | ⟨failure, calls, -, stopped⟩
  · cases passed with
    | skipped going disabled => exact ledger.recorded (Phase.recorded_skip state)
    | completed going enabled ready called =>
      exact ledger.trans begun
        (ledger.trans (body called nofun) (ledger.recorded (Phase.recorded_finish _)))
  · cases stopped with
    | cancelled flagged => exact ledger.trace ..
    | unready going enabled missing => exact ledger.refl state
    | failed going enabled ready called =>
      exact ledger.trans begun
        (ledger.trans (body called nofun) (ledger.recorded (Phase.recorded_giveUp _)))

omit [WorkUnit υ] in
theorem leaves_forM (ledger : Ledger rel) {ε α : Type} {step : α → Run σ υ ε Unit} {list : List α}
    (each : ∀ a ∈ list, (step a).Leaves rel) : Run.Leaves rel (list.forM step) := by
  induction list with
  | nil =>
    intro state last result ran _
    cases ran
    exact ledger.refl state
  | cons a rest ih =>
    intro state last result ran returned
    rcases first : step a state with ⟨stop | _, middle⟩
    · cases (Run.forM_of_error first).symm.trans ran
      exact each a List.mem_cons_self first (fun faulted => returned (by cases faulted; rfl))
    · rw [Run.forM_of_ok first] at ran
      exact ledger.trans (each a List.mem_cons_self first nofun)
        (ih (fun b member => each b (List.mem_cons_of_mem _ member)) ran returned)

theorem leaves_runList (ledger : Ledger rel) {list : PhaseList β}
    (bodies : ∀ phase ∈ list.phases,
      (Executable.run phase.body config : Run σ υ Failure Unit).Leaves rel) :
    (list.run config : Run σ υ PhaseError Unit).Leaves rel := by
  intro state last result ran
  rw [PhaseList.run_apply] at ran
  exact ledger.leaves_forM (fun phase member => ledger.leaves_run (bodies phase member)) ran

end Ledger

namespace PhaseList

variable {list : PhaseList (Body σ File)}

/-- A relation of contexts that holds of the run on each file holds of the run on all of them. -/
theorem leaves_runFiles (rel : Context → Context → Prop) (refl : ∀ context, rel context context)
    (trans : ∀ {first middle last}, rel first middle → rel middle last → rel first last)
    {numbers : List Nat}
    (each : ∀ i ∈ numbers, (Run.onFile i (list.runFile config)).Leaves
      fun before after => rel before.context after.context) :
    (list.runFiles config numbers).Leaves
      fun before after => rel before.context after.context := by
  induction numbers with
  | nil =>
    intro state last result ran _
    cases ran
    exact refl state.context
  | cons i rest ih =>
    have later := ih fun j member => each j (List.mem_cons_of_mem _ member)
    intro state last result ran returned
    rcases first : Run.onFile i (list.runFile config) state with ⟨(error | _) | _, next⟩
    · have here := each i List.mem_cons_self first nofun
      cases policy : config.filePolicy with
      | failFast =>
        cases (runFiles_cons_of_failFast policy first).symm.trans ran
        exact here
      | collectAll =>
        obtain ⟨ended, onward, restReturned⟩ := exists_run_of_collectAll policy first ran returned
        have rest : rel (carriedOn i error next).context last.context := later onward restReturned
        exact trans here rest
    · rw [runFiles_cons, first] at ran
      cases ran
      exact absurd rfl returned
    · rw [runFiles_cons_of_ok first] at ran
      exact trans (each i List.mem_cons_self first nofun) (later ran returned)

theorem leaves_perFile (rel : Context → Context → Prop) (refl : ∀ context, rel context context)
    (trans : ∀ {first middle last}, rel first middle → rel middle last → rel first last)
    (each : ∀ i, (Run.onFile i (list.runFile config)).Leaves
      fun before after => rel before.context after.context) :
    ((ModuleBody.perFile list).run config).Leaves
      fun before after => rel before.context after.context := by
  intro state last result ran returned
  rcases files : list.runFiles config (List.range state.unit.files.length) state with ⟨ended, after⟩
  cases (perFile_of_runFiles files).symm.trans ran
  refine leaves_runFiles rel refl trans (fun i _ => each i) files fun faulted => returned ?_
  rw [faulted]
  rfl

end PhaseList

end StagedLowering
