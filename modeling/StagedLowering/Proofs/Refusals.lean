import StagedLowering.Proofs.Leaving
import StagedLowering.Proofs.Readiness

/-!
# Refused phases

A configuration is checked against the outlines of a list before anything runs, and every runner
checks the prerequisites of a phase when its turn comes. After a configuration was accepted no runner
refuses a phase, at either level (`PhaseList.not_refusedBy`).
-/

namespace StagedLowering

variable {σ υ : Type} {config : Config} {label : String}

/-! ### What counts as a refusal -/

namespace Failure

def isRefusal : Failure → Bool
  | prerequisiteNotRun _ => true
  | _ => false

def fileErrors : Failure → List PhaseError
  | inFile _ error => [error]
  | inFiles errors => errors
  | _ => []

theorem not_refusal_of_nested {failure : Failure} (nested : failure.isNested = true) :
    failure.isRefusal = false := by
  cases failure <;> first | rfl | cases nested

end Failure

/-- A runner refused a phase of the list, or a phase that runs on the files underneath the phase
that failed. -/
def PhaseList.RefusedBy (list : PhaseList (ModuleBody σ)) (error : PhaseError) : Prop :=
  error.failure.isRefusal ∨
    ∃ phase ∈ list.phases, phase.id = error.phase ∧ (∃ nested, phase.body = .perFile nested) ∧
      ∃ inner ∈ error.failure.fileErrors, inner.failure.isRefusal

/-- Every body that runs once has a property, over the module or over a file. -/
def PhaseList.EveryPlain (onModule : Body σ Module → Prop) (onFile : Body σ File → Prop)
    (list : PhaseList (ModuleBody σ)) : Prop :=
  ∀ phase ∈ list.phases,
    match phase.body with
    | .plain body => onModule body
    | .perFile nested => ∀ inner ∈ nested.phases, onFile inner.body

/-! ### The phases that are done -/

def Context.done (context : Context) : List (List PhaseId) :=
  (context.scope :: context.enclosing).map (·.executed)

theorem Context.done_exitScope {context outside : Context}
    (around : context.done.tail = outside.done) : context.exitScope.done = outside.done := by
  unfold Context.exitScope
  unfold Context.done at around ⊢
  cases scopes : context.enclosing with
  | nil => simp [scopes] at around
  | cons scope enclosing => simpa [scopes] using around

/-- A body that leaves the phases done in all scopes as they were, and never fails the way a runner
does that refuses a phase. -/
structure Run.Orderly {α : Type} (act : Run σ υ Failure α) : Prop where
  done : ∀ state, (act state).2.context.done = state.context.done
  refuses : ∀ {state after failure}, act state = (.error (.error failure), after) →
    failure.isRefusal = false

theorem Run.Orderly.leaves {α : Type} {act : Run σ υ Failure α} (orderly : act.Orderly) :
    act.Leaves fun before after => after.context.done = before.context.done := by
  intro state after result ran _
  have done := orderly.done state
  rwa [ran] at done

theorem Run.Orderly.marksNothing {α : Type} {act : Run σ υ Failure α} (orderly : act.Orderly) :
    act.MarksNothing := by
  intro state after a _ ran
  exact (List.cons.inj (orderly.leaves ran nofun)).1

theorem frame_around : Frame fun before after : State σ υ =>
    after.context.done.tail = before.context.done.tail where
  trans left right := right.trans left
  noted {before after} noted := by
    show after.context.enclosing.map _ = before.context.enclosing.map _
    rw [noted.enclosing]

namespace PhaseList

variable {list : PhaseList (Body σ File)}

theorem done_onFile
    (keeps : ∀ phase ∈ list.phases, (phase.body.run config).Leaves fun before after =>
      after.context.done = before.context.done) (i : Nat) :
    (Run.onFile i (list.runFile config)).Leaves fun before after =>
      after.context.done = before.context.done := by
  intro state next result ran returned
  obtain ⟨file, last, found, ended, rfl⟩ := exists_run_of_onFile ran returned
  have around : last.context.done.tail = (enter { state with unit := file }).context.done.tail :=
    frame_around.ledger.leaves_runList (fun phase member _ _ _ called calledReturned =>
      congrArg List.tail (keeps phase member called calledReturned)) ended returned
  exact Context.done_exitScope around

/-- A phase over files leaves the phases done in its scope as they were if its bodies do so in all
scopes. -/
theorem marksNothing_perFile
    (keeps : ∀ phase ∈ list.phases, (phase.body.run config).Leaves fun before after =>
      after.context.done = before.context.done) :
    ((ModuleBody.perFile list).run config).MarksNothing := by
  intro state after _ _ ran
  have done : after.context.done = state.context.done :=
    leaves_perFile (fun before after => after.done = before.done) (fun _ => rfl)
      (fun first second => second.trans first) (done_onFile keeps) ran nofun
  exact (List.cons.inj done).1

end PhaseList

/-! ### A configuration that was accepted -/

theorem Run.forM_error {ε α : Type} {step : α → Run σ υ ε Unit} {list : List α}
    {state last : State σ υ} {stop : Stop ε}
    (failed : list.forM step state = (.error stop, last)) :
    ∃ a ∈ list, ∃ middle, step a middle = (.error stop, last) := by
  induction list generalizing state with
  | nil => cases failed
  | cons a rest ih =>
    rw [Run.forM_cons_eq, Run.bind_apply] at failed
    rcases ran : step a state with ⟨stop' | _, middle⟩
    · rw [ran] at failed
      cases failed
      exact ⟨a, List.mem_cons_self, state, ran⟩
    · rw [ran] at failed
      obtain ⟨b, member, before, here⟩ := ih failed
      exact ⟨b, List.mem_cons_of_mem _ member, before, here⟩

section phases

variable {β : Type} [Executable β σ υ] [WorkUnit υ]

/-- The error of a phase that the configuration leaves its prerequisites is that of its body, unless
the run was cancelled. -/
theorem Phase.attend_error {phase : Phase β} {state last : State σ υ} {error : PhaseError}
    (accepted : (phase.outline (υ := υ)).checkDisabled config = .ok ())
    (failed : phase.attend config label state = (.error (.error error), last)) :
    error.phase = phase.id ∧ (error.failure = .cancelled ∨
      Outline.checkAllDisabled config (Executable.children phase.body) = .ok () ∧
        ∃ before after,
          Executable.run phase.body config before = (.error (.error error.failure), after)) := by
  rw [Phase.checkDisabled_outline] at accepted
  unfold Phase.attend at failed
  split at failed
  · cases failed
    exact ⟨rfl, .inl rfl⟩
  · split at failed
    · cases failed
    · next enabled =>
      rw [if_pos (by simpa using enabled)] at accepted
      split at failed
      · next prerequisite missing =>
        rw [missing] at accepted
        cases accepted
      · next none =>
        rw [none] at accepted
        unfold Phase.perform at failed
        rw [Phase.execute_apply] at failed
        split at failed
        · cases failed
        · next failure after body =>
          cases failed
          exact ⟨rfl, .inr ⟨accepted, _, after, body⟩⟩
        · cases failed

theorem PhaseList.run_error {list : PhaseList β} {state last : State σ υ} {error : PhaseError}
    (marks : ∀ phase ∈ list.phases,
      (Executable.run phase.body config : Run σ υ Failure Unit).MarksNothing)
    (fresh : state.context.scope.executed = [])
    (accepted : Outline.checkAllDisabled config list.outlines = .ok ())
    (failed : list.run config state = (.error (.error error), last)) :
    ∃ phase ∈ list.phases, error.phase = phase.id ∧ (error.failure = .cancelled ∨
      Outline.checkAllDisabled config (Executable.children phase.body) = .ok () ∧
        ∃ before after,
          Executable.run phase.body config before = (.error (.error error.failure), after)) := by
  rw [PhaseList.run_eq_attend marks fresh] at failed
  obtain ⟨phase, member, middle, here⟩ := Run.forM_error failed
  have checked := Outline.checkDisabled_of_all accepted _ (List.mem_map_of_mem member)
  exact ⟨phase, member, Phase.attend_error checked here⟩

end phases

namespace PhaseList

variable {list : PhaseList (Body σ File)}

theorem runFile_error {state last : State σ File} {error : PhaseError}
    (failed : list.runFile config state = (.error (.error error), last)) :
    ∃ after, list.run config (enter state) = (.error (.error error), after) := by
  rw [runFile_apply] at failed
  split at failed
  · cases failed
  · next failure after ran =>
    cases failed
    exact ⟨after, ran⟩
  · cases failed

theorem onFile_error {i : Nat} {state last : State σ Module} {error : PhaseError}
    (failed : Run.onFile i (list.runFile config) state = (.error (.error error), last)) :
    ∃ before after, list.runFile config before = (.error (.error error), after) := by
  unfold Run.onFile at failed
  split at failed
  · cases failed
  · next file found =>
    rcases ran : list.runFile config { state with unit := file } with ⟨result, after⟩
    rw [ran] at failed
    cases failed
    exact ⟨_, after, ran⟩

/-- What files in turn report: the errors that were collected, or the failure that ended them. -/
def reported : Except (Stop Failure) (List PhaseError) → List PhaseError
  | .ok errors => errors
  | .error (.error failure) => failure.fileErrors
  | .error .fault => []

theorem runFiles_error {numbers : List Nat} {state : State σ Module} {error : PhaseError}
    (member : error ∈ reported (list.runFiles config numbers state).1) :
    ∃ before after, list.runFile config before = (.error (.error error), after) := by
  induction numbers generalizing state with
  | nil => cases member
  | cons i rest ih =>
    rw [runFiles_cons] at member
    rcases first : Run.onFile i (list.runFile config) state with ⟨(failure | _) | _, middle⟩
    · rw [first] at member
      cases policy : config.filePolicy with
      | failFast =>
        simp only [policy, reported, Failure.fileErrors, List.mem_singleton] at member
        exact member ▸ onFile_error first
      | collectAll =>
        simp only [policy] at member
        split at member
        · next more last later =>
          rcases List.mem_cons.mp member with rfl | member
          · exact onFile_error first
          · exact ih (by rwa [later])
        · next stop last later => exact ih (by rwa [later])
    · rw [first] at member
      cases member
    · rw [first] at member
      exact ih member

theorem runFiles_isNested {numbers : List Nat} {state last : State σ Module} {failure : Failure}
    (failed : list.runFiles config numbers state = (.error (.error failure), last)) :
    failure.isNested = true := by
  induction numbers generalizing state with
  | nil => cases failed
  | cons i rest ih =>
    rw [runFiles_cons] at failed
    rcases first : Run.onFile i (list.runFile config) state with ⟨(error | _) | _, middle⟩
    · rw [first] at failed
      cases policy : config.filePolicy with
      | failFast =>
        simp only [policy] at failed
        cases failed
        rfl
      | collectAll =>
        simp only [policy] at failed
        split at failed
        · cases failed
        · next stop after later =>
          cases failed
          exact ih later
    · rw [first] at failed
      cases failed
    · rw [first] at failed
      exact ih failed

/-- A phase over the files fails with what the lists of its files failed with. -/
theorem perFile_error {state last : State σ Module} {failure : Failure}
    (failed : (ModuleBody.perFile list).run config state = (.error (.error failure), last)) :
    failure.isNested = true ∧ ∀ error ∈ failure.fileErrors,
      ∃ before after, list.runFile config before = (.error (.error error), after) := by
  rw [perFile_apply] at failed
  split at failed
  · cases failed
  · next error more after ran =>
    cases failed
    exact ⟨rfl, fun error member => runFiles_error (by rwa [ran])⟩
  · next stop after ran =>
    cases failed
    exact ⟨runFiles_isNested ran, fun error member => runFiles_error (by rwa [ran])⟩

theorem EveryPlain.marksNothing {list : PhaseList (ModuleBody σ)}
    (orderly : list.EveryPlain (fun body => (body.run config).Orderly)
      fun body => (body.run config).Orderly) :
    ∀ phase ∈ list.phases,
      (Executable.run phase.body config : Run σ Module Failure Unit).MarksNothing := by
  intro phase member
  have plain := orderly phase member
  show (phase.body.run config).MarksNothing
  split at plain
  · next body isPlain => exact isPlain ▸ plain.marksNothing
  · next nested isNested => exact isNested ▸ marksNothing_perFile fun inner member => (plain inner member).leaves

/-- No runner at either level refuses a phase once the configuration was accepted. -/
theorem not_refusedBy {list : PhaseList (ModuleBody σ)}
    (orderly : list.EveryPlain (fun body => (body.run config).Orderly)
      fun body => (body.run config).Orderly)
    (accepted : Outline.checkAllDisabled config list.outlines = .ok ())
    {state last : State σ Module} (fresh : state.context.scope.executed = [])
    {error : PhaseError} (failed : list.run config state = (.error (.error error), last)) :
    ¬list.RefusedBy error := by
  obtain ⟨phase, member, id, ended⟩ :=
    run_error orderly.marksNothing fresh accepted failed
  have plain := orderly phase member
  rcases ended with cancelled | ⟨nestedAccepted, before, after, ran⟩
  · simp [RefusedBy, cancelled, Failure.isRefusal, Failure.fileErrors]
  · have ran : phase.body.run config before = (.error (.error error.failure), after) := ran
    split at plain
    · next body isPlain =>
      rw [isPlain] at ran
      rintro (refused | ⟨other, otherMember, same, ⟨nested, isNested⟩, -⟩)
      · have allowed := plain.refuses ran
        rw [allowed] at refused
        cases refused
      · rw [eq_of_id otherMember member (same.trans id), isPlain] at isNested
        cases isNested
    · next nested isNested =>
      rw [isNested] at ran nestedAccepted
      obtain ⟨isNestedFailure, inside⟩ := perFile_error ran
      rintro (refused | ⟨-, -, -, -, inner, innerMember, refused⟩)
      · rw [Failure.not_refusal_of_nested isNestedFailure] at refused
        cases refused
      · obtain ⟨fileState, fileLast, fileFailed⟩ := inside inner innerMember
        obtain ⟨entered, innerFailed⟩ := runFile_error fileFailed
        obtain ⟨innerPhase, innerPhaseMember, -, ended⟩ :=
          run_error (fun phase member => (plain phase member).marksNothing) rfl nestedAccepted
            innerFailed
        rcases ended with cancelled | ⟨-, bodyState, bodyLast, body⟩
        · rw [cancelled] at refused
          cases refused
        · have allowed := (plain innerPhase innerPhaseMember).refuses body
          rw [allowed] at refused
          cases refused

def layered (last : Body Unit File) : PhaseList (ModuleBody Unit) where
  phases := [
    .alone "survey" "look around" (.plain (.transform fun _ => Run.onContext (·.bump "turns" 1))),
    .after ["survey"] "files" "go through the files" (.perFile {
      phases := [
        .alone "draft" "prepare" (.transform fun _ => Run.onContext (·.bump "turns" 1)),
        .after ["draft"] "polish" "finish" last]
      ordered := rfl })]
  ordered := rfl

theorem everyPlain_layered {onModule : Body Unit Module → Prop} {onFile : Body Unit File → Prop}
    {last : Body Unit File}
    (survey : onModule (.transform fun _ => Run.onContext (·.bump "turns" 1)))
    (draft : onFile (.transform fun _ => Run.onContext (·.bump "turns" 1))) (polish : onFile last) :
    (layered last).EveryPlain onModule onFile := by
  unfold layered EveryPlain
  simp [Phase.alone, Phase.after, survey, draft, polish]

end PhaseList

end StagedLowering
