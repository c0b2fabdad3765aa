import StagedLowering.Proofs.Interruption
import StagedLowering.Proofs.Refusals

/-!
# One diagnostic for each failure

The runner of the phase that fails reports, unless the failure is that of a list underneath, which has
reported its own. So with bodies that report nothing themselves a failure is reported where it began,
once at both levels together (`PhaseList.run_reports`).
-/

namespace StagedLowering

variable {σ υ : Type} {config : Config} {label : String}

/-! ### What is reported -/

/-- What a run reports between two contexts: nothing if it succeeds, and `told` about its error. -/
def Run.Told {ε α : Type} (told : ε → List Diagnostic → Prop) (before after : Context) :
    Except (Stop ε) α → Prop
  | .ok _ => after.diagnostics = before.diagnostics
  | .error (.error error) =>
    ∃ reported, told error reported ∧ after.diagnostics = before.diagnostics ++ reported
  | .error .fault => True

/-- Unless the flag is up in the end, a run reports no more than what it owes. -/
def Run.Reports {ε α : Type} (told : ε → List Diagnostic → Prop) (act : Run σ υ ε α) : Prop :=
  ∀ ⦃state last : State σ υ⦄ ⦃result : Except (Stop ε) α⦄, act state = (result, last) →
    last.context.cancelled = false → Run.Told told state.context last.context result

theorem Run.Told.mono {ε α : Type} {told other : ε → List Diagnostic → Prop}
    (weaken : ∀ {error reported}, told error reported → other error reported)
    {before after : Context} {result : Except (Stop ε) α} (holds : Run.Told told before after result) :
    Run.Told other before after result := by
  rcases result with (error | _) | a
  · obtain ⟨reported, about, written⟩ := holds
    exact ⟨reported, weaken about, written⟩
  · trivial
  · exact holds

namespace Failure

def Unreported (failure : Failure) (reported : List Diagnostic) : Prop :=
  failure.isNested = false ∧ reported = []

/-- What was reported by the time a body failed: nothing, or the failures of files. -/
inductive Told : Failure → List Diagnostic → Prop
  | own {failure : Failure} (own : failure.isNested = false) : Told failure []
  | inFile (path : String) {error : PhaseError} (own : error.failure.isNested = false) :
    Told (.inFile path error) [.ofFailure error.phase error.failure]
  | inFiles {errors : List PhaseError} (own : ∀ error ∈ errors, error.failure.isNested = false) :
    Told (.inFiles errors) (errors.map fun error => .ofFailure error.phase error.failure)

end Failure

namespace PhaseError

/-- What was reported by the time a phase failed, given what was when its body did. -/
def Told (told : Failure → List Diagnostic → Prop) (error : PhaseError)
    (reported : List Diagnostic) : Prop :=
  ∃ underneath, told error.failure underneath ∧ reported = underneath ++
    if error.failure.isNested then [] else [.ofFailure error.phase error.failure]

def Alone (error : PhaseError) (reported : List Diagnostic) : Prop :=
  error.failure.isNested = false ∧ reported = [.ofFailure error.phase error.failure]

theorem Told.alone {error : PhaseError} {reported : List Diagnostic}
    (told : error.Told Failure.Unreported reported) : error.Alone reported := by
  obtain ⟨underneath, ⟨own, rfl⟩, rfl⟩ := told
  exact ⟨own, by simp [own]⟩

end PhaseError

/-- A body that leaves the phases done in all scopes and the diagnostics as they were, and does not
fail the way a phase over files does. -/
structure Run.Silent (act : Run σ υ Failure Unit) : Prop where
  done : act.Leaves fun before after => after.context.done = before.context.done
  diagnostics : act.Leaves fun before after =>
    after.context.diagnostics = before.context.diagnostics
  own : ∀ {state after : State σ υ} {failure : Failure},
    act state = (.error (.error failure), after) → failure.isNested = false

theorem Run.Silent.reports {act : Run σ υ Failure Unit} (silent : act.Silent) :
    act.Reports Failure.Unreported := by
  intro state last result ran _
  rcases result with (failure | _) | _
  · refine ⟨[], ⟨silent.own ran, rfl⟩, ?_⟩
    rw [silent.diagnostics ran nofun, List.append_nil]
  · trivial
  · exact silent.diagnostics ran nofun

theorem PhaseError.innermost_of_own {error : PhaseError} (own : error.failure.isNested = false) :
    error.innermost = error := by
  obtain ⟨id, description, unit, failure⟩ := error
  cases failure with
  | inFile | inFiles => cases own
  | reported | violated | unsettled | prerequisiteNotRun | cancelled => simp [innermost]

/-- A failure of a single phase is reported as that phase, wherever it ran. -/
theorem PhaseError.Told.reported {error : PhaseError} {reported : List Diagnostic}
    (told : error.Told Failure.Told reported) :
    match error.failure with
    | .inFiles errors =>
      reported = errors.map fun inner => {
        severity := .error
        message := inner.failure.message
        phase := some inner.phase
        location := inner.failure.location? }
    | failure =>
      reported = [{
        severity := .error
        message := error.innermost.failure.message
        phase := some error.innermost.phase
        location := failure.location? }] := by
  obtain ⟨underneath, about, rfl⟩ := told
  obtain ⟨id, description, unit, failure⟩ := error
  cases about with
  | own own =>
    rw [innermost_of_own own]
    cases failure with
    | inFile | inFiles => cases own
    | reported | violated | unsettled | prerequisiteNotRun | cancelled => rfl
  | inFile path own =>
    simp [innermost, innermost_of_own own, Failure.location?, Failure.isNested,
      Diagnostic.ofFailure]
  | inFiles own => simp [Failure.isNested, Diagnostic.ofFailure]

/-! ### A list whose configuration was accepted -/

section phases

variable {β : Type} [Executable β σ υ] [WorkUnit υ] {told : Failure → List Diagnostic → Prop}

omit [Executable β σ υ] [WorkUnit υ] in
theorem Phase.diagnostics_giveUp {phase : Phase β} {depth : Nat} {failure : Failure}
    (after : State σ υ) :
    (phase.giveUp config label depth failure after).context.diagnostics =
      after.context.diagnostics ++
        if failure.isNested then [] else [.ofFailure phase.id failure] := by
  unfold Phase.giveUp
  cases failure.isNested
  · rfl
  · exact (List.append_nil _).symm

omit [Executable β σ υ] in
theorem Phase.diagnostics_finish {phase : Phase β} {depth : Nat} (after : State σ υ) :
    (phase.finish config label depth after).context.diagnostics = after.context.diagnostics := by
  unfold Phase.finish
  cases config.shouldDump phase.id
  · rfl
  · rfl

theorem Phase.reports_attend {phase : Phase β}
    (accepted : (phase.outline (υ := υ)).checkDisabled config = .ok ())
    (body : Outline.checkAllDisabled config (Executable.children phase.body) = .ok () →
      (Executable.run phase.body config : Run σ υ Failure Unit).Reports told) :
    (phase.attend config label : Run σ υ PhaseError Unit).Reports (PhaseError.Told told) := by
  intro state last result ran never
  rw [Phase.checkDisabled_outline] at accepted
  unfold Phase.attend at ran
  split at ran
  · next flagged =>
    cases ran
    exact absurd flagged (by simpa using never)
  split at ran
  · cases ran
    exact rfl
  next enabled =>
  rw [if_pos (by simpa using enabled)] at accepted
  split at ran
  · next prerequisite missing =>
    rw [missing] at accepted
    cases accepted
  next none =>
  rw [none] at accepted
  have reports := body accepted
  unfold Phase.perform at ran
  rw [Phase.execute_apply] at ran
  split at ran
  · next after called =>
    cases ran
    have going : after.context.cancelled = false := (noted_finish after).cancelled.symm.trans never
    exact (Phase.diagnostics_finish after).trans (reports called going)
  · next failure after called =>
    cases ran
    have going : after.context.cancelled = false := (noted_giveUp after).cancelled.symm.trans never
    obtain ⟨underneath, about, written⟩ := reports called going
    have begun : (phase.begin config label state).context.diagnostics = state.context.diagnostics :=
      rfl
    refine ⟨_, ⟨underneath, about, rfl⟩, ?_⟩
    rw [Phase.diagnostics_giveUp, written, begun, List.append_assoc]
    rfl
  · cases ran
    trivial

/-- A flag that is up stays up, since no body is called any more. -/
theorem Phase.cancelled_attend (config : Config) (label : String) (phases : List (Phase β))
    {state : State σ υ} (flagged : state.context.cancelled = true) :
    (phases.forM (Phase.attend config label) state).2.context.cancelled = true := by
  cases phases with
  | nil => exact flagged
  | cons next rest =>
    have refused : next.attend config label state =
        (.error (.error (next.error label .cancelled)),
          { state with trace := state.trace.emit (.cancelledBefore next.id label) }) := by
      unfold Phase.attend
      rw [if_pos flagged]
    rw [Run.forM_of_error refused]
    exact flagged

theorem reports_forM {phases : List (Phase β)}
    (each : ∀ phase ∈ phases, (phase.attend config label : Run σ υ PhaseError Unit).Reports
      (PhaseError.Told told)) :
    Run.Reports (PhaseError.Told told)
      (phases.forM (Phase.attend config label) : Run σ υ PhaseError Unit) := by
  induction phases with
  | nil =>
    intro state last result ran _
    cases ran
    exact rfl
  | cons phase rest ih =>
    intro state last result ran never
    rcases first : phase.attend config label state with ⟨stop | _, middle⟩
    · cases (Run.forM_of_error first).symm.trans ran
      have here := each phase List.mem_cons_self first never
      rcases stop with error | _
      · exact here
      · trivial
    · rw [Run.forM_of_ok first] at ran
      have going : middle.context.cancelled = false := by
        refine Bool.eq_false_iff.mpr fun flagged => ?_
        have still := Phase.cancelled_attend config label rest flagged
        rw [ran, never] at still
        cases still
      have here : middle.context.diagnostics = state.context.diagnostics :=
        each phase List.mem_cons_self first going
      have later := ih (fun other member => each other (List.mem_cons_of_mem _ member)) ran never
      rcases result with (error | _) | _
      · obtain ⟨reported, about, written⟩ := later
        exact ⟨reported, about, written.trans (by rw [here])⟩
      · trivial
      · exact later.trans here

theorem PhaseList.told_run {list : PhaseList β}
    (marks : ∀ phase ∈ list.phases,
      (Executable.run phase.body config : Run σ υ Failure Unit).MarksNothing)
    (accepted : Outline.checkAllDisabled config list.outlines = .ok ())
    (bodies : ∀ phase ∈ list.phases,
      Outline.checkAllDisabled config (Executable.children phase.body) = .ok () →
      (Executable.run phase.body config : Run σ υ Failure Unit).Reports told)
    {state last : State σ υ} {result : Except (Stop PhaseError) Unit}
    (fresh : state.context.scope.executed = []) (ran : list.run config state = (result, last))
    (never : last.context.cancelled = false) :
    Run.Told (PhaseError.Told told) state.context last.context result := by
  rw [PhaseList.run_eq_attend marks fresh] at ran
  refine reports_forM (fun phase member => Phase.reports_attend ?_ (bodies phase member)) ran never
  exact Outline.checkDisabled_of_all accepted _ (List.mem_map_of_mem member)

end phases

theorem Run.Silent.marksNothing {act : Run σ υ Failure Unit} (silent : act.Silent) :
    act.MarksNothing := by
  intro state after _ _ ran
  exact (List.cons.inj (silent.done ran nofun)).1

/-! ### Files -/

namespace PhaseList

section files

variable {list : PhaseList (Body σ File)}

theorem cancelled_onFile (config : Config) (list : PhaseList (Body σ File)) (i : Nat) :
    (Run.onFile i (list.runFile config)).Leaves fun before after =>
      before.context.cancelled = true → after.context.cancelled = true := by
  intro state next result ran returned flagged
  obtain ⟨file, last, found, ended, rfl⟩ := exists_run_of_onFile ran returned
  have entered : (enter { state with unit := file }).context.cancelled = true := flagged
  rw [run_apply] at ended
  obtain ⟨trace, -, refused⟩ := Run.forM_flagged config
    (WorkUnit.label (enter { state with unit := file }).unit) list.phases entered
  cases ended.symm.trans refused
  exact (Context.cancelled_exitScope _).trans flagged

variable (silent : ∀ phase ∈ list.phases, (phase.body.run config).Silent)
  (accepted : Outline.checkAllDisabled config list.outlines = .ok ())

include silent accepted

theorem reports_onFile (i : Nat) :
    (Run.onFile i (list.runFile config)).Reports PhaseError.Alone := by
  intro state next result ran never
  by_cases faulted : result = .error .fault
  · rw [faulted]
    trivial
  obtain ⟨file, last, found, ended, rfl⟩ := exists_run_of_onFile ran faulted
  have going : last.context.cancelled = false :=
    (Context.cancelled_exitScope last.context).symm.trans never
  have told := told_run (fun phase member => (silent phase member).marksNothing) accepted
    (fun phase member _ => (silent phase member).reports) rfl ended going
  obtain ⟨scope, enclosing, exited⟩ := last.context.exists_exitScope
  have left : (putBack state.unit i last).context.diagnostics = last.context.diagnostics := by
    show last.context.exitScope.diagnostics = _
    rw [exited]
  rcases result with (error | _) | _
  · obtain ⟨reported, about, written⟩ := told
    exact ⟨reported, about.alone, left.trans written⟩
  · trivial
  · exact left.trans told

/-- Collected errors were reported one by one; the one that ended the files was, too. -/
theorem reported_runFiles {numbers : List Nat} {state last : State σ Module}
    {result : Except (Stop Failure) (List PhaseError)}
    (ran : list.runFiles config numbers state = (result, last))
    (never : last.context.cancelled = false) :
    match result with
    | .ok errors =>
      (∀ error ∈ errors, error.failure.isNested = false) ∧
        last.context.diagnostics = state.context.diagnostics ++
          errors.map fun error => .ofFailure error.phase error.failure
    | .error (.error failure) =>
      config.filePolicy = .failFast ∧ ∃ path error, failure = .inFile path error ∧
        error.failure.isNested = false ∧ last.context.diagnostics =
          state.context.diagnostics ++ [.ofFailure error.phase error.failure]
    | .error .fault => True := by
  -- A flag that goes up on a file is still up after the files that follow.
  have going {rest : List Nat} {middle : State σ Module}
      {ended : Except (Stop Failure) (List PhaseError)}
      (onward : list.runFiles config rest middle = (ended, last)) (returned : ended ≠ .error .fault) :
      middle.context.cancelled = false := by
    refine Bool.eq_false_iff.mpr fun flagged => ?_
    have still := leaves_runFiles (fun before after => before.cancelled = true →
      after.cancelled = true) (fun _ up => up) (fun first second up => second (first up))
      (fun i _ => cancelled_onFile config list i) onward returned flagged
    rw [still] at never
    cases never
  induction numbers generalizing state result with
  | nil =>
    cases ran
    exact ⟨nofun, (List.append_nil _).symm⟩
  | cons i rest ih =>
    rcases first : Run.onFile i (list.runFile config) state with ⟨(error | _) | _, next⟩
    · cases policy : config.filePolicy with
      | failFast =>
        cases (runFiles_cons_of_failFast policy first).symm.trans ran
        obtain ⟨reported, ⟨own, rfl⟩, written⟩ := reports_onFile silent accepted i first never
        exact ⟨rfl, _, error, rfl, own, written⟩
      | collectAll =>
        rw [runFiles_cons_of_collectAll policy first] at ran
        rcases onward : list.runFiles config rest (carriedOn i error next) with
          ⟨(failure | _) | errors, final⟩
        · rw [onward] at ran
          cases ran
          obtain ⟨failFast, -⟩ := ih onward
          cases policy.symm.trans failFast
        · rw [onward] at ran
          cases ran
          trivial
        · rw [onward] at ran
          cases ran
          have goneOn : (carriedOn i error next).context.cancelled = false := going onward nofun
          obtain ⟨reported, ⟨own, rfl⟩, written⟩ := reports_onFile silent accepted i first goneOn
          obtain ⟨ownLater, writtenLater⟩ := ih onward
          refine ⟨List.forall_mem_cons.mpr ⟨own, ownLater⟩, writtenLater.trans ?_⟩
          show next.context.diagnostics ++ _ = _
          rw [written, List.append_assoc]
          rfl
    · rw [runFiles_cons, first] at ran
      cases ran
      trivial
    · rw [runFiles_cons_of_ok first] at ran
      have later := ih ran
      rcases result with (failure | _) | errors
      · have here : next.context.diagnostics = state.context.diagnostics :=
          reports_onFile silent accepted i first (going ran nofun)
        obtain ⟨policy, path, error, same, own, written⟩ := later
        exact ⟨policy, path, error, same, own, written.trans (by rw [here])⟩
      · trivial
      · have here : next.context.diagnostics = state.context.diagnostics :=
          reports_onFile silent accepted i first (going ran nofun)
        exact ⟨later.1, later.2.trans (by rw [here])⟩

theorem reports_perFile : ((ModuleBody.perFile list).run config).Reports Failure.Told := by
  intro state last result ran never
  rcases files : list.runFiles config (List.range state.unit.files.length) state with ⟨ended, after⟩
  cases (perFile_of_runFiles files).symm.trans ran
  have reported := reported_runFiles silent accepted files never
  rcases ended with (failure | _) | _ | ⟨error, more⟩
  · obtain ⟨-, path, error, rfl, own, written⟩ := reported
    exact ⟨_, .inFile path own, written⟩
  · trivial
  · exact reported.2.trans (List.append_nil _)
  · exact ⟨_, .inFiles reported.1, reported.2⟩

end files

/-! ### Modules -/

/-- A run under an accepted configuration that is never cancelled reports each failure once. A flag
that a phase finds up is up in the end as well, since no body is called any more. -/
theorem run_reports {list : PhaseList (ModuleBody σ)} (accepted : list.checkConfig config = .ok ())
    (silent : list.EveryPlain (fun body => (body.run config).Silent)
      fun body => (body.run config).Silent)
    {state last : State σ Module} {result : Except (Stop PhaseError) Unit}
    (fresh : state.context = {}) (ran : list.run config state = (result, last))
    (never : last.context.cancelled = false) :
    (result = .ok () → last.context.diagnostics = []) ∧
    ∀ error, result = .error (.error error) →
      match error.failure with
      | .inFiles errors =>
        last.context.diagnostics = errors.map fun inner => {
          severity := .error
          message := inner.failure.message
          phase := some inner.phase
          location := inner.failure.location? }
      | failure =>
        last.context.diagnostics = [{
          severity := .error
          message := error.innermost.failure.message
          phase := some error.innermost.phase
          location := failure.location? }] := by
  have marks : ∀ phase ∈ list.phases, (phase.body.run config).MarksNothing := by
    intro phase member
    have plain := silent phase member
    cases body : phase.body with
    | plain body =>
      rw [body] at plain
      exact plain.marksNothing
    | perFile nested =>
      rw [body] at plain
      exact marksNothing_perFile fun inner member => (plain inner member).done
  have bodies : ∀ phase ∈ list.phases, Outline.checkAllDisabled config phase.body.children = .ok () →
      (phase.body.run config).Reports Failure.Told := by
    intro phase member
    have plain := silent phase member
    cases body : phase.body with
    | plain body =>
      rw [body] at plain
      intro _ state last result called never
      refine (plain.reports called never).mono fun unreported => ?_
      obtain ⟨own, rfl⟩ := unreported
      exact .own own
    | perFile nested =>
      rw [body] at plain
      exact reports_perFile plain
  have told := told_run marks (checkConfig_ok accepted) bodies (by rw [fresh]) ran never
  rw [fresh] at told
  refine ⟨fun succeeded => ?_, fun error failed => ?_⟩
  · rw [succeeded] at told
    exact told
  · rw [failed] at told
    obtain ⟨reported, about, written⟩ := told
    rw [show last.context.diagnostics = reported from written]
    exact about.reported

theorem silent_bump : (Run.onContext (·.bump "turns" 1) : Run Unit υ Failure Unit).Silent where
  done _ _ _ ran _ := by
    cases ran
    rfl
  diagnostics _ _ _ ran _ := by
    cases ran
    rfl
  own ran := by cases ran

theorem silent_fail {failure : Failure} (own : failure.isNested = false) :
    (Run.fail failure : Run Unit υ Failure Unit).Silent where
  done _ _ _ ran _ := by
    cases ran
    rfl
  diagnostics _ _ _ ran _ := by
    cases ran
    rfl
  own ran := by
    cases ran
    exact own

/-- The last phase fails on both files, and both are gone through. -/
theorem run_reports_collecting :
    let list := layered (.transform fun _ => Run.fail (.reported (.described "unfit") none))
    let state : State Unit Module := ⟨(), {}, {}, "program", [{ path := "a" }, { path := "b" }]⟩
    let config : Config := { filePolicy := .collectAll }
    list.checkConfig config = .ok () ∧
    list.EveryPlain (fun body => (body.run config).Silent) (fun body => (body.run config).Silent) ∧
    state.context = {} ∧ (list.run config state).2.context.cancelled = false ∧
    ∃ error errors, (list.run config state).1 = .error (.error error) ∧
      error.failure = .inFiles errors ∧ errors.map (·.phase) = ["polish", "polish"] ∧
      (list.run config state).2.context.diagnostics = errors.map fun inner => {
        severity := .error
        message := inner.failure.message
        phase := some inner.phase
        location := inner.failure.location? } := by
  intro list state config
  have accepted : list.checkConfig config = .ok () := rfl
  have silent : list.EveryPlain (fun body => (body.run config).Silent)
      (fun body => (body.run config).Silent) :=
    everyPlain_layered silent_bump silent_bump (silent_fail rfl)
  have never : (list.run config state).2.context.cancelled = false := by decide +kernel
  have phases : (Run.error? (list.run config state).1).map
      (fun error => error.failure.fileErrors.map (·.phase)) = some ["polish", "polish"] := by
    decide +kernel
  refine ⟨accepted, silent, rfl, never, ?_⟩
  rcases ran : list.run config state with ⟨(⟨id, description, unit, failure⟩ | _) | _, last⟩
  · rw [ran] at never phases
    have reported := (run_reports accepted silent rfl ran never).2 _ rfl
    have inner : failure.fileErrors.map (·.phase) = ["polish", "polish"] := Option.some.inj phases
    cases failure with
    | inFiles errors => exact ⟨_, errors, rfl, rfl, inner, reported⟩
    | inFile path error => cases (List.cons.inj inner).2
    | reported | violated | unsettled | prerequisiteNotRun | cancelled => cases inner
  · rw [ran] at phases
    cases phases
  · rw [ran] at phases
    cases phases

end PhaseList

end StagedLowering
