import StagedLowering.Pipeline

/-!
# Execution

What each operation of a run does to the state, and from that what a phase does: it runs its body
between `Phase.begin` and `Phase.finish` or `Phase.giveUp` (`Phase.execute_apply`). In a list whose
phases are all enabled no prerequisite is ever missing (`PhaseList.run_eq_executeAll`).
-/

namespace StagedLowering

namespace Run

variable {σ υ ε ε' α β : Type} {state last : State σ υ}

theorem bind_apply (act : Run σ υ ε α) (next : α → Run σ υ ε β) (state : State σ υ) :
    (act >>= next) state =
      match act state with
      | (.ok a, after) => next a after
      | (.error stop, after) => (.error stop, after) := by
  show ExceptT.bindCont next (act state).1 (act state).2 = _
  rcases act state with ⟨stop | result, after⟩
  · rfl
  · rfl

@[simp] theorem pure_apply (a : α) (state : State σ υ) :
    (pure a : Run σ υ ε α) state = (.ok a, state) := rfl

@[simp] theorem fail_apply (error : ε) (state : State σ υ) :
    (fail error : Run σ υ ε α) state = (.error (.error error), state) := rfl

@[simp] theorem getContext_apply (state : State σ υ) :
    (getContext : Run σ υ ε Context) state = (.ok state.context, state) := rfl

@[simp] theorem getUnit_apply (state : State σ υ) :
    (getUnit : Run σ υ ε υ) state = (.ok state.unit, state) := rfl

@[simp] theorem onContext_apply (change : Context → Context) (state : State σ υ) :
    (onContext change : Run σ υ ε Unit) state =
      (.ok (), { state with context := change state.context }) := rfl

@[simp] theorem emit_apply (event : Event) (state : State σ υ) :
    (emit event : Run σ υ ε Unit) state =
      (.ok (), { state with trace := state.trace.emit event }) := rfl

theorem attempt_apply (act : Run σ υ ε α) (state : State σ υ) :
    (attempt act : Run σ υ ε' (Except ε α)) state =
      match act state with
      | (.ok a, after) => (.ok (.ok a), after)
      | (.error (.error error), after) => (.ok (.error error), after)
      | (.error .fault, after) => (.error .fault, after) := rfl

theorem inSpan_apply (span : Span) (act : Run σ υ ε α) (state : State σ υ) :
    inSpan span act state =
      match act { state with trace := state.trace.enter span } with
      | (result, after) => (result, { after with trace := after.trace.exit }) := rfl

theorem bind_of_ok {act : Run σ υ ε α} {next : α → Run σ υ ε β} {a : α} {mid : State σ υ}
    (first : act state = (.ok a, mid)) : (act >>= next) state = next a mid := by
  rw [bind_apply, first]

theorem bind_of_error {act : Run σ υ ε α} {next : α → Run σ υ ε β} {stop : Stop ε}
    (first : act state = (.error stop, last)) : (act >>= next) state = (.error stop, last) := by
  rw [bind_apply, first]

theorem bind_ok {act : Run σ υ ε α} {next : α → Run σ υ ε β} {b : β}
    (ran : (act >>= next) state = (.ok b, last)) :
    ∃ a mid, act state = (.ok a, mid) ∧ next a mid = (.ok b, last) := by
  rw [bind_apply] at ran
  split at ran
  · next a mid first => exact ⟨a, mid, first, ran⟩
  · cases ran

theorem forM_cons_eq (step : α → Run σ υ ε Unit) (a : α) (rest : List α) :
    (a :: rest).forM step = step a >>= fun _ => rest.forM step := rfl

theorem forM_ok {step : α → Run σ υ ε Unit} {a : α} {rest : List α}
    (ran : (a :: rest).forM step state = (.ok (), last)) :
    ∃ mid, step a state = (.ok (), mid) ∧ rest.forM step mid = (.ok (), last) := by
  obtain ⟨⟨⟩, mid, first, later⟩ := bind_ok ran
  exact ⟨mid, first, later⟩

theorem forM_of_ok {step : α → Run σ υ ε Unit} {a : α} {rest : List α}
    (first : step a state = (.ok (), last)) :
    (a :: rest).forM step state = rest.forM step last := by
  rw [forM_cons_eq, bind_of_ok first]

theorem forM_append_of_ok {step : α → Run σ υ ε Unit} {done : List α}
    (passed : done.forM step state = (.ok (), last)) (rest : List α) :
    (done ++ rest).forM step state = rest.forM step last := by
  induction done generalizing state with
  | nil =>
    cases passed
    rfl
  | cons a done ih =>
    obtain ⟨mid, first, later⟩ := forM_ok passed
    rw [List.cons_append, forM_of_ok first, ih later]

theorem forM_append_ok {step : α → Run σ υ ε Unit} {done rest : List α}
    (ran : (done ++ rest).forM step state = (.ok (), last)) :
    ∃ mid, done.forM step state = (.ok (), mid) ∧ rest.forM step mid = (.ok (), last) := by
  induction done generalizing state with
  | nil => exact ⟨state, rfl, ran⟩
  | cons a done ih =>
    obtain ⟨next, first, later⟩ := forM_ok ran
    obtain ⟨mid, passed, more⟩ := ih later
    exact ⟨mid, (forM_of_ok first).trans passed, more⟩

theorem forM_of_error {step : α → Run σ υ ε Unit} {a : α} {rest : List α} {stop : Stop ε}
    (first : step a state = (.error stop, last)) :
    (a :: rest).forM step state = (.error stop, last) := by
  rw [forM_cons_eq, bind_of_error first]

def error? : Except (Stop ε) Unit → Option ε
  | .error (.error error) => some error
  | _ => none

def faulted : Except (Stop ε) α → Bool
  | .error .fault => true
  | _ => false

theorem faulted_eq_false_iff {result : Except (Stop ε) α} :
    faulted result = false ↔ result ≠ .error .fault := by
  rcases result with (error | _) | a
  · exact ⟨nofun, fun _ => rfl⟩
  · exact ⟨nofun, fun returned => absurd rfl returned⟩
  · exact ⟨nofun, fun _ => rfl⟩

end Run

/-! ### One phase -/

/-- Two states that differ in what a runner writes down at most: the trace, the history, dumps,
diagnostics, and the phases that the scope counts as executed or skipped. -/
structure State.Noted {σ υ : Type} (before after : State σ υ) : Prop where
  outer : after.outer = before.outer
  unit : after.unit = before.unit
  symbols : after.context.symbols = before.context.symbols
  statistics : after.context.statistics = before.context.statistics
  cancelled : after.context.cancelled = before.context.cancelled
  enclosing : after.context.enclosing = before.context.enclosing
  label : after.context.scope.label = before.context.scope.label
  depth : after.context.scope.depth = before.context.scope.depth
  scratch : after.context.scope.scratch = before.context.scope.scratch

theorem State.Noted.trans {σ υ : Type} {first middle last : State σ υ}
    (left : first.Noted middle) (right : middle.Noted last) : first.Noted last where
  outer := right.outer.trans left.outer
  unit := right.unit.trans left.unit
  symbols := right.symbols.trans left.symbols
  statistics := right.statistics.trans left.statistics
  cancelled := right.cancelled.trans left.cancelled
  enclosing := right.enclosing.trans left.enclosing
  label := right.label.trans left.label
  depth := right.depth.trans left.depth
  scratch := right.scratch.trans left.scratch

/-- A runner writes its records and diagnostics behind those that are there. -/
structure State.Recorded {σ υ : Type} (before after : State σ υ) : Prop
    extends State.Noted before after where
  history : before.context.history <+: after.context.history
  diagnostics : before.context.diagnostics <+: after.context.diagnostics

theorem State.recorded_trace {σ υ : Type} (state : State σ υ) (trace : Trace) :
    state.Recorded { state with trace } :=
  ⟨⟨rfl, rfl, rfl, rfl, rfl, rfl, rfl, rfl, rfl⟩, List.prefix_rfl, List.prefix_rfl⟩

namespace Phase

variable {β σ υ : Type} {config : Config} {label : String} {depth : Nat} {failure : Failure}
  {phase : Phase β} {state after : State σ υ}

def close (config : Config) (event : Event) (trace : Trace) : Trace :=
  ((if config.debug.timings then trace.emit .timed else trace).emit event).exit

def giveUp (config : Config) (label : String) (depth : Nat) (failure : Failure) (phase : Phase β)
    (after : State σ υ) : State σ υ :=
  let context := after.context.record (phase.record label depth .failed)
  { after with
    context :=
      if failure.isNested then context else context.report (.ofFailure phase.id failure)
    trace := close config (.failed failure) after.trace }

theorem noted_giveUp (after : State σ υ) :
    after.Noted (phase.giveUp config label depth failure after) := by
  unfold giveUp
  cases failure.isNested
  · exact ⟨rfl, rfl, rfl, rfl, rfl, rfl, rfl, rfl, rfl⟩
  · exact ⟨rfl, rfl, rfl, rfl, rfl, rfl, rfl, rfl, rfl⟩

theorem recorded_giveUp (after : State σ υ) :
    after.Recorded (phase.giveUp config label depth failure after) := by
  refine ⟨noted_giveUp after, ?_, ?_⟩
  · unfold giveUp
    cases failure.isNested <;> exact List.prefix_append _ _
  · unfold giveUp
    cases failure.isNested
    · exact List.prefix_append _ _
    · exact List.prefix_rfl

theorem scope_giveUp (after : State σ υ) :
    (phase.giveUp config label depth failure after).context.scope = after.context.scope := by
  unfold giveUp
  cases failure.isNested
  · rfl
  · rfl

theorem abort_apply (depth : Nat) (failure : Failure) (phase : Phase β) (state : State σ υ) :
    phase.abort label depth failure state =
      (.error (.error (phase.error label failure)), { state with
        context :=
          let context := state.context.record (phase.record label depth .failed)
          if failure.isNested then context else context.report (.ofFailure phase.id failure)
        trace := state.trace.emit (.failed failure) }) := by
  unfold Phase.abort
  cases failure.isNested
  · rfl
  · rfl

def skip (label : String) (phase : Phase β) (state : State σ υ) : State σ υ :=
  { state with
    trace := state.trace.emit (.skipped phase.id label)
    context := (state.context.markSkipped phase.id).record
      (phase.record label state.context.scope.depth .skipped) }

theorem noted_skip (state : State σ υ) : state.Noted (phase.skip label state) :=
  ⟨rfl, rfl, rfl, rfl, rfl, rfl, rfl, rfl, rfl⟩

theorem recorded_skip (state : State σ υ) : state.Recorded (phase.skip label state) :=
  ⟨noted_skip state, List.prefix_append _ _, List.prefix_rfl⟩

variable [WorkUnit υ]

def finish (config : Config) (label : String) (depth : Nat) (phase : Phase β)
    (after : State σ υ) : State σ υ :=
  let context :=
    (after.context.markDone phase.id).record (phase.record label depth .completed)
  { after with
    context :=
      if config.shouldDump phase.id then
        context.recordDump ⟨phase.id, label, WorkUnit.render after.unit⟩
      else context
    trace := close config .completed after.trace }

theorem noted_finish (after : State σ υ) :
    after.Noted (phase.finish config label depth after) := by
  unfold finish
  cases config.shouldDump phase.id
  · exact ⟨rfl, rfl, rfl, rfl, rfl, rfl, rfl, rfl, rfl⟩
  · exact ⟨rfl, rfl, rfl, rfl, rfl, rfl, rfl, rfl, rfl⟩

theorem recorded_finish (after : State σ υ) :
    after.Recorded (phase.finish config label depth after) := by
  refine ⟨noted_finish after, ?_, ?_⟩
  · unfold finish
    cases config.shouldDump phase.id <;> exact List.prefix_append _ _
  · unfold finish
    cases config.shouldDump phase.id <;> exact List.prefix_rfl

theorem executed_finish (after : State σ υ) :
    (phase.finish config label depth after).context.scope.executed =
      after.context.scope.executed ++ [phase.id] := by
  unfold finish
  cases config.shouldDump phase.id
  · rfl
  · rfl

theorem skipped_finish (after : State σ υ) :
    (phase.finish config label depth after).context.scope.skipped = after.context.scope.skipped := by
  unfold finish
  cases config.shouldDump phase.id
  · rfl
  · rfl

theorem complete_apply (depth : Nat) (phase : Phase β) (state : State σ υ) :
    phase.complete config label depth state =
      (.ok (), { state with
        context :=
          let context :=
            (state.context.markDone phase.id).record (phase.record label depth .completed)
          if config.shouldDump phase.id then
            context.recordDump ⟨phase.id, label, WorkUnit.render state.unit⟩
          else context
        trace := state.trace.emit .completed }) := by
  unfold Phase.complete
  cases config.shouldDump phase.id
  · rfl
  · rfl

variable [Executable β σ υ]

def begin (config : Config) (label : String) (phase : Phase β) (state : State σ υ) : State σ υ :=
  { state with
    trace := (state.trace.enter (.phase phase.id label)).emit
      (.started config.debug.verbose (Executable.kind phase.body) phase.description) }

omit [WorkUnit υ] in
theorem noted_begin (state : State σ υ) : state.Noted (phase.begin config label state) :=
  ⟨rfl, rfl, rfl, rfl, rfl, rfl, rfl, rfl, rfl⟩

/-- The body runs once, and how it ends is how the phase ends. -/
theorem execute_apply (config : Config) (label : String) (depth : Nat) (phase : Phase β)
    (state : State σ υ) :
    phase.execute config label depth state =
      match Executable.run phase.body config (phase.begin config label state) with
      | (.ok (), after) => (.ok (), phase.finish config label depth after)
      | (.error (.error failure), after) =>
        (.error (.error (phase.error label failure)),
          phase.giveUp config label depth failure after)
      | (.error .fault, after) => (.error .fault, { after with trace := after.trace.exit }) := by
  unfold Phase.execute
  rw [Run.inSpan_apply, Run.bind_of_ok (Run.emit_apply _ _), Run.bind_apply, Run.attempt_apply]
  unfold Phase.begin
  rcases Executable.run phase.body config _ with ⟨(failure | _) | _, after⟩
  · unfold giveUp close
    cases config.debug.timings
    · simp [abort_apply]
    · simp [Run.bind_apply, abort_apply]
  · rfl
  · unfold finish close
    cases config.debug.timings
    · simp [complete_apply]
    · simp [Run.bind_apply, complete_apply]

/-- Cancellation comes before everything, being disabled before missing prerequisites. -/
theorem run_apply (config : Config) (label : String) (phase : Phase β) (state : State σ υ) :
    phase.run config label state =
      if state.context.cancelled then
        (.error (.error (phase.error label .cancelled)),
          { state with trace := state.trace.emit (.cancelledBefore phase.id label) })
      else if !config.isEnabled phase.id then (.ok (), phase.skip label state)
      else match phase.prerequisites.find? (!state.context.scope.isDone ·) with
        | some prerequisite =>
          (.error (.error (phase.error label (.prerequisiteNotRun prerequisite))), state)
        | none => phase.execute config label state.context.scope.depth state := by
  unfold Phase.run
  rw [Run.bind_of_ok (Run.getContext_apply state)]
  cases state.context.cancelled
  · cases config.isEnabled phase.id
    · rfl
    · cases phase.prerequisites.find? (!state.context.scope.isDone ·) <;> rfl
  · rfl

end Phase

/-! ### Lists of phases -/

/-- How a phase over files ends, from what the run over the files comes to. -/
def ModuleBody.concluded : Except (Stop Failure) (List PhaseError) → Except (Stop Failure) Unit
  | .ok [] => .ok ()
  | .ok errors => .error (.error (.inFiles errors))
  | .error stop => .error stop

theorem ModuleBody.concluded_ok_iff {errors : List PhaseError} :
    concluded (.ok errors) = .ok () ↔ errors = [] := by
  cases errors with
  | nil => exact ⟨fun _ => rfl, fun _ => rfl⟩
  | cons error more => exact ⟨nofun, nofun⟩

theorem ModuleBody.concluded_returned (errors : List PhaseError) :
    concluded (.ok errors) ≠ .error .fault := by
  cases errors with
  | nil => nofun
  | cons error more => nofun

/-- Leaving a scope changes nothing but the scopes. -/
theorem Context.exists_exitScope (context : Context) :
    ∃ scope enclosing, context.exitScope = { context with scope, enclosing } := by
  unfold Context.exitScope
  split
  · exact ⟨_, _, rfl⟩
  · exact ⟨_, _, rfl⟩

theorem Context.cancelled_exitScope (context : Context) :
    context.exitScope.cancelled = context.cancelled := by
  obtain ⟨scope, enclosing, exited⟩ := context.exists_exitScope
  rw [exited]

theorem Context.exitScope_of_enclosing {context : Context} {scope : Scope} {enclosing : List Scope}
    (around : context.enclosing = scope :: enclosing) :
    context.exitScope = { context with scope, enclosing } := by
  unfold Context.exitScope
  rw [around]

namespace PhaseList

variable {β σ υ : Type} {config : Config} {list : PhaseList (Body σ File)}

theorem run_apply [Executable β σ υ] [WorkUnit υ] (config : Config) (list : PhaseList β)
    (state : State σ υ) :
    list.run config state =
      list.phases.forM (Phase.run config (WorkUnit.label state.unit)) state := rfl

/-- The state in which the list of a file begins, in a scope of its own. -/
def enter (state : State σ File) : State σ File :=
  { state with
    trace := state.trace.enter (.file state.unit.path)
    context := state.context.enterScope state.unit.label }

def leave (state : State σ File) : State σ File :=
  { state with
    trace := state.trace.exit
    context := state.context.exitScope }

theorem runFile_apply (config : Config) (list : PhaseList (Body σ File)) (state : State σ File) :
    list.runFile config state =
      match list.run config (enter state) with
      | (.ok (), after) => (.ok (), leave after)
      | (.error (.error error), after) => (.error (.error error), leave after)
      | (.error .fault, after) => (.error .fault, { after with trace := after.trace.exit }) := by
  unfold runFile
  rw [Run.bind_of_ok (Run.getUnit_apply state), Run.inSpan_apply,
    Run.bind_of_ok (Run.onContext_apply _ _), Run.bind_apply, Run.attempt_apply]
  unfold enter
  rcases list.run config _ with ⟨(error | _) | _, after⟩
  · rfl
  · rfl
  · rfl

/-- The module with file `i` as a run on it left it, out of the scope of the file. -/
def putBack (m : Module) (i : Nat) (last : State σ File) : State σ Module :=
  { leave last with unit := m.setFile i last.unit }

theorem onFile_of_run {i : Nat} {file : File} {state : State σ Module} {last : State σ File}
    {result : Except (Stop PhaseError) Unit} (found : state.unit.files[i]? = some file)
    (ran : list.run config (enter { state with unit := file }) = (result, last))
    (returned : result ≠ .error .fault) :
    Run.onFile i (list.runFile config) state =
      (result, putBack state.unit i last) := by
  unfold Run.onFile
  rw [found]
  dsimp only
  rw [runFile_apply, ran]
  rcases result with (error | _) | _
  · rfl
  · exact absurd rfl returned
  · rfl

theorem exists_run_of_onFile {i : Nat} {state next : State σ Module}
    {result : Except (Stop PhaseError) Unit}
    (ran : Run.onFile i (list.runFile config) state = (result, next))
    (returned : result ≠ .error .fault) :
    ∃ file last, state.unit.files[i]? = some file ∧
      list.run config (enter { state with unit := file }) = (result, last) ∧
      next = putBack state.unit i last := by
  cases found : state.unit.files[i]? with
  | none =>
    unfold Run.onFile at ran
    rw [found] at ran
    cases ran
    exact absurd rfl returned
  | some file =>
    rcases ended : list.run config (enter { state with unit := file }) with ⟨inner, last⟩
    have faulted : inner ≠ .error .fault := by
      rintro rfl
      unfold Run.onFile at ran
      rw [found] at ran
      dsimp only at ran
      rw [runFile_apply, ended] at ran
      cases ran
      exact returned rfl
    cases (onFile_of_run found ended faulted).symm.trans ran
    exact ⟨file, last, rfl, ended, rfl⟩

theorem runFiles_cons (config : Config) (list : PhaseList (Body σ File)) (i : Nat)
    (rest : List Nat) (state : State σ Module) :
    list.runFiles config (i :: rest) state =
      match Run.onFile i (list.runFile config) state with
      | (.ok (), after) => list.runFiles config rest after
      | (.error (.error error), after) =>
        let path := (after.unit.files[i]?).elim "" (·.path)
        match config.filePolicy with
        | .failFast => (.error (.error (.inFile path error)), after)
        | .collectAll =>
          match list.runFiles config rest
              { after with trace := after.trace.emit (.fileFailed path error) } with
          | (.ok errors, last) => (.ok (error :: errors), last)
          | (.error stop, last) => (.error stop, last)
      | (.error .fault, after) => (.error .fault, after) := by
  rw [runFiles, Run.bind_apply, Run.attempt_apply]
  rcases Run.onFile i (list.runFile config) state with ⟨(error | _) | _, after⟩
  · dsimp only
    rw [Run.bind_of_ok (Run.getUnit_apply _)]
    cases config.filePolicy with
    | failFast => rfl
    | collectAll =>
      dsimp only
      rw [Run.bind_of_ok (Run.emit_apply _ _), Run.bind_apply]
      rcases list.runFiles config rest _ with ⟨stop | errors, last⟩
      · rfl
      · rfl
  · rfl
  · rfl

theorem perFile_apply (config : Config) (list : PhaseList (Body σ File))
    (state : State σ Module) :
    (ModuleBody.perFile list).run config state =
      match list.runFiles config (List.range state.unit.files.length) state with
      | (.ok [], after) => (.ok (), after)
      | (.ok (error :: more), after) => (.error (.error (.inFiles (error :: more))), after)
      | (.error stop, after) => (.error stop, after) := by
  unfold ModuleBody.run
  dsimp only
  rw [Run.bind_of_ok (Run.getUnit_apply state), Run.bind_apply]
  rcases list.runFiles config (List.range state.unit.files.length) state with
    ⟨stop | _ | ⟨error, more⟩, after⟩
  · rfl
  · rfl
  · rfl

theorem perFile_of_runFiles {state last : State σ Module}
    {result : Except (Stop Failure) (List PhaseError)}
    (ran : list.runFiles config (List.range state.unit.files.length) state = (result, last)) :
    (ModuleBody.perFile list).run config state = (ModuleBody.concluded result, last) := by
  rw [perFile_apply, ran]
  rcases result with stop | _ | ⟨error, more⟩
  · rfl
  · rfl
  · rfl

end PhaseList

/-! ### Pipelines -/

namespace Pipeline

variable {σ : Type}

theorem of_ok {config : Config} {phases : PhaseList (ModuleBody σ)} {pipeline : Pipeline σ}
    (accepted : of config phases = .ok pipeline) :
    pipeline.config = config ∧ pipeline.phases = phases := by
  unfold of at accepted
  split at accepted
  · cases accepted
    exact ⟨rfl, rfl⟩
  · cases accepted

def begin (state : State σ Module) : State σ Module :=
  { state with
    trace := (state.trace.enter (.pipeline state.unit.name)).emit
      (.runStarted state.unit.files.length)
    context := {} }

theorem run_apply (pipeline : Pipeline σ) (state : State σ Module) :
    ∃ trace : Trace, pipeline.run state =
      match pipeline.phases.run pipeline.config (begin state) with
      | (result, after) => (result, { after with trace }) := by
  unfold run runIn
  rw [Run.bind_of_ok (Run.onContext_apply _ _), Run.bind_of_ok (Run.getUnit_apply _),
    Run.inSpan_apply, Run.bind_of_ok (Run.emit_apply _ _), Run.bind_apply, Run.attempt_apply]
  unfold begin
  rcases pipeline.phases.run pipeline.config _ with ⟨(error | _) | _, after⟩
  · exact ⟨_, rfl⟩
  · exact ⟨_, rfl⟩
  · exact ⟨_, rfl⟩

end Pipeline
end StagedLowering
