import StagedLowering.Proofs.Calls
import StagedLowering.Proofs.Gains

/-!
# What a run writes down

A runner keeps the history, the dumps, and the phases done and skipped in its scope. With bodies
that leave these alone, or write to them at other depths only, what a run wrote there tells which
phases it passed, which bodies it called, and what stopped it (`PhaseList.exists_chronicle`).
-/

namespace StagedLowering

variable {σ υ : Type}

/-- The scopes are as before as far as a runner is concerned, and these records and dumps were
added. -/
structure Context.Grows (before : Context) (records : List Record) (dumps : List Dump)
    (after : Context) : Prop where
  enclosing : after.enclosing = before.enclosing
  label : after.scope.label = before.scope.label
  depth : after.scope.depth = before.scope.depth
  executed : after.scope.executed = before.scope.executed
  skipped : after.scope.skipped = before.scope.skipped
  history : after.history = before.history ++ records
  dumps : after.dumps = before.dumps ++ dumps

def Run.Discreet {α : Type} (act : Run σ υ Failure α) : Prop :=
  ∀ ⦃state after : State σ υ⦄ ⦃result⦄, act state = (result, after) → result ≠ .error .fault →
    state.context.Grows [] [] after.context

def Record.subject (record : Record) : PhaseId × String := (record.phase, record.unit)

def Dump.subject (dump : Dump) : PhaseId × String := (dump.phase, dump.unit)

/-- The records after which the unit was dumped. -/
def Config.dumped (config : Config) (records : List Record) : List Record :=
  records.filter fun record => record.outcome = .completed ∧ config.shouldDump record.phase

def Config.recordOf {β : Type} (config : Config) (label : String) (depth : Nat) (phase : Phase β) :
    Record :=
  phase.record label depth (if config.isEnabled phase.id then .completed else .skipped)

namespace Call

variable {β : Type}

def records (call : Call β σ υ) : List Record :=
  call.after.context.history.drop call.before.context.history.length

def dumps (call : Call β σ υ) : List Dump :=
  call.after.context.dumps.drop call.before.context.dumps.length

def ownDump [WorkUnit υ] (config : Config) (label : String) (call : Call β σ υ) : List Dump :=
  if call.result.isOk ∧ config.shouldDump call.phase.id then
    [⟨call.phase.id, label, WorkUnit.render call.after.unit⟩]
  else []

/-- A call that leaves alone what the runner keeps, but for records at other depths and the dumps
that belong to them. -/
structure Tame (config : Config) (call : Call β σ υ) : Prop where
  grows : call.before.context.Grows call.records call.dumps call.after.context
  nested : ∀ record ∈ call.records, record.depth ≠ call.before.context.scope.depth
  subjects : call.dumps.map Dump.subject = (config.dumped call.records).map Record.subject

variable {call : Call β σ υ}

theorem records_of_grows {records : List Record} {dumps : List Dump}
    (grows : call.before.context.Grows records dumps call.after.context) :
    call.records = records ∧ call.dumps = dumps := by
  unfold Call.records Call.dumps
  rw [grows.history, grows.dumps]
  exact ⟨List.drop_left, List.drop_left⟩

theorem tame_of_silent {config : Config}
    (silent : call.before.context.Grows [] [] call.after.context) : call.Tame config := by
  obtain ⟨noRecords, noDumps⟩ := records_of_grows silent
  exact {
    grows := noRecords.symm ▸ noDumps.symm ▸ silent
    nested := fun record member => absurd (noRecords ▸ member) List.not_mem_nil
    subjects := by simp [noRecords, noDumps, Config.dumped] }

end Call

variable {β : Type} [Executable β σ υ] [WorkUnit υ] {config : Config} {label : String}

/-- What was written down over some calls, in a scope that stays as deep as it was. -/
structure Noting (config : Config) (label : String) (state : State σ υ) (calls : List (Call β σ υ))
    (records : List Record) (dumps : List Dump) (last : State σ υ) : Prop where
  made : Calls config state calls last
  enclosing : last.context.enclosing = state.context.enclosing
  labelled : last.context.scope.label = state.context.scope.label
  depth : last.context.scope.depth = state.context.scope.depth
  history : last.context.history = state.context.history ++ records
  dumped : last.context.dumps = state.context.dumps ++ dumps
  /-- The records at other depths were written during calls. -/
  nested : records.filter (·.depth ≠ state.context.scope.depth) = calls.flatMap Call.records
  texts : dumps = calls.flatMap fun call => call.dumps ++ call.ownDump config label
  subjects : dumps.map Dump.subject = (config.dumped records).map Record.subject

theorem Noting.trans {state middle last : State σ υ} {calls more : List (Call β σ υ)}
    {records moreRecords : List Record} {dumps moreDumps : List Dump}
    (first : Noting config label state calls records dumps middle)
    (second : Noting config label middle more moreRecords moreDumps last) :
    Noting config label state (calls ++ more) (records ++ moreRecords) (dumps ++ moreDumps) last where
  made := first.made.append second.made
  enclosing := second.enclosing.trans first.enclosing
  labelled := second.labelled.trans first.labelled
  depth := second.depth.trans first.depth
  history := by rw [second.history, first.history, List.append_assoc]
  dumped := by rw [second.dumped, first.dumped, List.append_assoc]
  nested := by
    rw [List.filter_append, List.flatMap_append, first.nested, ← first.depth, second.nested]
  texts := by rw [List.flatMap_append, ← first.texts, ← second.texts]
  subjects := by
    rw [List.map_append, first.subjects, second.subjects, Config.dumped, Config.dumped, Config.dumped,
      List.filter_append, List.map_append]

/-- The trace is not part of what is written down. -/
theorem Noting.traced (state : State σ υ) (trace : Trace) :
    Noting config label state ([] : List (Call β σ υ)) [] [] { state with trace } where
  made := .none (state.recorded_trace trace).toNoted
  enclosing := rfl
  labelled := rfl
  depth := rfl
  history := (List.append_nil _).symm
  dumped := (List.append_nil _).symm
  nested := rfl
  texts := rfl
  subjects := rfl

def Phase.Tame (config : Config) (phase : Phase β) : Prop :=
  ∀ ⦃before after : State σ υ⦄ ⦃result⦄,
    Executable.run phase.body config before = (result, after) → result ≠ .error .fault →
      Call.Tame config ⟨phase, before, result, after⟩

namespace Phase

variable {phase : Phase β} {state after last : State σ υ} {calls : List (Call β σ υ)}

/-- A call and the record that follows it. -/
theorem noting_call {call : Call β σ υ} {record : Record} {gain : Gain}
    (begun : call.before = call.phase.begin config label state)
    (ran : Executable.run call.phase.body config call.before = (call.result, call.after))
    (returned : call.result ≠ .error .fault) (tame : call.Tame config)
    (noted : call.after.Noted last) (adds : call.after.context.Adds gain last.context)
    (single : gain.history = [record]) (depth : record.depth = state.context.scope.depth)
    (own : gain.dumps = call.ownDump config label)
    (subjects : gain.dumps.map Dump.subject = (config.dumped [record]).map Record.subject) :
    Noting config label state [call] (call.records ++ [record]) (call.dumps ++ gain.dumps) last ∧
      (call.records ++ [record]).filter (·.depth = state.context.scope.depth) = [record] := by
  have context : call.before.context = state.context := by
    rw [begun]
    rfl
  have grows := tame.grows
  rw [context] at grows
  have deeper : ∀ record ∈ call.records, record.depth ≠ state.context.scope.depth :=
    fun record member => context ▸ tame.nested record member
  refine ⟨{
    made := .call (begun ▸ noted_begin state) ran returned (.none noted)
    enclosing := noted.enclosing.trans grows.enclosing
    labelled := noted.label.trans grows.label
    depth := noted.depth.trans grows.depth
    history := by rw [adds.history, grows.history, single, List.append_assoc]
    dumped := by rw [adds.dumps, grows.dumps, List.append_assoc]
    nested := ?_
    texts := by rw [own, List.flatMap_singleton]
    subjects := ?_ }, ?_⟩
  · have all : call.records.filter (·.depth ≠ state.context.scope.depth) = call.records :=
      List.filter_eq_self.mpr fun record member => decide_eq_true (deeper record member)
    rw [List.filter_append, all, List.flatMap_singleton]
    simp [depth]
  · rw [List.map_append, tame.subjects, subjects, Config.dumped, Config.dumped, Config.dumped,
      List.filter_append, List.map_append]
  · have none : call.records.filter (·.depth = state.context.scope.depth) = [] :=
      List.filter_eq_nil_iff.mpr fun record member => by simp [deeper record member]
    rw [List.filter_append, none]
    simp [depth]

end Phase

structure Passing (config : Config) (label : String) (state : State σ υ) (phases : List (Phase β))
    (calls : List (Call β σ υ)) (records : List Record) (dumps : List Dump) (last : State σ υ) :
    Prop extends Noting config label state calls records dumps last where
  own : records.filter (·.depth = state.context.scope.depth) =
    phases.map (config.recordOf label state.context.scope.depth)
  executed : last.context.scope.executed = state.context.scope.executed ++
    (phases.filter (config.isEnabled ·.id)).map (·.id)
  skipped : last.context.scope.skipped = state.context.scope.skipped ++
    (phases.filter (!config.isEnabled ·.id)).map (·.id)
  called : calls.map (·.phase) = phases.filter (config.isEnabled ·.id)
  succeeded : ∀ call ∈ calls, call.result = .ok ()

theorem Passing.nil (config : Config) (label : String) (state : State σ υ) :
    Passing config label state ([] : List (Phase β)) [] [] [] state where
  toNoting := .traced state state.trace
  own := rfl
  executed := (List.append_nil _).symm
  skipped := (List.append_nil _).symm
  called := rfl
  succeeded := nofun

theorem Passing.append {state middle last : State σ υ} {phases rest : List (Phase β)}
    {calls more : List (Call β σ υ)} {records moreRecords : List Record}
    {dumps moreDumps : List Dump}
    (first : Passing config label state phases calls records dumps middle)
    (second : Passing config label middle rest more moreRecords moreDumps last) :
    Passing config label state (phases ++ rest) (calls ++ more) (records ++ moreRecords)
      (dumps ++ moreDumps) last where
  toNoting := first.toNoting.trans second.toNoting
  own := by
    rw [List.filter_append, List.map_append, first.own, ← first.depth, second.own]
  executed := by
    rw [second.executed, first.executed, List.append_assoc, List.filter_append, List.map_append]
  skipped := by
    rw [second.skipped, first.skipped, List.append_assoc, List.filter_append, List.map_append]
  called := by rw [List.map_append, List.filter_append, first.called, second.called]
  succeeded call member := by
    rcases List.mem_append.mp member with early | late
    · exact first.succeeded call early
    · exact second.succeeded call late

theorem Phase.Passed.passing {phase : Phase β} {state last : State σ υ} {calls : List (Call β σ υ)}
    (passed : phase.Passed config label state calls last) (tame : phase.Tame config) :
    ∃ records dumps, Passing config label state [phase] calls records dumps last := by
  cases passed with
  | skipped going disabled =>
    exact ⟨[phase.record label state.context.scope.depth .skipped], [], {
      made := .none (noted_skip state)
      enclosing := rfl
      labelled := rfl
      depth := rfl
      history := rfl
      dumped := (List.append_nil _).symm
      nested := by simp [Phase.record]
      texts := rfl
      subjects := by simp [Config.dumped, Phase.record]
      own := by simp [Config.recordOf, disabled, Phase.record]
      executed := by simp [disabled, skip, Context.markSkipped, Context.record, Scope.markSkipped]
      skipped := by simp [disabled, skip, Context.markSkipped, Context.record, Scope.markSkipped]
      called := by simp [disabled]
      succeeded := nofun }⟩
  | @completed after going enabled ready ran =>
    have returned : (.ok () : Except (Stop Failure) Unit) ≠ .error .fault := nofun
    have tame := tame ran returned
    have grows := tame.grows
    have noted : after.Noted (phase.finish config label state.context.scope.depth after) :=
      noted_finish after
    have adds : after.context.Adds _
        (phase.finish config label state.context.scope.depth after).context := adds_finish after
    have subjects : (if config.shouldDump phase.id then
        [(⟨phase.id, label, WorkUnit.render after.unit⟩ : Dump)] else []).map Dump.subject =
          (config.dumped [phase.record label state.context.scope.depth .completed]).map
            Record.subject := by
      cases dumps : config.shouldDump phase.id <;>
        simp [Config.dumped, Phase.record, dumps, Dump.subject, Record.subject]
    obtain ⟨noting, own⟩ := noting_call rfl ran returned tame noted adds rfl rfl
      (by simp [Call.ownDump, Except.isOk, Except.toBool]) subjects
    exact ⟨_, _, {
      toNoting := noting
      own := by simpa [Config.recordOf, enabled] using own
      executed := by
        rw [executed_finish, grows.executed]
        simp [enabled, begin]
      skipped := by
        rw [skipped_finish, grows.skipped]
        simp [enabled, begin]
      called := by simp [enabled]
      succeeded := by simp }⟩

theorem Passes.passing {phases : List (Phase β)} {state last : State σ υ}
    {calls : List (Call β σ υ)} (passes : Passes config label state phases calls last)
    (tame : ∀ phase ∈ phases, phase.Tame config) :
    ∃ records dumps, Passing config label state phases calls records dumps last := by
  induction passes with
  | nil state => exact ⟨[], [], .nil config label state⟩
  | cons first _ ih =>
    obtain ⟨records, dumps, here⟩ := first.passing (tame _ List.mem_cons_self)
    obtain ⟨more, moreDumps, later⟩ := ih fun phase member => tame phase (List.mem_cons_of_mem _ member)
    exact ⟨_, _, here.append later⟩

/-- What stopped a run, or that nothing did, with the calls that were made, the records of the runner
itself and the phases that were passed. -/
inductive Told (config : Config) (label : String) (depth : Nat) (phases : List (Phase β)) :
    Except (Stop PhaseError) Unit → List (Call β σ υ) → List Record → List (Phase β) → Prop
  | finished {calls : List (Call β σ υ)}
    (called : calls.map (·.phase) = phases.filter (config.isEnabled ·.id))
    (succeeded : ∀ call ∈ calls, call.result = .ok ()) :
    Told config label depth phases (.ok ()) calls (phases.map (config.recordOf label depth)) phases
  | failed {done rest : List (Phase β)} {failing : Call β σ υ} {failure : Failure}
    {calls : List (Call β σ υ)} (split : phases = done ++ failing.phase :: rest)
    (called : calls.map (·.phase) = done.filter (config.isEnabled ·.id))
    (succeeded : ∀ call ∈ calls, call.result = .ok ())
    (enabled : config.isEnabled failing.phase.id = true)
    (failed : failing.result = .error (.error failure)) :
    Told config label depth phases (.error (.error (failing.phase.error label failure)))
      (calls ++ [failing])
      (done.map (config.recordOf label depth) ++ [failing.phase.record label depth .failed]) done
  | refused {done rest : List (Phase β)} {phase : Phase β} {failure : Failure}
    {calls : List (Call β σ υ)} (split : phases = done ++ phase :: rest)
    (called : calls.map (·.phase) = done.filter (config.isEnabled ·.id))
    (succeeded : ∀ call ∈ calls, call.result = .ok ())
    (own : failure = .cancelled ∨ ∃ prerequisite, failure = .prerequisiteNotRun prerequisite) :
    Told config label depth phases (.error (.error (phase.error label failure))) calls
      (done.map (config.recordOf label depth)) done

omit [Executable β σ υ] [WorkUnit υ] in
theorem Told.mem {depth : Nat} {phases done : List (Phase β)}
    {result : Except (Stop PhaseError) Unit} {calls : List (Call β σ υ)} {own : List Record}
    (told : Told config label depth phases result calls own done) {call : Call β σ υ}
    (member : call ∈ calls) : call.phase ∈ phases := by
  have passed {calls : List (Call β σ υ)} {done : List (Phase β)}
      (called : calls.map (·.phase) = done.filter (config.isEnabled ·.id)) (member : call ∈ calls) :
      call.phase ∈ done :=
    (List.mem_filter.mp (called ▸ List.mem_map_of_mem member)).1
  cases told with
  | finished called _ => exact passed called member
  | failed split called _ _ _ =>
    rcases List.mem_append.mp member with early | last
    · exact split ▸ List.mem_append_left _ (passed called early)
    · rw [List.mem_singleton.mp last, split]
      exact List.mem_append_right _ List.mem_cons_self
  | refused split called _ _ => exact split ▸ List.mem_append_left _ (passed called member)

structure Chronicle (config : Config) (phases : List (Phase β)) (label : String)
    (state : State σ υ) (result : Except (Stop PhaseError) Unit) (calls : List (Call β σ υ))
    (records : List Record) (dumps : List Dump) (last : State σ υ) : Prop
    extends Noting config label state calls records dumps last where
  told : ∃ done, Told config label state.context.scope.depth phases result calls
      (records.filter (·.depth = state.context.scope.depth)) done ∧
    last.context.scope.executed = state.context.scope.executed ++
      (done.filter (config.isEnabled ·.id)).map (·.id) ∧
    last.context.scope.skipped = state.context.scope.skipped ++
      (done.filter (!config.isEnabled ·.id)).map (·.id)

/-- A phase that stops the run calls its body, which fails and gets a record, or nothing. -/
theorem Phase.Stopped.chronicle {phases done rest : List (Phase β)} {phase : Phase β}
    {state middle last : State σ υ} {calls more : List (Call β σ υ)} {records : List Record}
    {dumps : List Dump} {failure : Failure} (split : phases = done ++ phase :: rest)
    (passing : Passing config label state done calls records dumps middle)
    (stopped : phase.Stopped config label middle more failure last) (tame : phase.Tame config) :
    ∃ records dumps, Chronicle config phases label state
      (.error (.error (phase.error label failure))) (calls ++ more) records dumps last := by
  have own := passing.own
  cases stopped with
  | cancelled flagged =>
    have noting := passing.toNoting.trans
      (.traced middle (middle.trace.emit (.cancelledBefore phase.id label)))
    rw [List.append_nil] at noting ⊢
    rw [List.append_nil, List.append_nil] at noting
    exact ⟨records, dumps, {
      toNoting := noting
      told := ⟨done, own ▸ .refused split passing.called passing.succeeded (.inl rfl),
        passing.executed, passing.skipped⟩ }⟩
  | unready going enabled missing =>
    rw [List.append_nil]
    exact ⟨records, dumps, {
      toNoting := passing.toNoting
      told := ⟨done, own ▸ .refused split passing.called passing.succeeded (.inr ⟨_, rfl⟩),
        passing.executed, passing.skipped⟩ }⟩
  | @failed failure after going enabled ready ran =>
    have returned : (.error (.error failure) : Except (Stop Failure) Unit) ≠ .error .fault := nofun
    have tame := tame ran returned
    have grows := tame.grows
    have noted : after.Noted (phase.giveUp config label middle.context.scope.depth failure after) :=
      noted_giveUp after
    have adds : after.context.Adds _
        (phase.giveUp config label middle.context.scope.depth failure after).context :=
      adds_giveUp after
    obtain ⟨noting, here⟩ := noting_call rfl ran returned tame noted adds rfl rfl rfl
      (by simp [Config.dumped, Phase.record])
    refine ⟨_, _, { toNoting := passing.toNoting.trans noting, told := ⟨done, ?_, ?_, ?_⟩ }⟩
    · let failing : Call β σ υ :=
        ⟨phase, phase.begin config label middle, .error (.error failure), after⟩
      have failed : failing.result = .error (.error failure) := rfl
      rw [List.filter_append, own, ← passing.depth, here]
      exact .failed split passing.called passing.succeeded enabled failed
    · rw [scope_giveUp, grows.executed]
      exact passing.executed
    · rw [scope_giveUp, grows.skipped]
      exact passing.skipped

theorem Course.chronicle {phases : List (Phase β)} {state last : State σ υ}
    {result : Except (Stop PhaseError) Unit} {calls : List (Call β σ υ)}
    (course : Course config label phases state result calls last)
    (tame : ∀ phase ∈ phases, phase.Tame config) :
    ∃ records dumps, Chronicle config phases label state result calls records dumps last := by
  cases course with
  | finished passed =>
    obtain ⟨records, dumps, passing⟩ := passed.passing tame
    exact ⟨records, dumps, {
      toNoting := passing.toNoting
      told := ⟨phases, passing.own ▸ .finished passing.called passing.succeeded,
        passing.executed, passing.skipped⟩ }⟩
  | stopped split passed stopped =>
    obtain ⟨records, dumps, passing⟩ := passed.passing fun phase member =>
      tame phase (split ▸ List.mem_append_left _ member)
    exact stopped.chronicle split passing
      (tame _ (split ▸ List.mem_append_right _ List.mem_cons_self))

theorem PhaseList.exists_chronicle {list : PhaseList β} {state last : State σ υ}
    {result : Except (Stop PhaseError) Unit} (tame : ∀ phase ∈ list.phases, phase.Tame config)
    (ran : list.run config state = (result, last)) (returned : result ≠ .error .fault) :
    ∃ calls records dumps, Chronicle config list.phases (WorkUnit.label state.unit) state result calls
      records dumps last := by
  obtain ⟨calls, course⟩ := Run.exists_course ran returned
  exact ⟨calls, course.chronicle tame⟩

/-! ### Bodies that leave everything alone -/

/-- What a run wrote down whose bodies write nothing themselves. -/
def PhaseList.Wrote (config : Config) (list : PhaseList (Body σ υ)) (state : State σ υ)
    (records : List Record) (dumps : List Dump) : Prop :=
  ∃ calls, (∀ call ∈ calls, call.records = [] ∧ call.dumps = []) ∧
    Chronicle config list.phases (WorkUnit.label state.unit) state (list.run config state).1 calls
      records dumps (list.run config state).2

namespace PhaseList

variable {list : PhaseList (Body σ υ)} {state : State σ υ} {records : List Record}
  {dumps : List Dump}

theorem exists_wrote (discreet : ∀ phase ∈ list.phases, (phase.body.run config).Discreet)
    (returned : (list.run config state).1 ≠ .error .fault) :
    ∃ records dumps, list.Wrote config state records dumps := by
  have tame : ∀ phase ∈ list.phases, phase.Tame config :=
    fun phase member _ _ _ ran ended => Call.tame_of_silent (discreet phase member ran ended)
  obtain ⟨calls, records, dumps, chronicle⟩ := exists_chronicle tame rfl returned
  refine ⟨records, dumps, calls, fun call member => ?_, chronicle⟩
  obtain ⟨done, told, -, -⟩ := chronicle.told
  obtain ⟨ran, ended⟩ := chronicle.made.ran member
  exact Call.records_of_grows (discreet call.phase (told.mem member) ran ended)

/-- The records of such a run are all its own. -/
theorem Wrote.depth (wrote : list.Wrote config state records dumps) :
    ∀ record ∈ records, record.depth = state.context.scope.depth := by
  obtain ⟨calls, silent, chronicle⟩ := wrote
  have nested := chronicle.nested
  have none : calls.flatMap Call.records = [] :=
    List.flatMap_eq_nil_iff.mpr fun call member => (silent call member).1
  rw [none, List.filter_eq_nil_iff] at nested
  intro record member
  simpa using nested record member

end PhaseList

end StagedLowering
