import StagedLowering.Proofs.Frames
import StagedLowering.Proofs.Levels

/-!
# What the log tells

The log of a run and its history are written at different points. Read with the spans that its
entries stand in, the log tells of the same phases, units and outcomes as the history and in the
same order, at both levels and however the run ends. What the runner of a file says stands inside
the spans of its file and of the phase that goes over the files (`PhaseList.run_logs`).
-/

namespace StagedLowering

/-! ### Reading the log -/

def Event.outcome? : Event → Option Outcome
  | completed => some .completed
  | failed _ => some .failed
  | skipped _ _ => some .skipped
  | _ => none

def Event.ofRunner : Event → Bool
  | cancelledBefore _ _ | skipped _ _ | started _ _ _ | timed | completed | failed _ => true
  | _ => false

def Span.subject? : Span → Option (PhaseId × String)
  | phase id unit => some (id, unit)
  | _ => none

namespace Entry

/-- The phase and the unit that an entry is about. A skip names them itself, since no span is opened
for it; anything else is about the innermost phase whose span is open. -/
def subject? (entry : Entry) : Option (PhaseId × String) :=
  match entry.event with
  | .skipped phase unit => some (phase, unit)
  | _ => entry.spans.findSome? Span.subject?

def report? (entry : Entry) : Option (Option (PhaseId × String) × Outcome) :=
  entry.event.outcome?.map (entry.subject?, ·)

/-- A runner that works on `unit` inside `spans` says it of the phase `id`. A phase that it refuses
or passes over has no span of its own. -/
def SaidOf (id : PhaseId) (unit : String) (spans : List Span) (entry : Entry) : Prop :=
  match entry.event with
  | .cancelledBefore phase named | .skipped phase named =>
    phase = id ∧ named = unit ∧ entry.spans = spans
  | _ => entry.spans = .phase id unit :: spans

/-- The runner of this list says it, on a file whose span it works in, inside `spans`. -/
def InFile {σ : Type} (list : PhaseList (Body σ File)) (spans : List Span) (entry : Entry) : Prop :=
  ∃ file : File, ∃ phase ∈ list.phases,
    entry.SaidOf phase.id file.label (.file file.path :: spans)

theorem report?_of_silent {entry : Entry} (silent : entry.event.outcome? = none) :
    entry.report? = none := by
  rw [report?, silent]
  rfl

end Entry

def Record.report (record : Record) : Option (PhaseId × String) × Outcome :=
  (some record.subject, record.outcome)

theorem Event.outcome?_of_not_ofRunner {event : Event} (other : event.ofRunner = false) :
    event.outcome? = none := by
  cases event with
  | completed | failed _ | skipped _ _ => cases other
  | _ => rfl

/-! ### What a part of a log tells -/

/-- A log grew by entries that tell of these records. The spans are as they were, and `own` holds of
those spans and of each entry that comes from a runner. -/
structure Trace.Tells (own : List Span → Entry → Prop) (before : Trace) (records : List Record)
    (after : Trace) : Prop where
  spans : after.spans = before.spans
  grown : ∃ entries, after.entries.toList = before.entries.toList ++ entries ∧
    entries.filterMap Entry.report? = records.map Record.report ∧
    ∀ entry ∈ entries, entry.event.ofRunner = true → own before.spans entry

variable {own inner outer : List Span → Entry → Prop}

namespace Trace

variable {before middle after trace : Trace} {records more : List Record} {span : Span}

theorem Tells.refl (trace : Trace) : trace.Tells own [] trace :=
  ⟨rfl, [], by simp, rfl, by simp⟩

theorem Tells.trans (first : before.Tells own records middle)
    (second : middle.Tells own more after) : before.Tells own (records ++ more) after := by
  obtain ⟨spans, early, emitted, told, said⟩ := first
  obtain ⟨spansLate, late, emittedLate, toldLate, saidLate⟩ := second
  refine ⟨spansLate.trans spans, early ++ late, ?_, ?_, fun entry member fromRunner => ?_⟩
  · rw [emittedLate, emitted, List.append_assoc]
  · rw [List.filterMap_append, told, toldLate, List.map_append]
  · rcases List.mem_append.mp member with here | there
    · exact said entry here fromRunner
    · exact spans ▸ saidLate entry there fromRunner

theorem Tells.imp (told : before.Tells inner records after)
    (weaker : ∀ entry, inner before.spans entry → outer before.spans entry) :
    before.Tells outer records after := by
  obtain ⟨spans, entries, emitted, told, said⟩ := told
  exact ⟨spans, entries, emitted, told, fun entry member fromRunner =>
    weaker entry (said entry member fromRunner)⟩

theorem tells_emit {event : Event}
    (told : (Entry.report? ⟨trace.spans, event⟩).toList = records.map Record.report)
    (said : event.ofRunner = true → own trace.spans ⟨trace.spans, event⟩) :
    trace.Tells own records (trace.emit event) := by
  refine ⟨rfl, [⟨trace.spans, event⟩], by simp [emit], ?_, ?_⟩
  · rw [← told]
    cases report : Entry.report? ⟨trace.spans, event⟩ <;> simp [report]
  · intro entry member fromRunner
    obtain rfl := List.mem_singleton.mp member
    exact said fromRunner

/-- What is told inside a span is told once it is closed. -/
theorem Tells.within
    (inside : (before.enter span).Tells (fun spans => own spans.tail) records after) :
    before.Tells own records after.exit := by
  obtain ⟨spans, grown⟩ := inside
  refine ⟨?_, grown⟩
  rw [exit, spans]
  rfl

end Trace

/-! ### What a part of a run tells -/

variable {σ υ ε α : Type} {config : Config} {label : String}

def State.Logs (own : List Span → Entry → Prop) (before after : State σ υ) : Prop :=
  ∃ records, before.trace.Tells own records after.trace ∧
    after.context.history = before.context.history ++ records

namespace State.Logs

variable {before middle after state : State σ υ}

theorem refl (state : State σ υ) : state.Logs own state :=
  ⟨[], .refl _, (List.append_nil _).symm⟩

theorem trans (first : before.Logs own middle) (second : middle.Logs own after) :
    before.Logs own after := by
  obtain ⟨records, told, history⟩ := first
  obtain ⟨more, toldMore, historyMore⟩ := second
  exact ⟨records ++ more, told.trans toldMore, by rw [historyMore, history, List.append_assoc]⟩

theorem emit {event : Event} (silent : event.outcome? = none) (state : State σ υ)
    (said : event.ofRunner = true → own state.trace.spans ⟨state.trace.spans, event⟩) :
    state.Logs own { state with trace := state.trace.emit event } := by
  refine ⟨[], Trace.tells_emit ?_ said, (List.append_nil _).symm⟩
  rw [Entry.report?_of_silent silent]
  rfl

end State.Logs

theorem Run.keeps_onFile {act : Run σ File ε α} (keeps : act.Keeps (State.Logs own)) (i : Nat) :
    (Run.onFile i act).Keeps (State.Logs own) := by
  intro state
  unfold Run.onFile
  cases found : state.unit.files[i]? with
  | none => exact .refl state
  | some file => exact keeps { state with unit := file }

/-! ### Phases -/

namespace Phase

variable {β : Type} [Executable β σ υ] [WorkUnit υ] {phase : Phase β} {depth : Nat}

/-- The outcome of a phase is told inside its span. -/
theorem tells_close (depth : Nat) {before after : Trace} {records : List Record} {event : Event}
    {outcome : Outcome}
    (said : ∀ entry, entry.SaidOf phase.id label before.spans → own before.spans entry)
    (told : (before.enter (.phase phase.id label)).Tells (fun spans => own spans.tail) records after)
    (ended : ∀ spans, Entry.report? ⟨.phase phase.id label :: spans, event⟩ =
      some (some (phase.id, label), outcome))
    (inSpan : ∀ spans,
      Entry.SaidOf phase.id label spans ⟨.phase phase.id label :: spans, event⟩) :
    before.Tells own (records ++ [phase.record label depth outcome]) (close config event after) := by
  have spans : after.spans = .phase phase.id label :: before.spans := told.spans
  have timed : after.Tells (fun spans => own spans.tail) []
      (if config.debug.timings then after.emit .timed else after) := by
    split
    · refine Trace.tells_emit rfl fun _ => ?_
      rw [spans]
      exact said _ rfl
    · exact .refl after
  refine Trace.Tells.within (told.trans (timed.trans (Trace.tells_emit ?_ fun _ => ?_)))
  · rw [timed.spans, spans, ended]
    rfl
  · rw [timed.spans, spans]
    exact said _ (inSpan _)

variable (inside : ∀ spans entry, inner (.phase phase.id label :: spans) entry → outer spans entry)
  (said : ∀ spans entry, entry.SaidOf phase.id label spans → outer spans entry)

include inside said

theorem keeps_execute (depth : Nat)
    (body : (Executable.run phase.body config : Run σ υ Failure Unit).Keeps (State.Logs inner)) :
    (phase.execute config label depth : Run σ υ PhaseError Unit).Keeps (State.Logs outer) := by
  intro state
  have begun : (state.trace.enter (.phase phase.id label)).Tells (fun spans => outer spans.tail) []
      (phase.begin config label state).trace :=
    Trace.tells_emit rfl fun _ => said _ _ rfl
  obtain ⟨records, told, history⟩ := body (phase.begin config label state)
  rw [execute_apply]
  generalize Executable.run phase.body config (phase.begin config label state) = ended
    at told history ⊢
  obtain ⟨result, after⟩ := ended
  have called : (phase.begin config label state).trace.Tells (fun spans => outer spans.tail) records
      after.trace := by
    refine told.imp ?_
    exact inside state.trace.spans
  have ran : (state.trace.enter (.phase phase.id label)).Tells (fun spans => outer spans.tail)
      records after.trace :=
    begun.trans called
  rcases result with (failure | _) | _
  · refine ⟨_, tells_close depth (said _) ran (fun _ => rfl) fun _ => rfl, ?_⟩
    rw [(adds_giveUp after).history, history, List.append_assoc]
    rfl
  · exact ⟨records, ran.within, history⟩
  · refine ⟨_, tells_close depth (said _) ran (fun _ => rfl) fun _ => rfl, ?_⟩
    rw [(adds_finish after).history, history, List.append_assoc]
    rfl

/-- A phase logs what its body logs, inside the span of the phase, and what its runner says. -/
theorem keeps_run
    (body : (Executable.run phase.body config : Run σ υ Failure Unit).Keeps (State.Logs inner)) :
    (phase.run config label : Run σ υ PhaseError Unit).Keeps (State.Logs outer) := by
  intro state
  rw [run_apply]
  split
  · exact .emit rfl state fun _ => said _ _ ⟨rfl, rfl, rfl⟩
  · split
    · exact ⟨[phase.record label state.context.scope.depth .skipped],
        Trace.tells_emit rfl fun _ => said _ _ ⟨rfl, rfl, rfl⟩, rfl⟩
    · split
      · exact .refl state
      · exact keeps_execute inside said _ body state

end Phase

/-! ### Bodies that leave the log to their runners -/

/-- Nothing was written to the history, the spans are as they were, and what the log gained are no
events of runners. -/
structure State.Spares (before after : State σ υ) : Prop where
  history : after.context.history = before.context.history
  spans : after.trace.spans = before.trace.spans
  grown : ∃ entries, after.trace.entries.toList = before.trace.entries.toList ++ entries ∧
    ∀ entry ∈ entries, entry.event.ofRunner = false

theorem State.Spares.logs {before after : State σ υ} (spares : before.Spares after) :
    before.Logs own after := by
  obtain ⟨history, spans, entries, emitted, foreign⟩ := spares
  refine ⟨[], ⟨spans, entries, emitted, ?_, fun entry member fromRunner => ?_⟩, ?_⟩
  · rw [List.map_nil, List.filterMap_eq_nil_iff]
    exact fun entry member =>
      Entry.report?_of_silent (Event.outcome?_of_not_ofRunner (foreign entry member))
  · rw [foreign entry member] at fromRunner
    cases fromRunner
  · rw [history, List.append_nil]

/-- A body that writes no records, closes the spans it opens and emits no events of runners, however
it ends. -/
def Run.Modest {ε α : Type} (act : Run σ υ ε α) : Prop := act.Keeps State.Spares

/-! ### Lists -/

namespace PhaseList

/-- A list logs what the bodies of its phases log, each inside the span of its phase, and what its
own runner says. -/
theorem logs_run {β : Type} [Executable β σ υ] [WorkUnit υ] {list : PhaseList β}
    {nested : Phase β → List Span → Entry → Prop}
    (bodies : ∀ phase ∈ list.phases,
      (Executable.run phase.body config : Run σ υ Failure Unit).Keeps (State.Logs (nested phase)))
    (state : State σ υ) :
    let label := WorkUnit.label state.unit
    state.Logs (fun spans entry => ∃ phase ∈ list.phases, entry.SaidOf phase.id label spans ∨
        nested phase (.phase phase.id label :: spans) entry)
      (list.run config state).2 := by
  intro label
  refine Run.Keeps.forM .refl .trans (fun phase member => ?_) state
  refine Phase.keeps_run (fun spans entry inside => ?_) (fun spans entry said => ?_)
    (bodies phase member)
  · exact ⟨phase, member, .inr inside⟩
  · exact ⟨phase, member, .inl said⟩

variable {list : PhaseList (Body σ File)}

theorem trace_runFile (config : Config) (list : PhaseList (Body σ File)) (state : State σ File) :
    (list.runFile config state).2.trace = (list.run config (enter state)).2.trace.exit := by
  rw [runFile_apply]
  rcases list.run config (enter state) with ⟨(error | _) | _, after⟩ <;> rfl

theorem history_runFile (config : Config) (list : PhaseList (Body σ File)) (state : State σ File) :
    (list.runFile config state).2.context.history =
      (list.run config (enter state)).2.context.history := by
  have left (after : State σ File) :
      (leave after).context.history = after.context.history := by
    obtain ⟨scope, enclosing, exited⟩ := after.context.exists_exitScope
    show after.context.exitScope.history = _
    rw [exited]
  rw [runFile_apply]
  rcases list.run config (enter state) with ⟨(error | _) | _, after⟩
  · exact left after
  · rfl
  · exact left after

/-- On each file the runner of the list works in the span of that file. -/
theorem keeps_runFile (modest : ∀ phase ∈ list.phases, (phase.body.run config).Modest) :
    (list.runFile config).Keeps (State.Logs (Entry.InFile list)) := by
  intro state
  have bodies : ∀ phase ∈ list.phases,
      (Executable.run phase.body config : Run σ File Failure Unit).Keeps
        (State.Logs fun _ _ => False) :=
    fun phase member state => (modest phase member state).logs
  obtain ⟨records, told, history⟩ := logs_run bodies (enter state)
  refine ⟨records, ?_, (history_runFile config list state).trans history⟩
  rw [trace_runFile]
  refine Trace.Tells.within (told.imp fun entry said => ?_)
  obtain ⟨phase, member, said | nothing⟩ := said
  · exact ⟨state.unit, phase, member, said⟩
  · exact nothing.elim

theorem keeps_runFiles (modest : ∀ phase ∈ list.phases, (phase.body.run config).Modest)
    (numbers : List Nat) : (list.runFiles config numbers).Keeps (State.Logs (Entry.InFile list)) := by
  induction numbers with
  | nil => exact .refl
  | cons i rest ih =>
    rw [runFiles]
    refine .bind .trans (Run.keeps_onFile (keeps_runFile modest) i).attempt fun result => ?_
    rcases result with error | _
    · refine .bind .trans .refl fun unit => ?_
      cases config.filePolicy with
      | failFast => exact .refl
      | collectAll =>
        refine .bind .trans (fun state => .emit rfl state fun fromRunner => ?_) fun _ => ?_
        · cases fromRunner
        · exact .bind .trans ih fun _ => .refl
    · exact ih

theorem keeps_perFile (modest : ∀ phase ∈ list.phases, (phase.body.run config).Modest) :
    ((ModuleBody.perFile list).run config).Keeps (State.Logs (Entry.InFile list)) := by
  refine .bind .trans .refl fun unit => .bind .trans (keeps_runFiles modest _) fun errors => ?_
  rcases errors with _ | _
  · exact .refl
  · exact .refl

theorem EveryPlain.keeps {list : PhaseList (ModuleBody σ)}
    (modest : list.EveryPlain (fun body => (body.run config).Modest)
      fun body => (body.run config).Modest) :
    ∀ phase ∈ list.phases, (Executable.run phase.body config : Run σ Module Failure Unit).Keeps
      (State.Logs fun spans entry =>
        ∃ nested, phase.body = .perFile nested ∧ entry.InFile nested spans) := by
  intro phase member state
  have plain := modest phase member
  show state.Logs _ (phase.body.run config state).2
  split at plain
  · next body isPlain =>
    rw [isPlain]
    exact (plain state).logs
  · next nested isNested =>
    obtain ⟨records, told, history⟩ := keeps_perFile plain state
    rw [isNested]
    exact ⟨records, told.imp fun entry inFile => ⟨nested, rfl, inFile⟩, history⟩

/-- With bodies that leave that to their runners, the log of a run tells of the records that the run
writes, one by one. What a runner says is about a phase of the list itself, on the module, or it is
about a phase of a nested list, on a file, and then it stands in the span of that file, inside that of
the phase that goes over the files. -/
theorem run_logs (config : Config) (list : PhaseList (ModuleBody σ))
    (modest : list.EveryPlain (fun body => (body.run config).Modest)
      fun body => (body.run config).Modest) (state : State σ Module) :
    let label := state.unit.label
    ∃ entries records,
      (list.run config state).2.trace.entries.toList = state.trace.entries.toList ++ entries ∧
      (list.run config state).2.context.history = state.context.history ++ records ∧
      entries.filterMap Entry.report? = records.map Record.report ∧
      ∀ entry ∈ entries, entry.event.ofRunner = true →
        ∃ phase ∈ list.phases, entry.SaidOf phase.id label state.trace.spans ∨
          ∃ nested, phase.body = .perFile nested ∧
            entry.InFile nested (.phase phase.id label :: state.trace.spans) := by
  intro label
  obtain ⟨records, ⟨_, entries, emitted, told, said⟩, history⟩ := logs_run modest.keeps state
  exact ⟨entries, records, emitted, history, told, said⟩

end PhaseList

theorem modest_bump {υ : Type} :
    (Run.onContext (·.bump "turns" 1) : Run Unit υ Failure Unit).Modest :=
  fun _ => ⟨rfl, rfl, [], (List.append_nil _).symm, fun _ member => absurd member List.not_mem_nil⟩

theorem modest_fail {υ : Type} (failure : Failure) :
    (Run.fail failure : Run Unit υ Failure Unit).Modest :=
  fun _ => ⟨rfl, rfl, [], (List.append_nil _).symm, fun _ member => absurd member List.not_mem_nil⟩

/-- The phase that fails on the file lacks a prerequisite, which is disabled. -/
theorem PhaseList.run_logs_failing :
    let config : Config := { disabled := ["draft"] }
    failing.EveryPlain (fun body => (body.run config).Modest)
      (fun body => (body.run config).Modest) ∧
    ∃ entries : List Entry, (failing.run config oneFile).2.trace.entries.toList = entries ∧
      entries.filterMap Entry.report? =
        [(some ("survey", "module `program`"), .completed),
          (some ("draft", "file `main`"), .skipped),
          (some ("files", "module `program`"), .failed)] ∧
      ∀ entry ∈ entries, entry.event.ofRunner = true →
        ∃ phase ∈ failing.phases, entry.SaidOf phase.id "module `program`" [] ∨
          ∃ nested, phase.body = .perFile nested ∧
            entry.InFile nested [.phase phase.id "module `program`"] := by
  intro config
  have modest : failing.EveryPlain (fun body => (body.run config).Modest)
      fun body => (body.run config).Modest :=
    everyPlain_layered modest_bump modest_bump (modest_fail .cancelled)
  obtain ⟨entries, records, emitted, history, told, said⟩ := run_logs config failing modest oneFile
  refine ⟨modest, entries, emitted, ?_, said⟩
  have history : _ = [] ++ records := history
  rw [List.nil_append] at history
  rw [told, ← history]
  decide

end StagedLowering
