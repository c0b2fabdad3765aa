import StagedLowering.Proofs.Calls
import StagedLowering.Proofs.Gains

/-!
# Cancelled runs

The flag is looked at before each phase and nowhere else. Phases that are run with the flag up end at
the first of them and change nothing but the trace (`Run.forM_flagged`). So where the flag goes up in
a call, the run winds up: the outcome of that call is written down, and the next phase of the list is
refused if there is one (`Raised.run`).
-/

namespace StagedLowering

variable {β σ υ : Type}

/-! ### Nothing but notes -/

def Event.isStart : Event → Bool
  | .started _ _ _ => true
  | _ => false

/-- No body was started in between, since each start is an event. -/
def Trace.Quiet (before after : Trace) : Prop :=
  ∃ later, after.entries = before.entries ++ later ∧ ∀ entry ∈ later, entry.event.isStart = false

namespace Trace.Quiet

variable {before middle after : Trace}

theorem refl (trace : Trace) : trace.Quiet trace := ⟨#[], by simp, by simp⟩

theorem trans (first : before.Quiet middle) (second : middle.Quiet after) : before.Quiet after := by
  obtain ⟨early, emitted, quiet⟩ := first
  obtain ⟨late, emittedLate, quietLate⟩ := second
  refine ⟨early ++ late, by rw [emittedLate, emitted, Array.append_assoc], fun entry member => ?_⟩
  rcases Array.mem_append.mp member with here | there
  · exact quiet entry here
  · exact quietLate entry there

theorem emit (trace : Trace) {event : Event} (other : event.isStart = false) :
    trace.Quiet (trace.emit event) :=
  ⟨#[⟨trace.spans, event⟩], by simp [Trace.emit], by simpa using other⟩

/-- Spans are no events. -/
theorem spans (quiet : before.Quiet after) (outside inside : List Span) :
    ({ before with spans := outside } : Trace).Quiet { after with spans := inside } :=
  quiet

theorem close (config : Config) (trace : Trace) {event : Event} (other : event.isStart = false) :
    trace.Quiet (Phase.close config event trace) := by
  have timed : trace.Quiet (if config.debug.timings then trace.emit .timed else trace) := by
    split
    · exact emit trace rfl
    · exact refl trace
  exact timed.trans (emit _ other)

end Trace.Quiet

/-- A run was wound up: no body was started, and nothing was added to the context but this gain. -/
structure State.WoundUp (before : State σ υ) (gain : Gain) (after : State σ υ) : Prop where
  noted : before.Noted after
  adds : before.context.Adds gain after.context
  quiet : before.trace.Quiet after.trace

namespace State.WoundUp

variable {before middle after : State σ υ} {first second : Gain}

theorem trans (left : before.WoundUp first middle) (right : middle.WoundUp second after) :
    before.WoundUp (first + second) after :=
  ⟨left.noted.trans right.noted, left.adds.trans right.adds, left.quiet.trans right.quiet⟩

theorem cancelled (woundUp : before.WoundUp first after)
    (flagged : before.context.cancelled = true) : after.context.cancelled = true :=
  woundUp.adds.cancelled.trans flagged

/-- Winding up goes on as long as nothing but the trace changes. -/
theorem traced (woundUp : before.WoundUp first after) {trace : Trace}
    (quiet : after.trace.Quiet trace) : before.WoundUp first { after with trace } where
  noted := woundUp.noted.trans (after.recorded_trace trace).toNoted
  adds := woundUp.adds
  quiet := woundUp.quiet.trans quiet

end State.WoundUp

/-! ### Phases with the flag up -/

namespace Phase

/-- How these phases end that are run with the flag up: the first is refused. -/
def cutShort (label : String) : List (Phase β) → Except (Stop PhaseError) Unit
  | [] => .ok ()
  | next :: _ => .error (.error (next.error label .cancelled))

/-- How a run ends in which the flag went up in a call for `phase`, which is followed by `rest`. -/
def ending (label : String) (phase : Phase β) (rest : List (Phase β)) :
    Except (Stop Failure) Unit → Except (Stop PhaseError) Unit
  | .ok () => cutShort label rest
  | .error (.error failure) => .error (.error (phase.error label failure))
  | .error .fault => .error .fault

/-- What is written down about a call that left `unit`. A nested list has reported its own
failures. -/
def note [WorkUnit υ] (config : Config) (label : String) (depth : Nat) (phase : Phase β) (unit : υ) :
    Except (Stop Failure) Unit → Gain
  | .ok () => {
      history := [phase.record label depth .completed]
      dumps := if config.shouldDump phase.id then
        [⟨phase.id, label, WorkUnit.render unit⟩] else [] }
  | .error (.error failure) => {
      history := [phase.record label depth .failed]
      diagnostics := if failure.isNested then [] else [.ofFailure phase.id failure] }
  | .error .fault => 0

end Phase

variable [Executable β σ υ] [WorkUnit υ] {config : Config} {label : String}
  {phases rest : List (Phase β)} {phase : Phase β} {state before middle after last : State σ υ}

namespace Run

theorem forM_flagged (config : Config) (label : String) (phases : List (Phase β))
    (flagged : state.context.cancelled = true) :
    ∃ trace, state.trace.Quiet trace ∧
      phases.forM (Phase.run config label) state =
        (Phase.cutShort label phases, { state with trace }) := by
  cases phases with
  | nil => exact ⟨state.trace, .refl state.trace, rfl⟩
  | cons next rest =>
    have refused : next.run config label state = (.error (.error (next.error label .cancelled)),
        { state with trace := state.trace.emit (.cancelledBefore next.id label) }) := by
      rw [Phase.run_apply, if_pos flagged]
    exact ⟨_, .emit state.trace rfl, forM_of_error refused⟩

end Run

/-! ### The call in which the flag goes up -/

/-- The runner gets to `phase`, which is followed by `rest`, and calls its body in `before`. -/
inductive Reaches (config : Config) (label : String) (phases : List (Phase β)) (state : State σ υ) :
    Phase β → List (Phase β) → State σ υ → Prop
  | intro {done rest : List (Phase β)} {phase : Phase β} {middle : State σ υ}
    (split : phases = done ++ phase :: rest)
    (passed : done.forM (Phase.run config label) state = (.ok (), middle))
    (going : middle.context.cancelled = false) (enabled : config.isEnabled phase.id = true)
    (ready : phase.prerequisites.find? (!middle.context.scope.isDone ·) = none) :
    Reaches config label phases state phase rest (phase.begin config label middle)

structure Raised (config : Config) (label : String) (phases : List (Phase β)) (state : State σ υ)
    (call : Call β σ υ) (rest : List (Phase β)) : Prop where
  reaches : Reaches config label phases state call.phase rest call.before
  ran : Executable.run call.phase.body config call.before = (call.result, call.after)
  returned : call.result ≠ .error .fault
  flagged : call.after.context.cancelled = true

theorem Reaches.cons {head : Phase β} (first : head.run config label state = (.ok (), middle))
    (reaches : Reaches config label phases middle phase rest before) :
    Reaches config label (head :: phases) state phase rest before := by
  cases reaches with
  | intro split passed going enabled ready =>
    have passedAll := (Run.forM_of_ok first).trans passed
    exact .intro (congrArg (head :: ·) split) passedAll going enabled ready

theorem Reaches.mem (reaches : Reaches config label phases state phase rest before) :
    phase ∈ phases := by
  cases reaches with
  | intro split _ _ _ _ => exact split ▸ List.mem_append_right _ List.mem_cons_self

theorem Reaches.going (reaches : Reaches config label phases state phase rest before) :
    before.context.cancelled = false := by
  cases reaches with
  | intro _ _ going _ _ => exact going

/-- A call that returns with the flag up winds up the run. -/
theorem Reaches.run {result : Except (Stop Failure) Unit}
    (reaches : Reaches config label phases state phase rest before)
    (ran : Executable.run phase.body config before = (result, after))
    (returned : result ≠ .error .fault) (flagged : after.context.cancelled = true) :
    ∃ last, phases.forM (Phase.run config label) state = (phase.ending label rest result, last) ∧
      after.WoundUp (phase.note config label before.context.scope.depth after.unit result) last := by
  cases reaches with
  | @intro done _ _ middle split passed going enabled ready =>
    have attended : phase.run config label middle =
        phase.execute config label middle.context.scope.depth middle := by
      simp [Phase.run_apply, going, enabled, ready]
    rw [Phase.execute_apply, ran] at attended
    rw [split, Run.forM_append_of_ok passed]
    rcases result with (failure | _) | _
    · exact ⟨_, Run.forM_of_error attended,
        Phase.noted_giveUp after, Phase.adds_giveUp after, .close config after.trace rfl⟩
    · exact absurd rfl returned
    · have finished : after.WoundUp
          (phase.note config label middle.context.scope.depth after.unit (.ok ()))
          (phase.finish config label middle.context.scope.depth after) :=
        ⟨Phase.noted_finish after, Phase.adds_finish after, .close config after.trace rfl⟩
      obtain ⟨trace, quiet, refused⟩ :=
        Run.forM_flagged config label rest (finished.cancelled flagged)
      exact ⟨_, (Run.forM_of_ok attended).trans refused, finished.traced quiet⟩

theorem Raised.run {call : Call β σ υ} (raised : Raised config label phases state call rest) :
    ∃ last,
      phases.forM (Phase.run config label) state = (call.phase.ending label rest call.result, last) ∧
      call.after.WoundUp
        (call.phase.note config label call.before.context.scope.depth call.after.unit call.result)
        last :=
  raised.reaches.run raised.ran raised.returned raised.flagged

theorem Raised.head {result : Except (Stop Failure) Unit} (going : state.context.cancelled = false)
    (enabled : config.isEnabled phase.id = true)
    (ready : phase.prerequisites.find? (!state.context.scope.isDone ·) = none)
    (ran : Executable.run phase.body config (phase.begin config label state) = (result, after))
    (returned : result ≠ .error .fault) (flagged : after.context.cancelled = true) :
    Raised config label (phase :: rest) state
      ⟨phase, phase.begin config label state, result, after⟩ rest where
  reaches := .intro (List.nil_append _).symm rfl going enabled ready
  ran := ran
  returned := returned
  flagged := flagged

/-- The flag goes up in a call or not at all. -/
theorem exists_raised {result : Except (Stop PhaseError) Unit}
    (ran : phases.forM (Phase.run config label) state = (result, last))
    (returned : result ≠ .error .fault) (going : state.context.cancelled = false)
    (flagged : last.context.cancelled = true) :
    ∃ call rest, Raised config label phases state call rest := by
  induction phases generalizing state with
  | nil =>
    cases ran
    exact absurd flagged (Bool.eq_false_iff.mp going)
  | cons phase rest ih =>
    rcases first : phase.run config label state with ⟨stop | _, middle⟩
    · obtain ⟨rfl, rfl⟩ := Prod.mk.inj ((Run.forM_of_error first).symm.trans ran)
      obtain ⟨⟨⟩, -⟩ | ⟨failure, calls, -, stopped⟩ := Phase.run_cases first returned
      cases stopped with
      | cancelled flagged => exact absurd flagged (Bool.eq_false_iff.mp going)
      | unready going _ _ => exact absurd flagged (Bool.eq_false_iff.mp going)
      | @failed _ after going enabled ready body =>
        rw [(Phase.noted_giveUp after).cancelled] at flagged
        exact ⟨_, rest, .head going enabled ready body nofun flagged⟩
    · obtain ⟨-, calls, passed⟩ | ⟨_, _, ⟨⟩, -⟩ := Phase.run_cases first nofun
      have later : middle.context.cancelled = false →
          ∃ call more, Raised config label (phase :: rest) state call more := by
        intro going
        obtain ⟨call, more, raised⟩ := ih ((Run.forM_of_ok first).symm.trans ran) going
        exact ⟨call, more, { raised with reaches := raised.reaches.cons first }⟩
      cases passed with
      | skipped going _ => exact later going
      | @completed after going enabled ready body =>
        cases flagged : after.context.cancelled with
        | true => exact ⟨_, rest, .head going enabled ready body nofun flagged⟩
        | false => exact later ((Phase.noted_finish after).cancelled.trans flagged)

end StagedLowering
