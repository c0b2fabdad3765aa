import StagedLowering.Proofs.Execution

/-!
# Calls of bodies

A run of a list, taken apart. Each phase was passed, which takes a call of its body unless it is
disabled, or it stopped the run, with its body or before it. `Run.exists_course` finds the phases
that were passed, the calls that were made, and the phase that stopped the run, if one did.
-/

namespace StagedLowering

variable {β σ υ : Type}

structure Call (β σ υ : Type) where
  phase : Phase β
  before : State σ υ
  result : Except (Stop Failure) Unit
  after : State σ υ

variable [Executable β σ υ] {config : Config} {label : String}

/-- These calls were made one after another, and all that happened besides are the notes of a
runner. -/
inductive Calls (config : Config) : State σ υ → List (Call β σ υ) → State σ υ → Prop
  | none {state last : State σ υ} (noted : state.Noted last) : Calls config state [] last
  | call {state last : State σ υ} {call : Call β σ υ} {calls : List (Call β σ υ)}
    (noted : state.Noted call.before)
    (ran : Executable.run call.phase.body config call.before = (call.result, call.after))
    (returned : call.result ≠ .error .fault) (rest : Calls config call.after calls last) :
    Calls config state (call :: calls) last

namespace Calls

variable {state middle last : State σ υ} {calls more : List (Call β σ υ)}

theorem noted (first : state.Noted middle) (rest : Calls config middle calls last) :
    Calls config state calls last := by
  cases rest with
  | none noted => exact .none (first.trans noted)
  | call noted ran returned rest => exact .call (first.trans noted) ran returned rest

theorem append (first : Calls config state calls middle) (rest : Calls config middle more last) :
    Calls config state (calls ++ more) last := by
  induction first with
  | none noted => exact rest.noted noted
  | call noted ran returned _ ih => exact .call noted ran returned (ih rest)

theorem ran (made : Calls config state calls last) {call : Call β σ υ} (member : call ∈ calls) :
    Executable.run call.phase.body config call.before = (call.result, call.after) ∧
      call.result ≠ .error .fault := by
  induction made with
  | none _ => cases member
  | call _ ran returned _ ih =>
    rcases List.mem_cons.mp member with rfl | later
    · exact ⟨ran, returned⟩
    · exact ih later

end Calls

/-! ### One phase -/

variable [WorkUnit υ]

/-- The ways to get past a phase, with the calls that it takes. -/
inductive Phase.Passed (config : Config) (label : String) (phase : Phase β) (state : State σ υ) :
    List (Call β σ υ) → State σ υ → Prop
  | skipped (going : state.context.cancelled = false)
    (disabled : config.isEnabled phase.id = false) :
    Passed config label phase state [] (phase.skip label state)
  | completed {after : State σ υ} (going : state.context.cancelled = false)
    (enabled : config.isEnabled phase.id = true)
    (ready : phase.prerequisites.find? (!state.context.scope.isDone ·) = none)
    (ran : Executable.run phase.body config (phase.begin config label state) = (.ok (), after)) :
    Passed config label phase state [⟨phase, phase.begin config label state, .ok (), after⟩]
      (phase.finish config label state.context.scope.depth after)

/-- The ways in which a phase stops a run, with the calls that it takes. -/
inductive Phase.Stopped (config : Config) (label : String) (phase : Phase β) (state : State σ υ) :
    List (Call β σ υ) → Failure → State σ υ → Prop
  | cancelled (flagged : state.context.cancelled = true) :
    Stopped config label phase state [] .cancelled
      { state with trace := state.trace.emit (.cancelledBefore phase.id label) }
  | unready {prerequisite : PhaseId} (going : state.context.cancelled = false)
    (enabled : config.isEnabled phase.id = true)
    (missing : phase.prerequisites.find? (!state.context.scope.isDone ·) = some prerequisite) :
    Stopped config label phase state [] (.prerequisiteNotRun prerequisite) state
  | failed {failure : Failure} {after : State σ υ} (going : state.context.cancelled = false)
    (enabled : config.isEnabled phase.id = true)
    (ready : phase.prerequisites.find? (!state.context.scope.isDone ·) = none)
    (ran : Executable.run phase.body config (phase.begin config label state) =
      (.error (.error failure), after)) :
    Stopped config label phase state
      [⟨phase, phase.begin config label state, .error (.error failure), after⟩] failure
      (phase.giveUp config label state.context.scope.depth failure after)

theorem Phase.run_cases {phase : Phase β} {state last : State σ υ}
    {result : Except (Stop PhaseError) Unit}
    (ran : phase.run config label state = (result, last)) (returned : result ≠ .error .fault) :
    (result = .ok () ∧ ∃ calls, phase.Passed config label state calls last) ∨
      ∃ failure calls, result = .error (.error (phase.error label failure)) ∧
        phase.Stopped config label state calls failure last := by
  rw [Phase.run_apply] at ran
  split at ran
  · next flagged =>
    cases ran
    exact .inr ⟨_, [], rfl, .cancelled flagged⟩
  next going =>
  rw [Bool.not_eq_true] at going
  split at ran
  · next disabled =>
    cases ran
    exact .inl ⟨rfl, [], .skipped going (by simpa using disabled)⟩
  next enabled =>
  rw [Bool.not_eq_true, Bool.not_eq_false'] at enabled
  split at ran
  · next prerequisite missing =>
    cases ran
    exact .inr ⟨_, [], rfl, .unready going enabled missing⟩
  next ready =>
  rw [Phase.execute_apply] at ran
  split at ran
  · next after body =>
    cases ran
    exact .inl ⟨rfl, _, .completed going enabled ready body⟩
  · next failure after body =>
    cases ran
    exact .inr ⟨_, _, rfl, .failed going enabled ready body⟩
  · cases ran
    exact absurd rfl returned

/-! ### A list of phases -/

inductive Passes (config : Config) (label : String) :
    State σ υ → List (Phase β) → List (Call β σ υ) → State σ υ → Prop
  | nil (state : State σ υ) : Passes config label state [] [] state
  | cons {state middle last : State σ υ} {phase : Phase β} {phases : List (Phase β)}
    {calls more : List (Call β σ υ)} (first : phase.Passed config label state calls middle)
    (rest : Passes config label middle phases more last) :
    Passes config label state (phase :: phases) (calls ++ more) last

inductive Course (config : Config) (label : String) (phases : List (Phase β)) (state : State σ υ) :
    Except (Stop PhaseError) Unit → List (Call β σ υ) → State σ υ → Prop
  | finished {calls : List (Call β σ υ)} {last : State σ υ}
    (passed : Passes config label state phases calls last) :
    Course config label phases state (.ok ()) calls last
  | stopped {done rest : List (Phase β)} {phase : Phase β} {failure : Failure}
    {calls more : List (Call β σ υ)} {middle last : State σ υ}
    (split : phases = done ++ phase :: rest)
    (passed : Passes config label state done calls middle)
    (stopped : phase.Stopped config label middle more failure last) :
    Course config label phases state (.error (.error (phase.error label failure))) (calls ++ more)
      last

theorem Course.cons {phase : Phase β} {phases : List (Phase β)} {state middle last : State σ υ}
    {calls more : List (Call β σ υ)} {result : Except (Stop PhaseError) Unit}
    (first : phase.Passed config label state calls middle)
    (rest : Course config label phases middle result more last) :
    Course config label (phase :: phases) state result (calls ++ more) last := by
  cases rest with
  | finished passed => exact .finished (.cons first passed)
  | stopped split passed stopped =>
    rw [← List.append_assoc]
    exact .stopped (congrArg (phase :: ·) split) (.cons first passed) stopped

theorem Run.exists_course {phases : List (Phase β)} {state last : State σ υ}
    {result : Except (Stop PhaseError) Unit}
    (ran : phases.forM (Phase.run config label) state = (result, last))
    (returned : result ≠ .error .fault) :
    ∃ calls, Course config label phases state result calls last := by
  induction phases generalizing state with
  | nil =>
    cases ran
    exact ⟨[], .finished (.nil _)⟩
  | cons phase rest ih =>
    rcases first : phase.run config label state with ⟨stop | _, middle⟩
    · obtain ⟨rfl, rfl⟩ := Prod.mk.inj ((Run.forM_of_error first).symm.trans ran)
      rcases Phase.run_cases first returned with ⟨impossible, -⟩ | ⟨failure, calls, same, stopped⟩
      · cases impossible
      · cases same
        exact ⟨_, .stopped rfl (.nil _) stopped⟩
    · rcases Phase.run_cases first nofun with ⟨-, calls, passed⟩ | ⟨_, _, impossible, -⟩
      · obtain ⟨more, course⟩ := ih ((Run.forM_of_ok first).symm.trans ran)
        exact ⟨_, course.cons passed⟩
      · cases impossible

end StagedLowering
