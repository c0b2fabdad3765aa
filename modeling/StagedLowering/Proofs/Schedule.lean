import StagedLowering.Proofs.Passes

/-!
# Lists that run through

In a list whose phases are all enabled every phase finds its prerequisites done, since the list is
ordered: it runs its bodies one after another up to the first that fails (`PhaseList.run_enabled`).
-/

namespace StagedLowering

structure Context.InStep (before after : Context) : Prop where
  cancelled : after.cancelled = before.cancelled
  executed : after.scope.executed = before.scope.executed

theorem Context.InStep.trans {first middle last : Context} (left : first.InStep middle)
    (right : middle.InStep last) : first.InStep last :=
  ⟨right.cancelled.trans left.cancelled, right.executed.trans left.executed⟩

/-- Unless cancelled, a body that succeeds cancels nothing and leaves the phases that are done as
they were. -/
def Run.Steady {σ υ ε α : Type} (act : Run σ υ ε α) : Prop :=
  ∀ ⦃state after : State σ υ⦄ ⦃a : α⦄, state.context.cancelled = false →
    act state = (.ok a, after) → state.context.InStep after.context

namespace Run.Steady

variable {σ υ : Type}

theorem pure {ε α : Type} (a : α) : (pure a : Run σ υ ε α).Steady := by
  intro state after b _ ran
  cases ran
  exact ⟨rfl, rfl⟩

theorem bind {ε α β : Type} {act : Run σ υ ε α} {next : α → Run σ υ ε β} (first : act.Steady)
    (second : ∀ a, (next a).Steady) : (act >>= next).Steady := by
  intro state after b going ran
  obtain ⟨a, middle, actRan, nextRan⟩ := Run.bind_ok ran
  have kept := first going actRan
  exact kept.trans (second a (kept.cancelled.trans going) nextRan)

theorem emit {ε : Type} (event : Event) : (Run.emit event : Run σ υ ε Unit).Steady := by
  intro state after _ _ ran
  cases (Run.emit_apply event state).symm.trans ran
  exact ⟨rfl, rfl⟩

theorem settleFrom {round : Run σ υ Failure Progress} (steady : round.Steady)
    (done residual left : Nat) : (settleFrom round done residual left).Steady := by
  induction left generalizing done residual with
  | zero =>
    intro state after rounds _ ran
    cases ran
  | succ left ih =>
    refine steady.bind fun progress => ?_
    split
    · exact Steady.pure _
    · exact (Steady.emit _).bind fun _ => ih _ _

theorem fixpoint {loop : Fixpoint σ υ} {config : Config} (steady : (loop.round config).Steady) :
    (loop.run config).Steady := by
  refine (steady.settleFrom _ _ _).bind fun iterations => (Steady.emit _).bind fun _ => ?_
  cases loop.statistic with
  | none => exact Steady.pure _
  | some name =>
    intro state after _ _ ran
    cases ran
    exact ⟨rfl, rfl⟩

end Run.Steady

variable {β σ υ : Type} [Executable β σ υ] [WorkUnit υ] {config : Config} {label : String}

def Phase.perform (config : Config) (label : String) (phase : Phase β) : Run σ υ PhaseError Unit :=
  fun state => phase.execute config label state.context.scope.depth state

theorem Phase.perform_ok {phase : Phase β} {state last : State σ υ}
    (ran : phase.perform config label state = (.ok (), last)) :
    ∃ after, Executable.run phase.body config (phase.begin config label state) = (.ok (), after) ∧
      last = phase.finish config label state.context.scope.depth after := by
  unfold Phase.perform at ran
  rw [Phase.execute_apply] at ran
  split at ran
  · next after body => exact ⟨after, body, (Prod.mk.inj ran).2.symm⟩
  · cases ran
  · cases ran

theorem Phase.perform_of_ok {phase : Phase β} {state after : State σ υ}
    (body : Executable.run phase.body config (phase.begin config label state) = (.ok (), after)) :
    ∃ last, phase.perform config label state = (.ok (), last) ∧ after.Noted last := by
  refine ⟨phase.finish config label state.context.scope.depth after, ?_, Phase.noted_finish after⟩
  unfold Phase.perform
  rw [Phase.execute_apply, body]

theorem Phase.perform_of_error {phase : Phase β} {state after : State σ υ} {failure : Failure}
    (body : Executable.run phase.body config (phase.begin config label state) =
      (.error (.error failure), after)) :
    ∃ last, phase.perform config label state =
      (.error (.error (phase.error label failure)), last) := by
  refine ⟨phase.giveUp config label state.context.scope.depth failure after, ?_⟩
  unfold Phase.perform
  rw [Phase.execute_apply, body]

theorem Phase.perform_of_fault {phase : Phase β} {state after : State σ υ}
    (body : Executable.run phase.body config (phase.begin config label state) =
      (.error .fault, after)) :
    ∃ last, phase.perform config label state = (.error .fault, last) := by
  refine ⟨{ after with trace := after.trace.exit }, ?_⟩
  unfold Phase.perform
  rw [Phase.execute_apply, body]

/-- A check passes or fails as it finds the unit, which stays as it is. -/
theorem Phase.perform_check {holds : Context → υ → Except Violation Unit} {phase : Phase β}
    (body : ∀ state : State σ υ,
      Executable.run phase.body config state = (Body.check holds).run config state)
    (state : State σ υ) :
    (holds state.context state.unit = .ok () ∧
        ∃ last, phase.perform config label state = (.ok (), last) ∧ state.Noted last) ∨
      ∃ violation last, holds state.context state.unit = .error violation ∧
        phase.perform config label state =
          (.error (.error (phase.error label (.violated violation))), last) := by
  have ran := (body (phase.begin config label state)).trans (Body.check_apply ..)
  rcases found : holds state.context state.unit with violation | _
  · have failed : holds (phase.begin config label state).context
        (phase.begin config label state).unit = .error violation := found
    rw [failed] at ran
    obtain ⟨last, ended⟩ := Phase.perform_of_error ran
    exact .inr ⟨violation, last, rfl, ended⟩
  · have passed : holds (phase.begin config label state).context
        (phase.begin config label state).unit = .ok () := found
    rw [passed] at ran
    obtain ⟨last, ended, noted⟩ := Phase.perform_of_ok ran
    have begun : state.Noted (phase.begin config label state) :=
      ⟨rfl, rfl, rfl, rfl, rfl, rfl, rfl, rfl, rfl⟩
    exact .inl ⟨rfl, last, ended, begun.trans noted⟩

theorem Phase.run_eq_perform {phase : Phase β} {state : State σ υ}
    (enabled : config.isEnabled phase.id = true) (going : state.context.cancelled = false)
    (ready : ∀ id ∈ phase.prerequisites, id ∈ state.context.scope.executed) :
    phase.run config label state = phase.perform config label state := by
  have none : phase.prerequisites.find? (!state.context.scope.isDone ·) = none := by
    refine List.find?_eq_none.mpr fun id member => ?_
    simp [Scope.isDone, ready id member]
  rw [Phase.run_apply, going, enabled, none]
  rfl

/-- The first of the phases in order is new and comes after what it requires. -/
theorem checkOrderFrom_cons {all before : List PhaseId} {id : PhaseId}
    {prerequisites : List PhaseId} {rest : List (PhaseId × List PhaseId)}
    (ordered : checkOrderFrom all before ((id, prerequisites) :: rest) = .ok ()) :
    id ∉ before ∧ prerequisites ⊆ before ∧ checkOrderFrom all (before ++ [id]) rest = .ok () := by
  rw [checkOrderFrom] at ordered
  split at ordered
  · cases ordered
  · next fresh =>
    split at ordered
    · cases ordered
    · next none =>
      refine ⟨fresh, fun prerequisite member => ?_, ordered⟩
      simpa using List.find?_eq_none.mp none prerequisite member

/-- What the order of a list promises about the rest of it, when the ids before are done. -/
theorem forM_run_eq_perform {phases : List (Phase β)} {all before : List PhaseId}
    (ordered : checkOrderFrom all before (phases.map Phase.requirement) = .ok ())
    (enabled : ∀ phase ∈ phases, config.isEnabled phase.id = true)
    (steady : ∀ phase ∈ phases, (Executable.run phase.body config : Run σ υ Failure Unit).Steady)
    {state : State σ υ} (going : state.context.cancelled = false)
    (done : before ⊆ state.context.scope.executed) :
    phases.forM (Phase.run config label) state = phases.forM (Phase.perform config label) state := by
  induction phases generalizing before state with
  | nil => rfl
  | cons phase rest ih =>
    obtain ⟨-, earlier, ordered⟩ := checkOrderFrom_cons ordered
    have ready : ∀ id ∈ phase.prerequisites, id ∈ state.context.scope.executed :=
      fun id member => done (earlier member)
    rw [Run.forM_cons_eq, Run.forM_cons_eq, Run.bind_apply, Run.bind_apply,
      Phase.run_eq_perform (enabled phase List.mem_cons_self) going ready]
    rcases ran : phase.perform config label state with ⟨stop | _, last⟩
    · rfl
    · obtain ⟨after, body, rfl⟩ := Phase.perform_ok ran
      have begun : (phase.begin config label state).context.cancelled = false := going
      obtain ⟨stillGoing, sameDone⟩ := steady phase List.mem_cons_self begun body
      refine ih ordered (fun later member => enabled later (List.mem_cons_of_mem _ member))
        (fun later member => steady later (List.mem_cons_of_mem _ member)) ?_ ?_
      · rw [(Phase.noted_finish after).cancelled, stillGoing]
        exact going
      · rw [Phase.executed_finish, sameDone]
        exact List.append_subset.mpr
          ⟨List.subset_append_of_subset_left _ done, List.subset_append_right _ _⟩

/-- No phase of an ordered list is refused if all are enabled and the run is not cancelled. -/
theorem PhaseList.run_enabled {list : PhaseList β}
    (enabled : ∀ phase ∈ list.phases, config.isEnabled phase.id = true)
    (steady : ∀ phase ∈ list.phases,
      (Executable.run phase.body config : Run σ υ Failure Unit).Steady)
    {state : State σ υ} (going : state.context.cancelled = false) :
    list.run config state =
      list.phases.forM (Phase.perform config (WorkUnit.label state.unit)) state := by
  rw [PhaseList.run_apply]
  exact forM_run_eq_perform list.ordered enabled steady going (List.nil_subset _)

end StagedLowering
