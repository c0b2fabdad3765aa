import Mathlib.Data.List.Find
import Mathlib.Data.List.Nodup
import StagedLowering.Proofs.Schedule

/-!
# Which phases are due

A runner asks the innermost scope which phases are done. In an ordered list these are the enabled
ones among those that came before, so what a phase misses can be read off the configuration: a run
of the list is a run of phases that ask the configuration instead (`PhaseList.run_eq_attend`).
-/

namespace StagedLowering

theorem nodup_of_checkOrderFrom {all before : List PhaseId} {phases : List (PhaseId × List PhaseId)}
    (ordered : checkOrderFrom all before phases = .ok ()) :
    (phases.map (·.1)).Nodup ∧ ∀ phase ∈ phases, phase.1 ∉ before := by
  induction phases generalizing before with
  | nil => exact ⟨.nil, by simp⟩
  | cons phase rest ih =>
    obtain ⟨fresh, -, ordered⟩ := checkOrderFrom_cons ordered
    obtain ⟨nodup, later⟩ := ih ordered
    refine ⟨List.nodup_cons.mpr ⟨fun repeated => ?_, nodup⟩, fun other member => ?_⟩
    · obtain ⟨other, member, same⟩ := List.mem_map.mp repeated
      exact later other member (by simp [same])
    · rcases List.mem_cons.mp member with rfl | member
      · exact fresh
      · exact fun early => later other member (List.mem_append_left _ early)

/-- The phases of a list have names of their own. -/
theorem PhaseList.nodup_ids {β : Type} (list : PhaseList β) : list.ids.Nodup := by
  have nodup := (nodup_of_checkOrderFrom list.ordered).1
  rwa [List.map_map] at nodup

theorem PhaseList.eq_of_id {β : Type} {list : PhaseList β} {phase other : Phase β}
    (member : phase ∈ list.phases) (otherMember : other ∈ list.phases)
    (same : phase.id = other.id) : phase = other :=
  List.inj_on_of_nodup_map list.nodup_ids member otherMember same

/-- Unless cancelled, a body that succeeds leaves the phases done in its scope as they were. -/
def Run.MarksNothing {σ υ ε α : Type} (act : Run σ υ ε α) : Prop :=
  ∀ ⦃state after : State σ υ⦄ ⦃a : α⦄, state.context.cancelled = false →
    act state = (.ok a, after) →
    after.context.scope.executed = state.context.scope.executed

variable {β σ υ : Type} [Executable β σ υ] [WorkUnit υ] {config : Config} {label : String}

def Phase.attend (config : Config) (label : String) (phase : Phase β) : Run σ υ PhaseError Unit :=
  fun state =>
    if state.context.cancelled then
      (.error (.error (phase.error label .cancelled)),
        { state with trace := state.trace.emit (.cancelledBefore phase.id label) })
    else if !config.isEnabled phase.id then (.ok (), phase.skip label state)
    else match phase.prerequisites.find? (!config.isEnabled ·) with
      | some prerequisite =>
        (.error (.error (phase.error label (.prerequisiteNotRun prerequisite))), state)
      | none => phase.perform config label state

/-- A phase that is attended to was disabled, or its prerequisites are enabled and it ran its body. -/
theorem Phase.attend_ok {phase : Phase β} {state last : State σ υ}
    (ran : phase.attend config label state = (.ok (), last)) :
    (config.isEnabled phase.id = false ∧ state.Noted last) ∨
    ((∀ id ∈ phase.prerequisites, config.isEnabled id = true) ∧ ∃ after,
      Executable.run phase.body config (phase.begin config label state) = (.ok (), after) ∧
        after.Noted last) := by
  unfold Phase.attend at ran
  split at ran
  · cases ran
  · split at ran
    · next disabled =>
      cases ran
      exact .inl ⟨by simpa using disabled, Phase.noted_skip state⟩
    · split at ran
      · cases ran
      · next none =>
        obtain ⟨after, body, rfl⟩ := Phase.perform_ok ran
        refine .inr ⟨fun id member => ?_, after, body, Phase.noted_finish after⟩
        simpa using List.find?_eq_none.mp none id member

omit [Executable β σ υ] [WorkUnit υ] in
/-- What a phase misses where the enabled ones before it are done. -/
theorem Phase.find?_missing {phase : Phase β} {before : List PhaseId} {state : State σ υ}
    (earlier : phase.prerequisites ⊆ before)
    (done : state.context.scope.executed = before.filter config.isEnabled) :
    phase.prerequisites.find? (!state.context.scope.isDone ·) =
      phase.prerequisites.find? (!config.isEnabled ·) := by
  refine List.find?_congr fun id member => ?_
  simp [Scope.isDone, done, earlier member]

theorem Phase.run_eq_attend {phase : Phase β} {before : List PhaseId} {state : State σ υ}
    (earlier : phase.prerequisites ⊆ before)
    (done : state.context.scope.executed = before.filter config.isEnabled) :
    phase.run config label state = phase.attend config label state := by
  rw [Phase.run_apply, Phase.find?_missing earlier done]
  rfl

/-- The ids that are done once a phase has been attended to. -/
theorem Phase.executed_attend {phase : Phase β} {before : List PhaseId} {state last : State σ υ}
    (marks : (Executable.run phase.body config : Run σ υ Failure Unit).MarksNothing)
    (done : state.context.scope.executed = before.filter config.isEnabled)
    (ran : phase.attend config label state = (.ok (), last)) :
    last.context.scope.executed = (before ++ [phase.id]).filter config.isEnabled := by
  unfold Phase.attend at ran
  rw [List.filter_append, ← done]
  split at ran
  · cases ran
  · next going =>
    split at ran
    · next disabled =>
      cases ran
      simp [List.filter, Bool.not_eq_true' _ ▸ disabled, Phase.skip, Context.markSkipped,
        Context.record, Scope.markSkipped]
    · next enabled =>
      split at ran
      · cases ran
      · obtain ⟨after, body, rfl⟩ := Phase.perform_ok ran
        have begun : (phase.begin config label state).context.cancelled = false :=
          Bool.eq_false_of_not_eq_true going
        rw [Phase.executed_finish, marks begun body]
        simp [List.filter, show config.isEnabled phase.id = true by simpa using enabled, Phase.begin]

theorem forM_run_eq_attend {phases : List (Phase β)} {all before : List PhaseId}
    (ordered : checkOrderFrom all before (phases.map Phase.requirement) = .ok ())
    (marks : ∀ phase ∈ phases,
      (Executable.run phase.body config : Run σ υ Failure Unit).MarksNothing)
    {state : State σ υ} (done : state.context.scope.executed = before.filter config.isEnabled) :
    phases.forM (Phase.run config label) state = phases.forM (Phase.attend config label) state := by
  induction phases generalizing before state with
  | nil => rfl
  | cons phase rest ih =>
    obtain ⟨-, earlier, ordered⟩ := checkOrderFrom_cons ordered
    rw [Run.forM_cons_eq, Run.forM_cons_eq, Run.bind_apply, Run.bind_apply,
      Phase.run_eq_attend earlier done]
    rcases ran : phase.attend config label state with ⟨stop | _, last⟩
    · rfl
    · exact ih ordered (fun later member => marks later (List.mem_cons_of_mem _ member))
        (Phase.executed_attend (marks phase List.mem_cons_self) done ran)

/-- In a scope where nothing is done yet, a list refuses what the configuration leaves without its
prerequisites. -/
theorem PhaseList.run_eq_attend {list : PhaseList β}
    (marks : ∀ phase ∈ list.phases,
      (Executable.run phase.body config : Run σ υ Failure Unit).MarksNothing)
    {state : State σ υ} (fresh : state.context.scope.executed = []) :
    list.run config state =
      list.phases.forM (Phase.attend config (WorkUnit.label state.unit)) state := by
  rw [PhaseList.run_apply]
  exact forM_run_eq_attend list.ordered marks fresh

/-! ### Accepted configurations -/

omit [Executable β σ υ] [WorkUnit υ] in
theorem Outline.checkAllDisabled_cons (outline : Outline) (rest : List Outline) :
    Outline.checkAllDisabled config (outline :: rest) =
      match outline.checkDisabled config with
      | .error error => .error error
      | .ok () => Outline.checkAllDisabled config rest := by
  cases verdict : outline.checkDisabled config <;> simp only [Outline.checkAllDisabled, verdict]

theorem Outline.checkDisabled_of_all {outlines : List Outline}
    (accepted : Outline.checkAllDisabled config outlines = .ok ()) :
    ∀ outline ∈ outlines, outline.checkDisabled config = .ok () := by
  induction outlines with
  | nil => simp
  | cons outline rest ih =>
    rw [Outline.checkAllDisabled_cons] at accepted
    split at accepted
    · cases accepted
    · next here =>
      intro other member
      rcases List.mem_cons.mp member with rfl | member
      · exact here
      · exact ih accepted other member

theorem Phase.checkDisabled_outline (phase : Phase β) :
    (phase.outline (υ := υ)).checkDisabled config =
      if config.isEnabled phase.id then
        match phase.prerequisites.find? (!config.isEnabled ·) with
        | some prerequisite => .error (.disabled phase.id prerequisite)
        | none => Outline.checkAllDisabled config (Executable.children phase.body)
      else .ok () := by
  cases missing : phase.prerequisites.find? (!config.isEnabled ·) <;>
    simp only [Phase.outline, Outline.checkDisabled, missing]

theorem PhaseList.checkConfig_ok {list : PhaseList β}
    (accepted : list.checkConfig config = .ok ()) :
    Outline.checkAllDisabled config list.outlines = .ok () := by
  unfold PhaseList.checkConfig Outline.checkConfig at accepted
  dsimp only at accepted
  split at accepted
  · cases accepted
  · exact accepted

end StagedLowering
