import StagedLowering.Proofs.Passes

/-!
# What a run adds

A run that only reads its unit and the innermost scope does the same in any two states that agree on
these: it ends alike, leaves the same unit and scope, and adds the same to the context
(`Run.Detached`). Phases and lists are detached if their bodies are.
-/

namespace StagedLowering

variable {σ υ : Type}

/-- What is added to the counters, and what is written behind the lists, of a context. -/
@[ext]
structure Gain where
  statistic : String → Nat := fun _ => 0
  history : List Record := []
  diagnostics : List Diagnostic := []
  dumps : List Dump := []

namespace Gain

instance : Zero Gain := ⟨{}⟩

instance : Add Gain where
  add first second := {
    statistic name := first.statistic name + second.statistic name
    history := first.history ++ second.history
    diagnostics := first.diagnostics ++ second.diagnostics
    dumps := first.dumps ++ second.dumps }

end Gain

/-- The context after a gain: symbols, scopes around the innermost and cancellation are as before. -/
structure Context.Adds (before : Context) (gain : Gain) (after : Context) : Prop where
  symbols : after.symbols = before.symbols
  enclosing : after.enclosing = before.enclosing
  cancelled : after.cancelled = before.cancelled
  statistic : ∀ name, after.statistic name = before.statistic name + gain.statistic name
  history : after.history = before.history ++ gain.history
  diagnostics : after.diagnostics = before.diagnostics ++ gain.diagnostics
  dumps : after.dumps = before.dumps ++ gain.dumps

namespace Context.Adds

variable {before middle after : Context} {first second : Gain}

theorem refl (context : Context) : context.Adds 0 context where
  symbols := rfl
  enclosing := rfl
  cancelled := rfl
  statistic _ := rfl
  history := (List.append_nil _).symm
  diagnostics := (List.append_nil _).symm
  dumps := (List.append_nil _).symm

theorem trans (left : before.Adds first middle) (right : middle.Adds second after) :
    before.Adds (first + second) after where
  symbols := right.symbols.trans left.symbols
  enclosing := right.enclosing.trans left.enclosing
  cancelled := right.cancelled.trans left.cancelled
  statistic name := by
    rw [right.statistic, left.statistic, Nat.add_assoc]
    rfl
  history := by
    rw [right.history, left.history, List.append_assoc]
    rfl
  diagnostics := by
    rw [right.diagnostics, left.diagnostics, List.append_assoc]
    rfl
  dumps := by
    rw [right.dumps, left.dumps, List.append_assoc]
    rfl

/-- Two contexts have one difference. -/
theorem unique (left : before.Adds first after) (right : before.Adds second after) :
    first = second := by
  ext name
  · exact Nat.add_left_cancel ((left.statistic name).symm.trans (right.statistic name))
  · rw [List.append_cancel_left (left.history.symm.trans right.history)]
  · rw [List.append_cancel_left (left.diagnostics.symm.trans right.diagnostics)]
  · rw [List.append_cancel_left (left.dumps.symm.trans right.dumps)]

theorem exitScope (adds : before.Adds first after) : before.exitScope.Adds first after.exitScope := by
  cases around : before.enclosing with
  | nil =>
    unfold Context.exitScope
    rw [around, adds.enclosing.trans around]
    exact adds
  | cons scope enclosing =>
    rw [exitScope_of_enclosing around, exitScope_of_enclosing (adds.enclosing.trans around)]
    exact ⟨adds.symbols, rfl, adds.cancelled, adds.statistic, adds.history, adds.diagnostics,
      adds.dumps⟩

end Context.Adds

theorem Context.statistic_setStatistic (context : Context) (name other : String) (value : Nat) :
    (context.setStatistic name value).statistic other =
      if other = name then value else context.statistic other := by
  unfold Context.setStatistic
  simp only [Context.statistic, NameMap.get?_insert]
  split <;> rfl

theorem Context.statistic_bump (context : Context) (name other : String) (amount : Nat) :
    (context.bump name amount).statistic other =
      context.statistic other + if other = name then amount else 0 := by
  rw [Context.bump, Context.statistic_setStatistic]
  split
  · next same => rw [same]
  · rw [Nat.add_zero]

theorem NameMap.insertEntry_insertEntry {α : Type} (name : String) (value : α)
    (entries : List (String × α)) :
    insertEntry name value (insertEntry name value entries) = insertEntry name value entries := by
  induction entries with
  | nil => simp [insertEntry]
  | cons head rest ih => grind [insertEntry]

theorem NameMap.insert_insert {α : Type} (map : NameMap α) (name : String) (value : α) :
    (map.insert name value).insert name value = map.insert name value := by
  simp only [NameMap.insert, NameMap.insertEntry_insertEntry]

theorem Context.bump_zero_bump (context : Context) (name : String) (amount : Nat) :
    (context.bump name amount).bump name 0 = context.bump name amount := by
  have counted := context.statistic_bump name name amount
  rw [if_pos rfl] at counted
  rw [bump, counted, Nat.add_zero, bump, setStatistic, setStatistic, NameMap.insert_insert]

theorem Context.adds_bump (context : Context) (name : String) (amount : Nat) :
    context.Adds { statistic := fun other => if other = name then amount else 0 }
      (context.bump name amount) where
  symbols := rfl
  enclosing := rfl
  cancelled := rfl
  statistic other := context.statistic_bump name other amount
  history := (List.append_nil _).symm
  diagnostics := (List.append_nil _).symm
  dumps := (List.append_nil _).symm

structure State.Alike (s t : State σ υ) : Prop where
  unit : s.unit = t.unit
  scope : s.context.scope = t.context.scope
  going : s.context.cancelled = false
  otherGoing : t.context.cancelled = false

/-- In states that agree on the unit and the innermost scope the run does the same. -/
def Run.Detached {ε α : Type} (act : Run σ υ ε α) : Prop :=
  ∀ ⦃s t : State σ υ⦄, s.Alike t → ∃ result last otherLast gain,
    act s = (result, last) ∧ act t = (result, otherLast) ∧ last.Alike otherLast ∧
      s.context.Adds gain last.context ∧ t.context.Adds gain otherLast.context

namespace Run.Detached

variable {ε α β : Type}

theorem pure (a : α) : (pure a : Run σ υ ε α).Detached :=
  fun s t alike => ⟨.ok a, s, t, 0, rfl, rfl, alike, .refl s.context, .refl t.context⟩

theorem bind {act : Run σ υ ε α} {next : α → Run σ υ ε β} (first : act.Detached)
    (second : ∀ a, (next a).Detached) : (act >>= next).Detached := by
  intro s t alike
  obtain ⟨stop | a, middle, otherMiddle, gain, ran, otherRan, alike, adds, otherAdds⟩ := first alike
  · rw [Run.bind_of_error ran, Run.bind_of_error otherRan]
    exact ⟨_, middle, otherMiddle, gain, rfl, rfl, alike, adds, otherAdds⟩
  · rw [Run.bind_of_ok ran, Run.bind_of_ok otherRan]
    obtain ⟨result, last, otherLast, more, ran, otherRan, alike, addsMore, otherAddsMore⟩ :=
      second a alike
    exact ⟨result, last, otherLast, gain + more, ran, otherRan, alike, adds.trans addsMore,
      otherAdds.trans otherAddsMore⟩

theorem forM {step : α → Run σ υ ε Unit} {list : List α}
    (detached : ∀ a ∈ list, (step a).Detached) : Run.Detached (list.forM step) := by
  induction list with
  | nil => exact Detached.pure ()
  | cons a rest ih =>
    have later := ih fun b member => detached b (List.mem_cons_of_mem _ member)
    exact (detached a List.mem_cons_self).bind fun _ => later

end Run.Detached

/-! ### Phases -/

namespace Phase

variable {β : Type} {config : Config} {label : String} {depth : Nat} {failure : Failure}
  {phase : Phase β} {s t : State σ υ}

theorem adds_giveUp (after : State σ υ) :
    after.context.Adds {
        history := [phase.record label depth .failed]
        diagnostics := if failure.isNested then [] else [.ofFailure phase.id failure] }
      (phase.giveUp config label depth failure after).context := by
  unfold giveUp
  cases failure.isNested
  · exact ⟨rfl, rfl, rfl, fun _ => rfl, rfl, rfl, (List.append_nil _).symm⟩
  · exact ⟨rfl, rfl, rfl, fun _ => rfl, rfl, (List.append_nil _).symm, (List.append_nil _).symm⟩

theorem adds_skip (state : State σ υ) :
    state.context.Adds { history := [phase.record label state.context.scope.depth .skipped] }
      (phase.skip label state).context :=
  ⟨rfl, rfl, rfl, fun _ => rfl, rfl, (List.append_nil _).symm, (List.append_nil _).symm⟩

theorem alike_giveUp (alike : s.Alike t) :
    (phase.giveUp config label depth failure s).Alike
      (phase.giveUp config label depth failure t) := by
  obtain ⟨unit, scope, going, otherGoing⟩ := alike
  unfold giveUp
  cases failure.isNested
  · exact ⟨unit, scope, going, otherGoing⟩
  · exact ⟨unit, scope, going, otherGoing⟩

theorem alike_skip (alike : s.Alike t) : (phase.skip label s).Alike (phase.skip label t) :=
  ⟨alike.unit, congrArg (Scope.markSkipped · phase.id) alike.scope, alike.going, alike.otherGoing⟩

variable [WorkUnit υ]

theorem adds_finish (after : State σ υ) :
    after.context.Adds {
        history := [phase.record label depth .completed]
        dumps := if config.shouldDump phase.id then
          [⟨phase.id, label, WorkUnit.render after.unit⟩] else [] }
      (phase.finish config label depth after).context := by
  unfold finish
  cases config.shouldDump phase.id
  · exact ⟨rfl, rfl, rfl, fun _ => rfl, rfl, (List.append_nil _).symm, (List.append_nil _).symm⟩
  · exact ⟨rfl, rfl, rfl, fun _ => rfl, rfl, (List.append_nil _).symm, rfl⟩

theorem alike_finish (alike : s.Alike t) :
    (phase.finish config label depth s).Alike (phase.finish config label depth t) := by
  have scope := congrArg (Scope.markDone · phase.id) alike.scope
  unfold finish
  cases config.shouldDump phase.id
  · exact ⟨alike.unit, scope, alike.going, alike.otherGoing⟩
  · exact ⟨alike.unit, scope, alike.going, alike.otherGoing⟩

variable [Executable β σ υ]

theorem detached_execute
    (body : (Executable.run phase.body config : Run σ υ Failure Unit).Detached) :
    (phase.execute config label depth : Run σ υ PhaseError Unit).Detached := by
  intro s t alike
  have begun : (phase.begin config label s).Alike (phase.begin config label t) :=
    ⟨alike.unit, alike.scope, alike.going, alike.otherGoing⟩
  obtain ⟨result, last, otherLast, gain, ran, otherRan, alike, adds, otherAdds⟩ := body begun
  rw [Phase.execute_apply, Phase.execute_apply, ran, otherRan]
  rcases result with (failure | _) | _
  · exact ⟨_, _, _, _, rfl, rfl, alike_giveUp alike, adds.trans (adds_giveUp last),
      otherAdds.trans (adds_giveUp otherLast)⟩
  · exact ⟨_, _, _, gain, rfl, rfl, ⟨alike.unit, alike.scope, alike.going, alike.otherGoing⟩, adds,
      otherAdds⟩
  · refine ⟨_, _, _, _, rfl, rfl, alike_finish alike, adds.trans (adds_finish last), ?_⟩
    rw [alike.unit]
    exact otherAdds.trans (adds_finish otherLast)

theorem detached_run
    (body : (Executable.run phase.body config : Run σ υ Failure Unit).Detached) :
    (phase.run config label : Run σ υ PhaseError Unit).Detached := by
  intro s t alike
  rw [Phase.run_apply, Phase.run_apply, alike.going, alike.otherGoing, alike.scope]
  cases config.isEnabled phase.id with
  | false =>
    refine ⟨_, _, _, _, rfl, rfl, alike_skip alike, adds_skip s, ?_⟩
    rw [alike.scope]
    exact adds_skip t
  | true =>
    cases phase.prerequisites.find? (!t.context.scope.isDone ·) with
    | some prerequisite =>
      exact ⟨_, s, t, 0, rfl, rfl, alike, .refl s.context, .refl t.context⟩
    | none => exact detached_execute body alike

end Phase

theorem PhaseList.detached_run {β : Type} [Executable β σ υ] [WorkUnit υ] {config : Config}
    {list : PhaseList β}
    (bodies : ∀ phase ∈ list.phases,
      (Executable.run phase.body config : Run σ υ Failure Unit).Detached) :
    (list.run config : Run σ υ PhaseError Unit).Detached := by
  intro s t alike
  rw [PhaseList.run_apply, PhaseList.run_apply, alike.unit]
  exact Run.Detached.forM (fun phase member => Phase.detached_run (bodies phase member)) alike

/-! ### Passes over a file -/

theorem Context.adds_countTemporaries (context : Context) (introduced : Nat) :
    context.Adds { statistic := fun other => if other = "temporaries" then introduced else 0 }
      (context.countTemporaries introduced) := by
  unfold Context.countTemporaries
  split
  · exact ⟨rfl, rfl, rfl, fun other => context.statistic_bump "temporaries" other introduced,
      (List.append_nil _).symm, (List.append_nil _).symm, (List.append_nil _).symm⟩
  · exact context.adds_bump "temporaries" introduced

theorem State.Alike.countTemporaries {s t : State σ υ} (alike : s.Alike t) (introduced : Nat) :
    (s.context.countTemporaries introduced).scope = (t.context.countTemporaries introduced).scope := by
  let counted (scope : Scope) : Scope :=
    { scope with scratch := (scope.scratch.apply (.number temporarySlot (.add introduced))).1 }
  unfold Context.countTemporaries
  split
  · exact congrArg counted alike.scope
  · exact alike.scope

theorem detached_flattenBlocks : (flattenBlocks : Run σ File Failure Unit).Detached := by
  intro s t alike
  obtain ⟨trace, ran⟩ := flattenBlocks_apply s
  obtain ⟨otherTrace, otherRan⟩ := flattenBlocks_apply t
  rw [ran, otherRan, alike.unit]
  exact ⟨_, _, _, _, rfl, rfl, ⟨rfl, alike.scope, alike.going, alike.otherGoing⟩,
    s.context.adds_bump _ _, t.context.adds_bump _ _⟩

theorem detached_patchParents : (patchParents : Run σ File Failure Unit).Detached := by
  intro s t alike
  rw [patchParents_apply, patchParents_apply, alike.unit]
  exact ⟨_, _, _, _, rfl, rfl, ⟨rfl, alike.scope, alike.going, alike.otherGoing⟩,
    s.context.adds_bump _ _, t.context.adds_bump _ _⟩

/-- The number of the next temporary is in the scope, which the two states share. -/
theorem detached_introduceTemporaries :
    (introduceTemporaries : Run σ File Failure Unit).Detached := by
  intro s t alike
  have number : s.context.nextTemporary = t.context.nextTemporary := by
    unfold Context.nextTemporary
    rw [alike.scope]
  rw [introduceTemporaries_apply, introduceTemporaries_apply, alike.unit, number]
  refine ⟨_, _, _, _, rfl, rfl, ⟨rfl, alike.countTemporaries _, ?_, ?_⟩,
    s.context.adds_countTemporaries _, t.context.adds_countTemporaries _⟩
  · exact (s.context.adds_countTemporaries _).cancelled.trans alike.going
  · exact (t.context.adds_countTemporaries _).cancelled.trans alike.otherGoing

theorem detached_check (holds : υ → Except Violation Unit) (config : Config) :
    ((Body.check fun _ => holds).run config : Run σ υ Failure Unit).Detached := by
  intro s t alike
  rw [Body.check_apply, Body.check_apply, alike.unit]
  rcases holds t.unit with violation | _
  · exact ⟨_, s, t, 0, rfl, rfl, alike, .refl s.context, .refl t.context⟩
  · exact ⟨_, s, t, 0, rfl, rfl, alike, .refl s.context, .refl t.context⟩

theorem filePhases_detached (config : Config) :
    ∀ phase ∈ (filePhases : PhaseList (Body σ File)).phases,
      (phase.body.run config).Detached := by
  simp only [filePhases, List.forall_mem_cons]
  refine ⟨detached_flattenBlocks, detached_patchParents, ?_, detached_introduceTemporaries, ?_, ?_⟩
  · exact detached_check _ config
  · exact detached_check _ config
  · exact fun _ none => absurd none List.not_mem_nil

end StagedLowering
