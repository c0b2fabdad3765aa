import StagedLowering.Proofs.Execution

/-!
# What the passes do

One equation for each pass: the value it ends with and the state it leaves.
-/

namespace StagedLowering

variable {σ υ : Type}

theorem Body.check_apply (holds : Context → υ → Except Violation Unit) (config : Config)
    (state : State σ υ) :
    (Body.check holds).run config state =
      match holds state.context state.unit with
      | .ok () => (.ok (), state)
      | .error violation => (.error (.error (.violated violation)), state) := by
  unfold Body.run
  dsimp only
  rw [Run.bind_of_ok (Run.getContext_apply state), Run.bind_of_ok (Run.getUnit_apply state)]
  rcases holds state.context state.unit with violation | _
  · rfl
  · rfl

/-- A check changes nothing, whether it passes or not. -/
theorem Body.check_state (holds : Context → υ → Except Violation Unit) (config : Config)
    (state : State σ υ) : ((Body.check holds).run config state).2 = state := by
  rw [Body.check_apply]
  rcases holds state.context state.unit with violation | _
  · rfl
  · rfl

theorem Body.eq_of_check {holds : Context → υ → Except Violation Unit} {config : Config}
    {state last : State σ υ} {result : Except (Stop Failure) Unit}
    (ran : (Body.check holds).run config state = (result, last)) : last = state := by
  have same := Body.check_state holds config state
  rwa [ran] at same

theorem Body.holds_of_check {holds : Context → υ → Except Violation Unit} {config : Config}
    {state last : State σ υ} (ran : (Body.check holds).run config state = (.ok (), last)) :
    holds state.context state.unit = .ok () := by
  rw [Body.check_apply] at ran
  split at ran
  · next accepted => exact accepted
  · cases ran

/-! ### Passes over a file -/

theorem flattenBlocks_apply (state : State σ File) :
    ∃ trace : Trace, flattenBlocks state =
      (.ok (), { state with
        trace
        context := state.context.bump "blocks_flattened" state.unit.flatten.2
        unit := state.unit.flatten.1 }) := by
  unfold flattenBlocks
  rw [Run.bind_of_ok (Run.getUnit_apply state)]
  by_cases some : 0 < state.unit.flatten.2
  · simp only [some, if_true]
    exact ⟨_, rfl⟩
  · simp only [some, if_false]
    exact ⟨_, rfl⟩

theorem patchParents_apply (state : State σ File) :
    patchParents state =
      (.ok (), { state with
        context := state.context.bump "parents_patched" state.unit.patchLinks.2
        unit := state.unit.patchLinks.1 }) := rfl

def Context.nextTemporary (context : Context) : Nat :=
  (context.scope.scratch.numbers.get? temporarySlot).getD 0

def Context.countTemporaries (context : Context) (introduced : Nat) : Context :=
  (if 0 < introduced then (context.applyScratch (.number temporarySlot (.add introduced))).1
    else context).bump "temporaries" introduced

theorem introduceTemporaries_apply (state : State σ File) :
    introduceTemporaries state =
      (.ok (), { state with
        context := state.context.countTemporaries state.unit.exposedCalls.length
        unit := state.unit.wrapCalls state.context.nextTemporary }) := by
  unfold introduceTemporaries Context.countTemporaries
  rw [Run.bind_of_ok (Run.getUnit_apply state)]
  by_cases some : 0 < state.unit.exposedCalls.length
  · simp only [some, if_true]
    rfl
  · have none : state.unit.exposedCalls = [] := List.eq_nil_of_length_eq_zero (by omega)
    simp only [none, File.wrapCalls, File.wrapEdges]
    rfl

/-! ### Passes over a module -/

theorem collectDeclarations_apply (state : State σ Module) :
    collectDeclarations state =
      match state.context.symbols.declareAll state.unit.declarations with
      | (symbols, none) =>
        (.ok (), { state with
          context := { state.context with symbols }.setStatistic "symbols" symbols.size })
      | (symbols, some (symbol, earlier)) =>
        let stopped := { state with context := { state.context with symbols } }
        match symbols.get? earlier with
        | some holder =>
          (.error (.error
            (.reported (.alreadyDeclared symbol.name holder.declaredAt) symbol.declaredAt)), stopped)
        | none => (.error .fault, stopped) := by
  unfold collectDeclarations
  rw [Run.bind_of_ok (Run.getContext_apply state), Run.bind_of_ok (Run.getUnit_apply state)]
  rcases state.context.symbols.declareAll state.unit.declarations with
    ⟨symbols, _ | ⟨symbol, earlier⟩⟩
  · rfl
  · dsimp only
    rw [Run.bind_of_ok (Run.onContext_apply _ _)]
    cases symbols.get? earlier with
    | none => rfl
    | some holder => rfl

@[simp] theorem collectDeclarations_unit (state : State σ Module) :
    (collectDeclarations state).2.unit = state.unit := by
  rw [collectDeclarations_apply]
  rcases state.context.symbols.declareAll state.unit.declarations with
    ⟨symbols, _ | ⟨symbol, earlier⟩⟩
  · rfl
  · dsimp only
    split <;> rfl

/-- Writing the function of an alias changes the node that declares it, if that is an alias. -/
theorem Module.resolveAt_some {m resolved : Module} {place : Location} {function : SymbolId}
    (done : m.resolveAt place function = some resolved) :
    ∃ file, m.files[place.file]? = some file ∧ (resolved = m ∨
      ∃ name target old, file.kind? place.node = some (.synonym name target old) ∧
        resolved = m.setFile place.file
          (file.setKind place.node (.synonym name target (some function)))) := by
  unfold resolveAt at done
  obtain ⟨file, found, done⟩ := Option.bind_eq_some_iff.mp done
  obtain ⟨kind, kindFound, done⟩ := Option.bind_eq_some_iff.mp done
  refine ⟨file, found, ?_⟩
  split at done
  · next name target old => exact .inr ⟨name, target, old, kindFound, (Option.some.inj done).symm⟩
  · exact .inl (Option.some.inj done).symm

theorem resolveRound_apply (state : State σ Module) :
    resolveRound state =
      match resolveAliases state.context.symbols state.unit 0 state.context.symbols.pending with
      | (symbols, m, result) =>
        (result.map .ofResidual,
          { state with context := { state.context with symbols }, unit := m }) := by
  unfold resolveRound
  rw [Run.bind_of_ok (Run.getContext_apply state), Run.bind_of_ok (Run.getUnit_apply state)]
  rcases resolveAliases state.context.symbols state.unit 0 state.context.symbols.pending with
    ⟨symbols, m, stop | residual⟩
  · rfl
  · rfl

theorem bindCalls_apply (state : State σ Module) :
    bindCalls state =
      match bindFiles state.context.symbols state.unit.files with
      | (files, result) =>
        let bound : State σ Module := { state with unit := { state.unit with files } }
        match result with
        | .ok count =>
          (.ok (), { bound with context := state.context.bump "calls_bound" count })
        | .error failure => (.error (.error failure), bound) := by
  unfold bindCalls
  rw [Run.bind_of_ok (Run.getUnit_apply state), Run.bind_of_ok (Run.getContext_apply state)]
  rcases bindFiles state.context.symbols state.unit.files with ⟨files, failure | count⟩
  · rfl
  · rfl

theorem collectStatistics_apply (state : State σ Module) :
    ∃ statistics : NameMap Nat, collectStatistics state =
      (.ok (), { state with context := { state.context with statistics } }) := ⟨_, rfl⟩

end StagedLowering
