import StagedLowering.Proofs.Binding
import StagedLowering.Proofs.FileLowering
import StagedLowering.Proofs.Settling

/-!
# Lowering modules

With all its phases enabled the standard list goes through the phases one after another, and
`modulePhases_ends` says for each what makes it fail. A run that succeeds leaves the files lowered,
after aliases were resolved and calls bound (`Module.Readied`).
-/

namespace StagedLowering

open Aliases

variable {σ : Type}

/-- A module is ready for the lowering of its files when its aliases are resolved and its calls
bound. -/
structure Module.Readied (rounds : Nat) (m : Module) (table : SymbolTable) (resolved : Module)
    (files : List File) : Prop extends m.Resolved rounds table resolved where
  bindable : ∀ file ∈ resolved.files, ∀ id, file.Reachable id → file.Bindable table id
  bound : List.Forall₂ (File.Bound table) resolved.files files

/-- How a run of the standard phases over a module ends, and why. Only the resolution of aliases
relies on the positions that files carry. -/
inductive Ends (rounds : Nat) (m : Module) :
    Except (Stop PhaseError) Unit → SymbolTable → Module → Prop
  | clashing {error : PhaseError} {table : SymbolTable} {last : Module}
      (clash : ¬ (m.declarations.map (·.name)).Nodup)
      (phase : error.phase = "collect_declarations") :
      Ends rounds m (.error (.error error)) table last
  | astray {stop : Stop PhaseError} {table : SymbolTable} {last : Module}
      (distinct : (m.declarations.map (·.name)).Nodup)
      (astray : m.Numbered → ¬ AllLead m.declarations rounds ∧
        ∃ error, stop = .error error ∧ error.phase = "resolve_aliases") :
      Ends rounds m (.error stop) table last
  | stuck {error : PhaseError} {table known : SymbolTable} {last resolved : Module}
      (done : m.Resolved rounds known resolved)
      (stuck : ∃ file ∈ resolved.files, ∃ id, file.Reachable id ∧ ¬ file.Bindable known id)
      (phase : error.phase = "resolve_calls") :
      Ends rounds m (.error (.error error)) table last
  | refused {error : PhaseError} {table known : SymbolTable} {last resolved : Module}
      {files : List File} (ready : m.Readied rounds known resolved files)
      (refused : ∃ file ∈ files, ¬ file.Lowerable 0) (phase : error.phase = "lower_files") :
      Ends rounds m (.error (.error error)) table last
  | unverified {error : PhaseError} {table known : SymbolTable} {last resolved : Module}
      {files : List File} (ready : m.Readied rounds known resolved files)
      (lowerable : ∀ file ∈ files, file.Lowerable 0)
      (violated : ({ resolved with files := files.map (File.lowered 0) } : Module).verify known ≠ .ok ())
      (phase : error.phase = "verify_module") :
      Ends rounds m (.error (.error error)) table last
  | lowered {table : SymbolTable} {resolved : Module} {files : List File}
      (ready : m.Readied rounds table resolved files)
      (lowerable : ∀ file ∈ files, file.Lowerable 0)
      (verified : ({ resolved with files := files.map (File.lowered 0) } : Module).verify table = .ok ()) :
      Ends rounds m (.ok ()) table { resolved with files := files.map (File.lowered 0) }

/-- A run that succeeds has gone through all the phases. -/
theorem Ends.readied {rounds : Nat} {m last : Module} {table : SymbolTable}
    (ends : Ends rounds m (.ok ()) table last) :
    ∃ resolved files, m.Readied rounds table resolved files ∧
      (∀ file ∈ files, file.Lowerable 0) ∧
      ({ resolved with files := files.map (File.lowered 0) } : Module).verify table = .ok () ∧
      last = { resolved with files := files.map (File.lowered 0) } := by
  cases ends with
  | lowered ready lowerable verified => exact ⟨_, _, ready, lowerable, verified, rfl⟩

section run

variable {config : Config} (enabled : ∀ id, config.isEnabled id = true)
  (failFast : config.filePolicy = .failFast)

include enabled failFast

theorem modulePhases_steady :
    ∀ phase ∈ (modulePhases : PhaseList (ModuleBody σ)).phases,
      (Executable.run phase.body config : Run σ Module Failure Unit).Steady := by
  simp only [modulePhases, List.forall_mem_cons]
  refine ⟨fun state after _ _ ran => ?_, ?_, fun state after _ _ ran => ?_,
    fun state after _ going ran => ?_, ?_, fun state after _ _ ran => ?_, ?_⟩
  · have collected := (collectDeclarations_apply state).symm.trans ran
    split at collected
    · cases collected
      exact ⟨rfl, rfl⟩
    · dsimp only at collected
      split at collected
      · cases collected
      · cases collected
  · exact aliasResolution_steady config
  · rcases bindCalls_cases state with ⟨_, files, count, bound, _⟩ | ⟨_, failure, last, stuck⟩
    · cases bound.symm.trans ran
      exact ⟨rfl, rfl⟩
    · cases stuck.symm.trans ran
  · rcases lowerFiles_run (fun phase _ => enabled phase.id) failFast going with
      ⟨_, last, lowered, _, kept⟩ | ⟨_, failure, last, refused⟩
    · cases lowered.symm.trans ran
      exact ⟨kept.cancelled, by rw [kept.scope]⟩
    · cases refused.symm.trans ran
  · exact check_steady (fun context => Module.verify context.symbols) config
  · obtain ⟨statistics, collected⟩ := collectStatistics_apply state
    cases collected.symm.trans ran
    exact ⟨rfl, rfl⟩
  · exact fun _ none => absurd none List.not_mem_nil

omit enabled failFast in
theorem modulePhases_bodies (config : Config) :
    ∃ collect resolve bind lower verify count : Phase (ModuleBody σ),
      modulePhases.phases = [collect, resolve, bind, lower, verify, count] ∧
      (collect.id = "collect_declarations" ∧
        ∀ state, Executable.run collect.body config state = collectDeclarations state) ∧
      (resolve.id = "resolve_aliases" ∧
        ∀ state, Executable.run resolve.body config state = aliasResolution.run config state) ∧
      (bind.id = "resolve_calls" ∧
        ∀ state, Executable.run bind.body config state = bindCalls state) ∧
      (lower.id = "lower_files" ∧
        ∀ state, Executable.run lower.body config state =
          (ModuleBody.perFile filePhases).run config state) ∧
      (verify.id = "verify_module" ∧
        ∀ state, Executable.run verify.body config state =
          (Body.check fun context => Module.verify context.symbols).run config state) ∧
      ∀ state, Executable.run count.body config state = collectStatistics state :=
  ⟨_, _, _, _, _, _, rfl, ⟨rfl, fun _ => rfl⟩, ⟨rfl, fun _ => rfl⟩, ⟨rfl, fun _ => rfl⟩,
    ⟨rfl, fun _ => rfl⟩, ⟨rfl, fun _ => rfl⟩, fun _ => rfl⟩

/-- The phases after the binding of calls, on a module that is ready for them. -/
theorem ends_of_readied {m resolved : Module} {files : List File} {rounds : Nat} {label : String}
    {lower verify count : Phase (ModuleBody σ)}
    (lowerId : lower.id = "lower_files") (verifyId : verify.id = "verify_module")
    (lowerRun : ∀ state, Executable.run lower.body config state =
      (ModuleBody.perFile filePhases).run config state)
    (verifyRun : ∀ state, Executable.run verify.body config state =
      (Body.check fun context => Module.verify context.symbols).run config state)
    (countRun : ∀ state, Executable.run count.body config state = collectStatistics state)
    {state : State σ Module} (going : state.context.cancelled = false)
    (unit : state.unit = { resolved with files })
    (ready : m.Readied rounds state.context.symbols resolved files) :
    let ended := [lower, verify, count].forM (Phase.perform config label) state
    Ends rounds m ended.1 ended.2.context.symbols ended.2.unit := by
  intro ended
  have begun : (lower.begin config label state).context.cancelled = false := going
  rcases lowerFiles_run (fun phase _ => enabled phase.id) failFast begun with
    ⟨lowerable, after, ran, lowered, kept⟩ | ⟨refused, failure, after, failed⟩
  rotate_left
  · obtain ⟨last, stopped⟩ := Phase.perform_of_error ((lowerRun _).trans failed)
    have stops : ended = _ := Run.forM_of_error stopped
    rw [stops]
    have filesRefused : ∃ file ∈ state.unit.files, ¬ file.Lowerable 0 := refused
    rw [unit] at filesRefused
    exact .refused ready filesRefused lowerId
  obtain ⟨first, firstRan, firstNoted⟩ := Phase.perform_of_ok ((lowerRun _).trans ran)
  have goesOn : ended = _ := Run.forM_of_ok firstRan
  have firstSymbols : first.context.symbols = state.context.symbols :=
    firstNoted.symbols.trans kept.symbols
  have firstUnit : first.unit = { resolved with files := files.map (File.lowered 0) } := by
    rw [firstNoted.unit, lowered]
    show ({ state.unit with files := state.unit.files.map (File.lowered 0) } : Module) = _
    rw [unit]
  have filesLowerable : ∀ file ∈ state.unit.files, file.Lowerable 0 := lowerable
  rw [unit] at filesLowerable
  rcases Phase.perform_check verifyRun first with
    ⟨verified, second, secondRan, secondNoted⟩ | ⟨violation, last, violated, stopped⟩
  rotate_left
  · rw [goesOn, Run.forM_of_error stopped]
    rw [firstSymbols, firstUnit] at violated
    refine .unverified ready filesLowerable (fun verified => ?_) verifyId
    rw [verified] at violated
    cases violated
  obtain ⟨statistics, counted⟩ := collectStatistics_apply (count.begin config label second)
  obtain ⟨last, lastRan, lastNoted⟩ := Phase.perform_of_ok ((countRun _).trans counted)
  rw [goesOn, Run.forM_of_ok secondRan, Run.forM_of_ok lastRan]
  rw [firstSymbols, firstUnit] at verified
  have lastSymbols : last.context.symbols = state.context.symbols :=
    lastNoted.symbols.trans (secondNoted.symbols.trans firstSymbols)
  have lastUnit : last.unit = { resolved with files := files.map (File.lowered 0) } :=
    lastNoted.unit.trans (secondNoted.unit.trans firstUnit)
  show Ends rounds m (.ok ()) last.context.symbols last.unit
  rw [lastSymbols, lastUnit]
  exact .lowered ready filesLowerable verified

/-- The phases after the resolution of aliases. -/
theorem ends_of_resolved {m : Module} {rounds : Nat} {label : String}
    {bind lower verify count : Phase (ModuleBody σ)}
    (bindId : bind.id = "resolve_calls") (lowerId : lower.id = "lower_files")
    (verifyId : verify.id = "verify_module")
    (bindRun : ∀ state, Executable.run bind.body config state = bindCalls state)
    (lowerRun : ∀ state, Executable.run lower.body config state =
      (ModuleBody.perFile filePhases).run config state)
    (verifyRun : ∀ state, Executable.run verify.body config state =
      (Body.check fun context => Module.verify context.symbols).run config state)
    (countRun : ∀ state, Executable.run count.body config state = collectStatistics state)
    {state : State σ Module} (going : state.context.cancelled = false)
    (done : m.Resolved rounds state.context.symbols state.unit) :
    let ended := [bind, lower, verify, count].forM (Phase.perform config label) state
    Ends rounds m ended.1 ended.2.context.symbols ended.2.unit := by
  intro ended
  rcases bindCalls_cases (bind.begin config label state) with
    ⟨bindable, files, number, bound, allBound⟩ | ⟨stuck, failure, after, failed⟩
  rotate_left
  · obtain ⟨last, stopped⟩ := Phase.perform_of_error ((bindRun _).trans failed)
    have stops : ended = _ := Run.forM_of_error stopped
    rw [stops]
    exact .stuck done stuck bindId
  obtain ⟨next, ran, noted⟩ := Phase.perform_of_ok ((bindRun _).trans bound)
  have goesOn : ended = _ := Run.forM_of_ok ran
  have symbols : next.context.symbols = state.context.symbols := noted.symbols
  have ready : m.Readied rounds next.context.symbols state.unit files := by
    rw [symbols]
    exact ⟨done, bindable, allBound⟩
  rw [goesOn]
  exact ends_of_readied enabled failFast lowerId verifyId lowerRun verifyRun countRun
    (noted.cancelled.trans going) noted.unit ready

/-- From a state without symbols, every phase fails for one reason and else leaves what the next
one needs. -/
theorem modulePhases_ends {state : State σ Module} (going : state.context.cancelled = false)
    (fresh : state.context.symbols = {}) :
    Ends (max config.maxIterations 1) state.unit (modulePhases.run config state).1
      (modulePhases.run config state).2.context.symbols (modulePhases.run config state).2.unit := by
  rw [PhaseList.run_enabled (fun phase _ => enabled phase.id)
    (modulePhases_steady enabled failFast) going]
  generalize WorkUnit.label state.unit = label
  obtain ⟨collect, resolve, bind, lower, verify, count, phases, ⟨collectId, collectRun⟩,
    ⟨resolveId, resolveRun⟩, ⟨bindId, bindRun⟩, ⟨lowerId, lowerRun⟩, ⟨verifyId, verifyRun⟩, countRun⟩ :=
    @modulePhases_bodies σ config
  rw [phases]
  have begun : (collect.begin config label state).context.symbols = {} := fresh
  rcases collectDeclarations_cases begun with
    ⟨distinct, table, statistics, collected, indexed, entries⟩ | ⟨clash, failure, after, failed⟩
  rotate_left
  · obtain ⟨last, stopped⟩ := Phase.perform_of_error ((collectRun _).trans failed)
    rw [Run.forM_of_error stopped]
    exact .clashing clash collectId
  obtain ⟨first, firstRan, firstNoted⟩ := Phase.perform_of_ok ((collectRun _).trans collected)
  have firstUnit : first.unit = state.unit := firstNoted.unit
  have firstSymbols : first.context.symbols = table := firstNoted.symbols
  have firstGoing : first.context.cancelled = false := firstNoted.cancelled.trans going
  rw [Run.forM_of_ok firstRan]
  have firstDistinct : (first.unit.declarations.map (·.name)).Nodup := firstUnit ▸ distinct
  have firstIndexed : first.context.symbols.Indexed := firstSymbols ▸ indexed
  have firstEntries : first.context.symbols.entries.toList = first.unit.declarations := by
    rw [firstSymbols, firstUnit]
    exact entries
  have resolving : (resolve.begin config label first).context.cancelled = false := firstGoing
  rcases aliasResolution_ends resolving firstDistinct firstIndexed firstEntries config with
    ⟨after, resolved, goesOn, done⟩ | ⟨stop, after, failed, why⟩
  rotate_left
  · have reason : state.unit.Numbered → ¬ AllLead state.unit.declarations (max config.maxIterations 1) ∧
        ∃ failure, stop = .error failure := firstUnit ▸ why
    cases stop with
    | error failure =>
      obtain ⟨last, stopped⟩ := Phase.perform_of_error ((resolveRun _).trans failed)
      rw [Run.forM_of_error stopped]
      exact .astray distinct fun numbered => ⟨(reason numbered).1, _, rfl, resolveId⟩
    | fault =>
      obtain ⟨last, stopped⟩ := Phase.perform_of_fault ((resolveRun _).trans failed)
      rw [Run.forM_of_error stopped]
      refine .astray distinct fun numbered => ?_
      obtain ⟨_, failure, impossible⟩ := reason numbered
      cases impossible
  obtain ⟨second, secondRan, secondNoted⟩ := Phase.perform_of_ok ((resolveRun _).trans resolved)
  rw [Run.forM_of_ok secondRan]
  have secondDone : state.unit.Resolved (max config.maxIterations 1) second.context.symbols
      second.unit := by
    rw [secondNoted.symbols, secondNoted.unit, ← firstUnit]
    exact done
  exact ends_of_resolved enabled failFast bindId lowerId verifyId bindRun lowerRun verifyRun countRun
    (secondNoted.cancelled.trans goesOn) secondDone

end run

/-- A pipeline over the standard phases ends as they do, whatever state it is started in. -/
theorem Pipeline.run_ends (pipeline : Pipeline σ) (standard : pipeline.phases = modulePhases)
    (enabled : ∀ id, pipeline.config.isEnabled id = true)
    (failFast : pipeline.config.filePolicy = .failFast) (state : State σ Module) :
    Ends (max pipeline.config.maxIterations 1) state.unit (pipeline.run state).1
      (pipeline.run state).2.context.symbols (pipeline.run state).2.unit := by
  have going : (Pipeline.begin state).context.cancelled = false := rfl
  have ends := modulePhases_ends enabled failFast going rfl
  obtain ⟨trace, run⟩ := pipeline.run_apply state
  rw [run, standard]
  exact ends

end StagedLowering
