import StagedLowering.Proofs.Calls
import StagedLowering.Proofs.Census
import StagedLowering.Proofs.Gains
import StagedLowering.Proofs.ModuleLowering
import StagedLowering.Proofs.Policies

/-!
# What runs count

A run that succeeds adds to each counter an amount that its unit decides (`Run.Tallies`). A phase
over the files of a module adds what its list adds on each of them (`PhaseList.tallies_perFile`). The
accounts of a whole run of the standard phases (`Pipeline.run_accounts`) are put together from what
each phase does to the counters.
-/

namespace StagedLowering

variable {σ υ : Type} {config : Config} {label : String}

theorem State.Noted.statistic {before after : State σ υ} (noted : before.Noted after)
    (name : String) : after.context.statistic name = before.context.statistic name := by
  unfold Context.statistic
  rw [noted.statistics]

def Run.Tallies {ε α : Type} (tally : υ → String → Nat) (act : Run σ υ ε α) : Prop :=
  ∀ ⦃state last : State σ υ⦄ ⦃a : α⦄, act state = (.ok a, last) →
    ∀ name, last.context.statistic name = state.context.statistic name + tally state.unit name

/-- An enabled phase that succeeds was not cancelled and has run its body. -/
theorem Phase.body_of_run {β : Type} [Executable β σ υ] [WorkUnit υ] {phase : Phase β}
    (enabled : config.isEnabled phase.id = true) {state last : State σ υ}
    (ran : phase.run config label state = (.ok (), last)) :
    state.context.cancelled = false ∧ ∃ after,
      Executable.run phase.body config (phase.begin config label state) = (.ok (), after) ∧
        after.Noted last := by
  rcases Phase.run_cases ran nofun with ⟨-, calls, passed⟩ | ⟨failure, calls, failed, -⟩
  · cases passed with
    | skipped going disabled =>
      rw [enabled] at disabled
      cases disabled
    | completed going _ ready body => exact ⟨going, _, body, Phase.noted_finish _⟩
  · cases failed

/-! ### One file -/

def File.tally (file : File) (name : String) : Nat :=
  if name = "blocks_flattened" then file.flatten.2
  else if name = "parents_patched" then file.flatten.1.patchLinks.2
  else if name = "temporaries" then file.repaired.exposedCalls.length
  else 0

theorem Context.statistic_countTemporaries (context : Context) (introduced : Nat)
    (name : String) :
    (context.countTemporaries introduced).statistic name =
      context.statistic name + if name = "temporaries" then introduced else 0 :=
  (context.adds_countTemporaries introduced).statistic name

theorem filePhases_tallies
    (enabled : ∀ phase ∈ (filePhases : PhaseList (Body σ File)).phases,
      config.isEnabled phase.id = true) :
    (filePhases.run config : Run σ File PhaseError Unit).Tallies File.tally := by
  intro state last _ ran name
  rw [PhaseList.run_apply] at ran
  obtain ⟨flatten, patch, links, wrap, temporaries, phases, flattenRun, patchRun, linksRun, wrapRun,
    temporariesRun⟩ := @filePhases_bodies σ config
  rw [phases] at ran enabled
  simp only [List.forall_mem_cons] at enabled
  obtain ⟨flattenOn, patchOn, linksOn, wrapOn, temporariesOn, -⟩ := enabled
  obtain ⟨first, firstRan, ran⟩ := Run.forM_ok ran
  obtain ⟨second, secondRan, ran⟩ := Run.forM_ok ran
  obtain ⟨third, thirdRan, ran⟩ := Run.forM_ok ran
  obtain ⟨fourth, fourthRan, ran⟩ := Run.forM_ok ran
  obtain ⟨fifth, fifthRan, ran⟩ := Run.forM_ok ran
  cases ran
  obtain ⟨-, flat, flattened, flatNoted⟩ := Phase.body_of_run flattenOn firstRan
  obtain ⟨-, patched, patchedRan, patchedNoted⟩ := Phase.body_of_run patchOn secondRan
  obtain ⟨-, checked, checkedRan, checkedNoted⟩ := Phase.body_of_run linksOn thirdRan
  obtain ⟨-, wrapped, wrappedRan, wrappedNoted⟩ := Phase.body_of_run wrapOn fourthRan
  obtain ⟨-, final, finalRan, finalNoted⟩ := Phase.body_of_run temporariesOn fifthRan
  obtain ⟨trace, flattens⟩ := flattenBlocks_apply (flatten.begin config (WorkUnit.label state.unit) state)
  cases ((flattenRun _).trans flattens).symm.trans flattened
  cases ((patchRun _).trans (patchParents_apply _)).symm.trans patchedRan
  obtain rfl := Body.eq_of_check ((linksRun _).symm.trans checkedRan)
  cases ((wrapRun _).trans (introduceTemporaries_apply _)).symm.trans wrappedRan
  obtain rfl := Body.eq_of_check ((temporariesRun _).symm.trans finalRan)
  have firstUnit : first.unit = state.unit.flatten.1 := flatNoted.unit
  have secondUnit : second.unit = state.unit.repaired := by
    rw [patchedNoted.unit]
    show first.unit.patchLinks.1 = _
    rw [firstUnit]
    rfl
  have thirdUnit : third.unit = state.unit.repaired := checkedNoted.unit.trans secondUnit
  have firstCount : first.context.statistic name = state.context.statistic name +
      if name = "blocks_flattened" then state.unit.flatten.2 else 0 :=
    (flatNoted.statistic name).trans (Context.statistic_bump ..)
  have secondCount : second.context.statistic name = first.context.statistic name +
      if name = "parents_patched" then first.unit.patchLinks.2 else 0 :=
    (patchedNoted.statistic name).trans (Context.statistic_bump ..)
  have thirdCount : third.context.statistic name = second.context.statistic name :=
    checkedNoted.statistic name
  have fourthCount : fourth.context.statistic name = third.context.statistic name +
      if name = "temporaries" then third.unit.exposedCalls.length else 0 :=
    (wrappedNoted.statistic name).trans (Context.statistic_countTemporaries ..)
  have lastCount : last.context.statistic name = fourth.context.statistic name :=
    finalNoted.statistic name
  rw [lastCount, fourthCount, thirdCount, secondCount, firstCount, thirdUnit, firstUnit]
  unfold File.tally
  grind

/-! ### All files -/

namespace PhaseList

variable {list : PhaseList (Body σ File)} {tally : File → String → Nat}

theorem tallies_onFile (each : (list.run config : Run σ File PhaseError Unit).Tallies tally)
    {i : Nat} {state next : State σ Module}
    (ran : Run.onFile i (list.runFile config) state = (.ok (), next)) :
    ∃ file changed, state.unit.files[i]? = some file ∧
      next.unit = state.unit.setFile i changed ∧
      ∀ name, next.context.statistic name = state.context.statistic name + tally file name := by
  obtain ⟨file, last, found, ended, rfl⟩ := exists_run_of_onFile ran nofun
  refine ⟨file, last.unit, found, rfl, fun name => ?_⟩
  obtain ⟨scope, enclosing, exited⟩ := last.context.exists_exitScope
  have left : (putBack state.unit i last).context.statistic name = last.context.statistic name := by
    show last.context.exitScope.statistic name = _
    rw [exited]
    rfl
  rw [left]
  exact each ended name

/-- Different files are counted one by one, each as it was found. -/
theorem tallies_runFiles (each : (list.run config : Run σ File PhaseError Unit).Tallies tally)
    {numbers : List Nat} (nodup : numbers.Nodup) {state last : State σ Module}
    (ran : list.runFiles config numbers state = (.ok [], last)) (name : String) :
    last.context.statistic name = state.context.statistic name +
      (numbers.map fun i => (state.unit.files[i]?).elim 0 (tally · name)).sum := by
  induction numbers generalizing state with
  | nil =>
    cases ran
    rfl
  | cons i rest ih =>
    obtain ⟨notAgain, nodup⟩ := List.nodup_cons.mp nodup
    rcases first : Run.onFile i (list.runFile config) state with ⟨(error | _) | _, next⟩
    · rw [runFiles_cons, first] at ran
      dsimp only at ran
      split at ran
      · cases ran
      · split at ran
        · cases ran
        · cases ran
    · rw [runFiles_cons, first] at ran
      cases ran
    · rw [runFiles_cons_of_ok first] at ran
      obtain ⟨file, changed, found, unit, count⟩ := tallies_onFile each first
      have others : (rest.map fun j => (next.unit.files[j]?).elim 0 (tally · name)) =
          rest.map fun j => (state.unit.files[j]?).elim 0 (tally · name) := by
        refine List.map_congr_left fun j member => ?_
        have apart : i ≠ j := fun same => notAgain (same ▸ member)
        rw [unit, Module.setFile, List.getElem?_set_ne apart]
      rw [ih nodup ran, count, others, List.map_cons, List.sum_cons, found, Nat.add_assoc]
      rfl

theorem tallies_perFile (each : (list.run config : Run σ File PhaseError Unit).Tallies tally) :
    ((ModuleBody.perFile list).run config).Tallies fun m name => (m.files.map (tally · name)).sum := by
  intro state last _ ran name
  rw [perFile_apply] at ran
  split at ran
  · next after files =>
    cases ran
    have all : (List.range state.unit.files.length).map
        (fun i => (state.unit.files[i]?).elim 0 (tally · name)) =
        state.unit.files.map (tally · name) := by
      refine List.ext_getElem (by simp) fun i before after => ?_
      simp at after
      simp [after]
    rw [tallies_runFiles each List.nodup_range files name, all]
  · cases ran
  · cases ran

end PhaseList

/-! ### Phases over a module -/

namespace NodeKind

def isOpen : NodeKind → Bool
  | call _ none => true
  | _ => false

end NodeKind

theorem File.bindCalls_count {symbols : SymbolTable} {file last : File} {ids : List NodeId}
    {count : Nat} (nodup : ids.Nodup) (ran : file.bindCalls symbols ids = (last, .ok count)) :
    count = ids.countP fun id => (file.kind? id).any (·.isOpen) := by
  fun_induction bindCalls symbols file ids generalizing last count with
  | case1 file =>
    cases ran
    rfl
  | case2 file id rest callee found unknown => cases ran
  | case3 file id rest callee found function known changed bound bindsRest ih =>
    obtain ⟨notAgain, nodup⟩ := List.nodup_cons.mp nodup
    cases bound with
    | error failure => cases ran
    | ok later =>
      cases ran
      have others : (rest.countP fun other =>
            ((file.setKind id (.call callee (some function))).kind? other).any (·.isOpen)) =
          rest.countP fun other => (file.kind? other).any (·.isOpen) := by
        refine List.countP_congr fun other member => ?_
        rw [kind?_setKind (lt_of_kind? found), if_neg]
        rintro rfl
        exact notAgain member
      have here : (file.kind? id).any (·.isOpen) = true := by
        rw [found]
        rfl
      rw [ih nodup bindsRest, others, List.countP_cons, if_pos here]
  | case4 file id rest notOpen ih =>
    have here : (file.kind? id).any (·.isOpen) = false := by
      rcases found : file.kind? id with _ | kind
      · rfl
      · rcases kind with _ | _ | _ | ⟨callee, _ | target⟩ | _ | _ | _
        case some.call.none => exact absurd found (notOpen callee)
        all_goals rfl
    rw [ih (List.nodup_cons.mp nodup).2 ran, List.countP_cons, here]
    rfl

theorem Module.countP_kinds (holds : NodeKind → Bool) (m : Module) :
    m.kinds.countP holds = (m.files.map (·.kinds.countP holds)).sum := by
  rw [Module.kinds, List.countP_flatMap]
  rfl

theorem bindFiles_count {symbols : SymbolTable} {files last : List File} {count : Nat}
    (ran : bindFiles symbols files = (last, .ok count)) :
    count = (files.map (·.kinds.countP (·.isOpen))).sum := by
  induction files generalizing last count with
  | nil =>
    cases ran
    rfl
  | cons file rest ih =>
    rw [bindFiles] at ran
    rcases here : file.bindCalls symbols file.preorder with ⟨changed, failure | bound⟩
    · rw [here] at ran
      cases ran
    · rw [here] at ran
      rcases later : bindFiles symbols rest with ⟨others, failure | more⟩
      · rw [later] at ran
        cases ran
      · rw [later] at ran
        cases ran
        rw [List.map_cons, List.sum_cons, File.countP_kinds, File.bindCalls_count file.preorder_nodup here,
          ih later]

/-- Binding counts the calls that had no target. -/
theorem bindCalls_tallies : (bindCalls : Run σ Module Failure Unit).Tallies fun m name =>
    if name = "calls_bound" then m.kinds.countP (·.isOpen) else 0 := by
  intro state last _ ran name
  rw [bindCalls_apply] at ran
  rcases files : bindFiles state.context.symbols state.unit.files with ⟨changed, failure | count⟩
  · rw [files] at ran
    cases ran
  · rw [files] at ran
    cases ran
    have all : count = state.unit.kinds.countP (·.isOpen) := by
      rw [Module.countP_kinds, bindFiles_count files]
    show (state.context.bump "calls_bound" count).statistic name =
      state.context.statistic name +
        if name = "calls_bound" then state.unit.kinds.countP (·.isOpen) else 0
    rw [← all]
    exact Context.statistic_bump ..

/-- From a state without symbols every declaration becomes one. -/
theorem collectDeclarations_count {state last : State σ Module}
    (fresh : state.context.symbols = {}) (ran : collectDeclarations state = (.ok (), last)) :
    last.unit = state.unit ∧ ∀ name, last.context.statistic name =
      if name = "symbols" then state.unit.declarations.length else state.context.statistic name := by
  rw [collectDeclarations_apply, fresh] at ran
  rcases SymbolTable.declareAll_cases SymbolTable.indexed_empty state.unit.declarations with
    ⟨-, table, declared, all⟩ | ⟨table, before, symbol, earlier, declared, clash⟩
  · rw [declared] at ran
    cases ran
    refine ⟨rfl, fun name => ?_⟩
    have size : table.size = state.unit.declarations.length := by
      have lengths := congrArg List.length all.entries
      rwa [Array.length_toList] at lengths
    rw [Context.statistic_setStatistic, size]
    rfl
  · obtain ⟨holder, held, -⟩ := clash.taken
    rw [declared] at ran
    dsimp only at ran
    rw [held] at ran
    cases ran

/-- The resolution of aliases has a counter of its own. -/
theorem aliasResolution_statistic {name : String} (other : name ≠ "resolve_aliases.iterations")
    (config : Config) :
    ((aliasResolution : Fixpoint σ Module).run config).Keeps
      fun before after => after.context.statistic name = before.context.statistic name := by
  have frame : Frame fun before after : State σ Module =>
      after.context.statistic name = before.context.statistic name :=
    ⟨fun first second => second.trans first, fun noted => noted.statistic name⟩
  have round : (resolveRound : Run σ Module Failure Progress).Keeps fun before after =>
      after.context.statistic name = before.context.statistic name := by
    intro state
    rw [resolveRound_apply]
    rfl
  refine frame.bind (frame.settleFrom round _ _ _) fun iterations => ?_
  refine frame.bind (fun state => frame.trace state _) fun _ state => ?_
  show (state.context.bump "resolve_aliases.iterations" iterations).statistic name = _
  rw [Context.statistic_bump, if_neg other, Nat.add_zero]

/-! ### A whole run -/

section phases

variable {state last : State σ Module}

/-- Up to the binding of calls the counters are those of declarations and bound calls. -/
theorem counts_of_binding {collect resolve bind : Phase (ModuleBody σ)}
    (enabled : ∀ id, config.isEnabled id = true)
    (collectRun : ∀ state, Executable.run collect.body config state = collectDeclarations state)
    (resolveRun : ∀ state,
      Executable.run resolve.body config state = aliasResolution.run config state)
    (bindRun : ∀ state, Executable.run bind.body config state = bindCalls state)
    (fresh : state.context.symbols = {})
    (ran : [collect, resolve, bind].forM (Phase.run config label) state = (.ok (), last)) :
    ∃ resolved, state.unit.Rebound NodeKind.isSynonym resolved ∧
      resolved.Rebound NodeKind.isCall last.unit ∧
      ∀ name ≠ "resolve_aliases.iterations", last.context.statistic name =
        (if name = "symbols" then state.unit.declarations.length else state.context.statistic name) +
          if name = "calls_bound" then resolved.kinds.countP (·.isOpen) else 0 := by
  obtain ⟨first, firstRan, ran⟩ := Run.forM_ok ran
  obtain ⟨second, secondRan, ran⟩ := Run.forM_ok ran
  obtain ⟨third, thirdRan, ran⟩ := Run.forM_ok ran
  cases ran
  obtain ⟨-, collected, collectedRan, collectedNoted⟩ := Phase.body_of_run (enabled _) firstRan
  obtain ⟨-, resolved, resolvedRan, resolvedNoted⟩ := Phase.body_of_run (enabled _) secondRan
  obtain ⟨-, bound, boundRan, boundNoted⟩ := Phase.body_of_run (enabled _) thirdRan
  rw [collectRun] at collectedRan
  rw [resolveRun] at resolvedRan
  rw [bindRun] at boundRan
  have begun : (collect.begin config label state).context.symbols = {} := fresh
  obtain ⟨collectedUnit, collectedCount⟩ := collectDeclarations_count begun collectedRan
  have resolving := (aliasResolution_rebound config).of_eq resolvedRan
  have binding := bindCalls_rebound.of_eq boundRan
  have firstUnit : first.unit = state.unit := collectedNoted.unit.trans collectedUnit
  refine ⟨second.unit, ?_, ?_, fun name other => ?_⟩
  · rw [← firstUnit, resolvedNoted.unit]
    exact resolving
  · rw [boundNoted.unit]
    exact binding
  · have firstCount := (collectedNoted.statistic name).trans (collectedCount name)
    have secondCount := (resolvedNoted.statistic name).trans
      ((aliasResolution_statistic other config).of_eq resolvedRan)
    have thirdCount := (boundNoted.statistic name).trans (bindCalls_tallies boundRan name)
    exact thirdCount.trans (congrArg (· + _) (secondCount.trans firstCount))

/-- From the lowering of files on the counters are those of the files, and at last the totals. -/
theorem counts_of_lowering {lower verify count : Phase (ModuleBody σ)}
    (enabled : ∀ id, config.isEnabled id = true) (failFast : config.filePolicy = .failFast)
    (lowerRun : ∀ state, Executable.run lower.body config state =
      (ModuleBody.perFile filePhases).run config state)
    (verifyRun : ∀ state, Executable.run verify.body config state =
      (Body.check fun context => Module.verify context.symbols).run config state)
    (countRun : ∀ state, Executable.run count.body config state = collectStatistics state)
    (ran : [lower, verify, count].forM (Phase.run config label) state = (.ok (), last)) :
    last.unit.files = state.unit.files.map (File.lowered 0) ∧ ∀ name, last.context.statistic name =
      if name = "calls" then last.unit.kinds.countP (·.isCall)
      else if name = "aliases" then last.unit.kinds.countP (·.isSynonym)
      else if name = "functions" then last.unit.kinds.countP (·.isFunction)
      else if name = "nodes" then last.unit.kinds.length
      else if name = "files" then last.unit.files.length
      else state.context.statistic name + (state.unit.files.map (·.tally name)).sum := by
  obtain ⟨first, firstRan, ran⟩ := Run.forM_ok ran
  obtain ⟨second, secondRan, ran⟩ := Run.forM_ok ran
  obtain ⟨third, thirdRan, ran⟩ := Run.forM_ok ran
  cases ran
  obtain ⟨going, lowered, loweredRan, loweredNoted⟩ := Phase.body_of_run (enabled _) firstRan
  obtain ⟨-, verified, verifiedRan, verifiedNoted⟩ := Phase.body_of_run (enabled _) secondRan
  obtain ⟨-, counted, countedRan, countedNoted⟩ := Phase.body_of_run (enabled _) thirdRan
  rw [lowerRun] at loweredRan
  rw [verifyRun] at verifiedRan
  rw [countRun] at countedRan
  obtain rfl := Body.eq_of_check verifiedRan
  cases countedRan
  have begun : (lower.begin config label state).context.cancelled = false := going
  have files : first.unit.files = state.unit.files.map (File.lowered 0) := by
    rcases lowerFiles_run (fun phase _ => enabled phase.id) failFast begun with
      ⟨-, after, ended, unit, -⟩ | ⟨-, failure, after, failed⟩
    · cases ended.symm.trans loweredRan
      rw [loweredNoted.unit, unit]
      rfl
    · cases failed.symm.trans loweredRan
  have lastUnit : last.unit = second.unit := countedNoted.unit
  have secondUnit : second.unit = first.unit := verifiedNoted.unit
  refine ⟨by rw [lastUnit, secondUnit, files], fun name => ?_⟩
  have firstCount : first.context.statistic name =
      state.context.statistic name + (state.unit.files.map (·.tally name)).sum :=
    (loweredNoted.statistic name).trans
      (PhaseList.tallies_perFile (filePhases_tallies fun phase _ => enabled phase.id) loweredRan name)
  have secondCount : second.context.statistic name = first.context.statistic name :=
    verifiedNoted.statistic name
  rw [countedNoted.statistic, lastUnit, ← firstCount, ← secondCount]
  simp only [Context.statistic_setStatistic]
  rfl

end phases

/-- What is behind the counters of a run over `m` that succeeds: the module in which aliases are
resolved, the one in which calls are bound as well, and the one that is left. -/
structure Accounts (m resolved bound last : Module) (context : Context) : Prop where
  resolving : m.Rebound NodeKind.isSynonym resolved
  binding : resolved.Rebound NodeKind.isCall bound
  lowering : last.files = bound.files.map (File.lowered 0)
  symbols : context.statistic "symbols" = m.declarations.length
  callsBound : context.statistic "calls_bound" = resolved.kinds.countP (·.isOpen)
  blocksFlattened : context.statistic "blocks_flattened" = (bound.files.map (·.flatten.2)).sum
  parentsPatched : context.statistic "parents_patched" =
    (bound.files.map (·.flatten.1.patchLinks.2)).sum
  temporaries : context.statistic "temporaries" =
    (bound.files.map (·.repaired.exposedCalls.length)).sum
  nodes : context.statistic "nodes" = last.kinds.length
  functions : context.statistic "functions" = last.kinds.countP (·.isFunction)
  aliases : context.statistic "aliases" = last.kinds.countP (·.isSynonym)
  calls : context.statistic "calls" = last.kinds.countP (·.isCall)

theorem Pipeline.run_accounts {state last : State σ Module}
    (ran : Pipeline.standard.run state = (.ok (), last)) :
    ∃ resolved bound, Accounts state.unit resolved bound last.unit last.context := by
  obtain ⟨trace, run⟩ := Pipeline.standard.run_apply state
  rw [run] at ran
  rcases phases : Pipeline.standard.phases.run Pipeline.standard.config (begin state) with
    ⟨result, after⟩
  rw [phases] at ran
  cases ran
  rw [PhaseList.run_apply] at phases
  generalize WorkUnit.label (begin state).unit = label at phases
  obtain ⟨collect, resolve, bind, lower, verify, count, list, ⟨-, collectRun⟩, ⟨-, resolveRun⟩,
    ⟨-, bindRun⟩, ⟨-, lowerRun⟩, ⟨-, verifyRun⟩, countRun⟩ := @modulePhases_bodies σ {}
  have enabled : ∀ id : PhaseId, ({} : Config).isEnabled id = true := fun _ => rfl
  have all : (Pipeline.standard : Pipeline σ).phases.phases =
      [collect, resolve, bind] ++ [lower, verify, count] := list
  rw [all] at phases
  obtain ⟨middle, early, rest⟩ := Run.forM_append_ok phases
  obtain ⟨resolved, resolving, binding, counts⟩ :=
    counts_of_binding enabled collectRun resolveRun bindRun rfl early
  obtain ⟨lowering, totals⟩ := counts_of_lowering enabled rfl lowerRun verifyRun countRun rest
  refine ⟨resolved, middle.unit, ?_⟩
  have nothing : ∀ name, (∀ file : File, file.tally name = 0) →
      (middle.unit.files.map (·.tally name)).sum = 0 := fun name none => by simp [none]
  have before (name : String) (other : name ≠ "symbols" ∧ name ≠ "calls_bound" ∧
      name ≠ "resolve_aliases.iterations") : middle.context.statistic name = 0 := by
    rw [counts name other.2.2, if_neg other.1, if_neg other.2.1]
    rfl
  have late (name : String) (other : name ∉ ["calls", "aliases", "functions", "nodes", "files"]) :
      after.context.statistic name =
        middle.context.statistic name + (middle.unit.files.map (·.tally name)).sum := by
    simp only [List.mem_cons, List.not_mem_nil, or_false, not_or] at other
    simp [totals, other]
  exact {
    resolving, binding, lowering
    symbols := by
      rw [late "symbols" (by decide), nothing _ fun _ => rfl]
      exact counts "symbols" (by decide)
    callsBound := by
      rw [late "calls_bound" (by decide), nothing _ fun _ => rfl, counts "calls_bound" (by decide)]
      exact Nat.zero_add _
    blocksFlattened := by
      rw [late "blocks_flattened" (by decide), before _ (by decide), Nat.zero_add]
      rfl
    parentsPatched := by
      rw [late "parents_patched" (by decide), before _ (by decide), Nat.zero_add]
      rfl
    temporaries := by
      rw [late "temporaries" (by decide), before _ (by decide), Nat.zero_add]
      rfl
    nodes := totals "nodes"
    functions := totals "functions"
    aliases := totals "aliases"
    calls := totals "calls" }

end StagedLowering
