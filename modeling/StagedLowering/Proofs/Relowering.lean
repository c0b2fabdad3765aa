import Mathlib
import StagedLowering.Proofs.AtRest
import StagedLowering.Proofs.ModuleLowering
import StagedLowering.Proofs.Remains
import StagedLowering.Proofs.Retracing

/-!
# Lowering is idempotent

A second run over what a first one left goes through the same phases and finds nothing to change:
the same symbols are declared and resolved, every call is bound, and the files are at rest
(`Pipeline.run_again`).
-/

namespace StagedLowering

variable {σ : Type} {config : Config} {s after t : State σ Module}

/-! ### Each phase over a module -/

theorem collectDeclarations_repeats (ran : collectDeclarations s = (.ok (), after))
    (same : t.unit.declarations = s.unit.declarations) (echoes : s.context.Echoes t.context) :
    collectDeclarations.Repeats t after.context := by
  unfold Run.Repeats
  rw [collectDeclarations_apply] at ran
  rw [collectDeclarations_apply, same, echoes.symbols]
  generalize s.context.symbols.declareAll s.unit.declarations = declared at ran ⊢
  rcases declared with ⟨symbols, _ | ⟨symbol, earlier⟩⟩
  · cases ran
    have declared : ({ s.context with symbols } : Context).Echoes { t.context with symbols } :=
      ⟨rfl, echoes.history, echoes.cancelled, echoes.executed, echoes.depth, echoes.unchanging⟩
    exact ⟨_, rfl, rfl, declared.setStatistic _ _ fun counter => absurd counter (by decide)⟩
  · dsimp only at ran
    split at ran
    · cases ran
    · cases ran

theorem bindCalls_repeats (ran : bindCalls s = (.ok (), after))
    (bound : ∀ file ∈ t.unit.files, file.AllBound) (echoes : s.context.Echoes t.context) :
    bindCalls.Repeats t after.context := by
  unfold Run.Repeats
  rw [bindCalls_apply] at ran
  rw [bindCalls_apply, bindFiles_of_bound bound]
  generalize bindFiles s.context.symbols s.unit.files = made at ran
  rcases made with ⟨files, failure | count⟩
  · cases ran
  · cases ran
    exact ⟨_, rfl, rfl, echoes.bump _ count fun _ => rfl⟩

theorem collectStatistics_repeats (ran : collectStatistics s = (.ok (), after))
    (echoes : s.context.Echoes t.context) : collectStatistics.Repeats t after.context := by
  cases ran
  refine ⟨_, rfl, rfl, ?_⟩
  iterate 5 refine Context.Echoes.setStatistic ?_ _ _ fun counter => absurd counter (by decide)
  exact echoes

namespace Phase

variable {phase : Phase (ModuleBody σ)} {label : String} {last : State σ Module}

theorem collect_repeats (body : Executable.run phase.body config = collectDeclarations)
    (ran : phase.run config label s = (.ok (), last)) :
    last.unit = s.unit ∧ ∀ t : State σ Module, s.context.Echoes t.context →
      t.unit.declarations = s.unit.declarations →
        (phase.run config label).Repeats t last.context := by
  rcases repeats_cases ran with ⟨same, again⟩ | ⟨after, did, made, again⟩
  · exact ⟨same, fun t echoes _ => again t echoes⟩
  · rw [body] at did again
    have kept := collectDeclarations_unit (phase.begin config label s)
    rw [did] at kept
    exact ⟨made.trans kept, fun t echoes same =>
      again t echoes (collectDeclarations_repeats did same (echoes_begin echoes))⟩

theorem resolve_repeats (body : Executable.run phase.body config = aliasResolution.run config)
    (ran : phase.run config label s = (.ok (), last)) :
    s.unit.Rebound NodeKind.isSynonym last.unit ∧
      ∀ t : State σ Module, s.context.Echoes t.context →
        (∀ spot kind, s.unit.kindAt? spot = some kind →
          (t.unit.kindAt? spot).map NodeKind.unbound = some kind.unbound) →
        (∀ spot name target old, last.unit.kindAt? spot = some (.synonym name target old) →
          t.unit.kindAt? spot = last.unit.kindAt? spot) →
        (phase.run config label).Repeats t last.context := by
  refine ⟨((Module.carried_rebound _).runPhase (body ▸ aliasResolution_rebound config)).of_eq ran,
    fun t echoes placed kept => ?_⟩
  rcases repeats_cases ran with ⟨-, again⟩ | ⟨after, did, made, again⟩
  · exact again t echoes
  · rw [body] at did again
    rw [made] at kept
    exact again t echoes (aliasResolution_repeats did placed kept (echoes_begin echoes))

theorem bind_repeats (body : Executable.run phase.body config = bindCalls)
    (ran : phase.run config label s = (.ok (), last)) :
    s.unit.Rebound NodeKind.isCall last.unit ∧
      ∀ t : State σ Module, s.context.Echoes t.context →
        ((∀ file ∈ last.unit.files, file.AllBound) → ∀ file ∈ t.unit.files, file.AllBound) →
          (phase.run config label).Repeats t last.context := by
  refine ⟨((Module.carried_rebound _).runPhase (body ▸ bindCalls_rebound)).of_eq ran,
    fun t echoes stay => ?_⟩
  rcases repeats_cases ran with ⟨-, again⟩ | ⟨after, did, made, again⟩
  · exact again t echoes
  · rw [body] at did again
    rw [made] at stay
    exact again t echoes (bindCalls_repeats did (stay (allBound_of_bindCalls did)) (echoes_begin echoes))

theorem lower_repeats
    (body : Executable.run phase.body config = (ModuleBody.perFile filePhases).run config)
    (trees : ∀ file ∈ s.unit.files, file.PlainTree)
    (ran : phase.run config label s = (.ok (), last)) :
    s.unit.Preserves last.unit ∧ (∀ may, s.unit.Fixes may last.unit) ∧
      ∀ t : State σ Module, s.context.Echoes t.context → t.unit = last.unit →
        (phase.run config label).Repeats t last.context := by
  refine ⟨?_, fun may => ?_, fun t echoes unit => ?_⟩
  · refine (Module.carried_preserves.runPhase ?_).of_eq ran
    exact body ▸ File.carried_preserves.perFile (filePhases_preserve config)
  · refine ((Module.carried_fixes may).runPhase ?_).of_eq ran
    exact body ▸ (File.carried_fixes may).perFile (File.filePhases_fix config)
  · rcases repeats_cases ran with ⟨-, again⟩ | ⟨after, did, made, again⟩
    · exact again t echoes
    · rw [body] at did again
      refine again t echoes (PhaseList.perFile_repeats filePhases_repeats (filePhases_lasting config)
        ?_ did (unit.trans made) (echoes_begin echoes))
      exact trees

theorem count_repeats (body : Executable.run phase.body config = collectStatistics)
    (ran : phase.run config label s = (.ok (), last)) :
    last.unit = s.unit ∧ ∀ t : State σ Module, s.context.Echoes t.context →
      (phase.run config label).Repeats t last.context := by
  rcases repeats_cases ran with ⟨same, again⟩ | ⟨after, did, made, again⟩
  · exact ⟨same, again⟩
  · rw [body] at did again
    refine ⟨?_, fun t echoes => again t echoes (collectStatistics_repeats did (echoes_begin echoes))⟩
    cases did
    exact made

end Phase

/-! ### The phases together -/

/-- A module that the module phases have lowered has nothing left for them to do. -/
theorem modulePhases_repeats {last : State σ Module} (trees : ∀ file ∈ s.unit.files, file.PlainTree)
    (ran : modulePhases.run config s = (.ok (), last)) (unit : t.unit = last.unit)
    (echoes : s.context.Echoes t.context) : (modulePhases.run config).Repeats t last.context := by
  have preserves : s.unit.Preserves last.unit :=
    (Module.carried_preserves.frame.runList (modulePhases_preserve config)).of_eq ran
  have label : WorkUnit.label t.unit = WorkUnit.label s.unit := by
    show s!"module `{t.unit.name}`" = s!"module `{s.unit.name}`"
    rw [unit, preserves.1]
  refine PhaseList.repeats_of_label label ?_
  rw [PhaseList.run_apply] at ran
  generalize WorkUnit.label s.unit = label at ran ⊢
  obtain ⟨collect, resolve, bind, lower, verify, count, phases, ⟨-, collectRun⟩, ⟨-, resolveRun⟩,
    ⟨-, bindRun⟩, ⟨-, lowerRun⟩, ⟨-, verifyRun⟩, countRun⟩ := @modulePhases_bodies σ config
  rw [phases] at ran ⊢
  rw [← funext_iff] at collectRun resolveRun bindRun lowerRun verifyRun countRun
  obtain ⟨declared, declareRan, ran⟩ := Run.forM_ok ran
  obtain ⟨resolved, resolveRan, ran⟩ := Run.forM_ok ran
  obtain ⟨bound, bindRan, ran⟩ := Run.forM_ok ran
  obtain ⟨lowered, lowerRan, ran⟩ := Run.forM_ok ran
  obtain ⟨verified, verifyRan, ran⟩ := Run.forM_ok ran
  obtain ⟨counted, countRan, ran⟩ := Run.forM_ok ran
  cases ran
  obtain ⟨sameDeclared, declareAgain⟩ := Phase.collect_repeats collectRun declareRan
  obtain ⟨aliases, resolveAgain⟩ := Phase.resolve_repeats resolveRun resolveRan
  obtain ⟨calls, bindAgain⟩ := Phase.bind_repeats bindRun bindRan
  have boundTrees : ∀ file ∈ bound.unit.files, file.PlainTree :=
    Module.Preserves.plainTrees (sameDeclared.symm ▸ trees)
      (Module.carried_preserves.trans aliases.preserves calls.preserves)
  obtain ⟨boundPreserves, boundFixes, lowerAgain⟩ := Phase.lower_repeats lowerRun boundTrees lowerRan
  obtain ⟨sameVerified, verifyAgain⟩ := Phase.check_repeats verifyRun verifyRan
  obtain ⟨sameCounted, countAgain⟩ := Phase.count_repeats countRun countRan
  rw [sameCounted, sameVerified] at preserves unit
  -- Aliases keep what they were resolved to, since only calls are bound after that.
  have aliasesKept : resolved.unit.Fixes NodeKind.isCall lowered.unit :=
    (Module.carried_fixes _).trans calls.fixes (boundFixes _)
  refine Run.repeats_forM_cons (declareAgain t echoes ?_) fun t sameUnit echoes => ?_
  · rw [unit, preserves.declarations_eq trees]
  have unit := sameUnit.trans unit
  refine Run.repeats_forM_cons (resolveAgain t echoes (fun spot kind found => ?_)
    fun spot name target old found => ?_) fun t sameUnit echoes => ?_
  · rw [unit]
    exact preserves.unbound trees (sameDeclared ▸ found)
  · rw [unit, found]
    exact aliasesKept.kindAt? found rfl
  have unit := sameUnit.trans unit
  refine Run.repeats_forM_cons (bindAgain t echoes fun allBound => ?_) fun t sameUnit echoes => ?_
  · rw [unit]
    exact boundPreserves.allBound boundTrees (boundFixes _) allBound
  have unit := sameUnit.trans unit
  refine Run.repeats_forM_cons (lowerAgain t echoes unit) fun t sameUnit echoes => ?_
  have unit := sameUnit.trans unit
  refine Run.repeats_forM_cons (verifyAgain t echoes fun accepted => ?_) fun t _ echoes => ?_
  · rw [echoes.symbols, unit]
    exact accepted
  exact Run.repeats_forM_cons (countAgain t echoes) fun t _ echoes => ⟨t, rfl, rfl, echoes⟩

/-- If a run succeeds, another run over what it left succeeds as well, changes nothing, counts no
change, and ends with the same symbols and the same history. -/
theorem Pipeline.run_again {pipeline : Pipeline σ}
    (accepted : Pipeline.of config modulePhases = .ok pipeline) {first again : State σ Module}
    (shaped : ∀ file ∈ first.unit.files, file.TreeShaped)
    (rooted : ∀ file ∈ first.unit.files, file.kind? File.root = some .root)
    (succeeds : (pipeline.run first).1 = .ok ()) (left : again.unit = (pipeline.run first).2.unit) :
    (pipeline.run again).1 = .ok () ∧
      (pipeline.run again).2.unit = again.unit ∧
      (pipeline.run again).2.context.symbols = (pipeline.run first).2.context.symbols ∧
      (pipeline.run again).2.context.history = (pipeline.run first).2.context.history ∧
      ∀ name ∈ ["calls_bound", "blocks_flattened", "parents_patched", "temporaries"],
        (pipeline.run again).2.context.statistic name = 0 := by
  obtain ⟨rfl, phases⟩ := Pipeline.of_ok accepted
  obtain ⟨trace, run⟩ := pipeline.run_apply first
  obtain ⟨traceAgain, runAgain⟩ := pipeline.run_apply again
  rw [phases] at run runAgain
  rcases ran : modulePhases.run pipeline.config (begin first) with ⟨result, last⟩
  rw [ran] at run
  rw [run] at succeeds left ⊢
  cases succeeds
  have plainTrees : ∀ file ∈ (begin first).unit.files, file.PlainTree :=
    fun file member => ⟨shaped file member, rooted file member⟩
  have unit : (begin again).unit = last.unit := left
  have fresh : (begin first).context.Echoes (begin again).context :=
    ⟨rfl, rfl, rfl, rfl, rfl, fun _ _ => rfl⟩
  obtain ⟨final, ranAgain, unitAgain, echoes⟩ := modulePhases_repeats plainTrees ran unit fresh
  rw [ranAgain] at runAgain
  rw [runAgain]
  exact ⟨rfl, unitAgain, echoes.symbols, echoes.history, echoes.unchanging⟩

def File.untidy : File where
  path := "main"
  nodes := #[
    { kind := .root, children := [1, 2] },
    { kind := .synonym "entry" "main" (some 7), parent := some 2 },
    { kind := .function "main", children := [3] },
    { kind := .block, parent := some 2, children := [4] },
    { kind := .block, children := [5] },
    { kind := .call "entry" none, parent := some 9 },
    { kind := .literal 1, parent := some 4, children := [2] }]

def State.untidy : State Unit Module := ⟨(), {}, {}, ⟨"program", [File.untidy]⟩⟩

theorem File.treeShaped_untidy : untidy.TreeShaped := by
  have tree : untidy.IsTree
      (.cons 1 .nil (.cons 2 (.cons 3 (.cons 4 (.cons 5 .nil .nil) .nil) .nil) .nil)) := by
    refine ⟨?_, by decide, by decide⟩
    simp [Spells, Forest.roots, untidy, children, node?, root]
  exact tree.treeShaped

theorem Pipeline.run_again_untidy :
    let lowered := (Pipeline.standard.run State.untidy).2.unit
    let again := Pipeline.standard.run { State.untidy with unit := lowered }
    Pipeline.of {} modulePhases = .ok (Pipeline.standard : Pipeline Unit) ∧
      (∀ file ∈ State.untidy.unit.files, file.TreeShaped ∧ file.kind? File.root = some .root) ∧
      (Pipeline.standard.run State.untidy).1 = .ok () ∧
      again.1 = .ok () ∧ again.2.unit = lowered ∧
      again.2.context.symbols = (Pipeline.standard.run State.untidy).2.context.symbols ∧
      again.2.context.history = (Pipeline.standard.run State.untidy).2.context.history ∧
      ∀ name ∈ ["calls_bound", "blocks_flattened", "parents_patched", "temporaries"],
        again.2.context.statistic name = 0 := by
  intro lowered again
  have accepted : Pipeline.of {} modulePhases = .ok (Pipeline.standard : Pipeline Unit) := rfl
  have shaped : ∀ file ∈ State.untidy.unit.files, file.TreeShaped := by
    intro file member
    rw [List.mem_singleton.mp member]
    exact File.treeShaped_untidy
  have rooted : ∀ file ∈ State.untidy.unit.files, file.kind? File.root = some .root := by
    intro file member
    rw [List.mem_singleton.mp member]
    rfl
  have succeeds : (Pipeline.standard.run State.untidy).1 = .ok () := by cbv
  exact ⟨accepted, fun file member => ⟨shaped file member, rooted file member⟩, succeeds,
    Pipeline.run_again accepted shaped rooted succeeds rfl⟩

end StagedLowering
