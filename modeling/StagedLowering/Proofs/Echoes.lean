import StagedLowering.Proofs.FileLowering
import StagedLowering.Proofs.Gains
import StagedLowering.Proofs.Policies

/-!
# Runs made again

A second run that starts from what a first one left keeps up with it phase by phase: it passes over
and runs the same phases, and if no body finds anything to change, it writes the same history and
counts no change (`Context.Echoes`). Over a module that goes file by file
(`PhaseList.perFile_repeats`).
-/

namespace StagedLowering

variable {σ υ : Type}

def changeCounters : List String :=
  ["calls_bound", "blocks_flattened", "parents_patched", "temporaries"]

/-- A second run has come as far as a first one and has counted no change. -/
structure Context.Echoes (first again : Context) : Prop where
  symbols : again.symbols = first.symbols
  history : again.history = first.history
  cancelled : again.cancelled = first.cancelled
  executed : again.scope.executed = first.scope.executed
  depth : again.scope.depth = first.scope.depth
  unchanging : ∀ name ∈ changeCounters, again.statistic name = 0

/-- Of a counter of changes a second run must go on saying 0. -/
theorem Context.Echoes.setStatistic {first again : Context} (echoes : first.Echoes again)
    (name : String) (value : Nat) {more : Nat} (none : name ∈ changeCounters → more = 0) :
    (first.setStatistic name value).Echoes (again.setStatistic name more) where
  symbols := echoes.symbols
  history := echoes.history
  cancelled := echoes.cancelled
  executed := echoes.executed
  depth := echoes.depth
  unchanging other counter := by
    unfold Context.setStatistic Context.statistic
    rw [NameMap.get?_insert]
    split
    · next same => exact none (same ▸ counter)
    · exact echoes.unchanging other counter

theorem Context.Echoes.bump {first again : Context} (echoes : first.Echoes again) (name : String)
    (count : Nat) {more : Nat} (none : name ∈ changeCounters → more = 0) :
    (first.bump name count).Echoes (again.bump name more) :=
  echoes.setStatistic name _ fun counter => by rw [echoes.unchanging name counter, none counter]

/-- From `again` the run succeeds and leaves the unit as it is, and its context echoes `first`. -/
def Run.Repeats {ε : Type} (act : Run σ υ ε Unit) (again : State σ υ) (first : Context) : Prop :=
  ∃ last, act again = (.ok (), last) ∧ last.unit = again.unit ∧ first.Echoes last.context

theorem Run.repeats_forM_cons {ε α : Type} {step : α → Run σ υ ε Unit} {a : α} {rest : List α}
    {again : State σ υ} {middle first : Context} (head : (step a).Repeats again middle)
    (later : ∀ next : State σ υ, next.unit = again.unit → middle.Echoes next.context →
      Run.Repeats (rest.forM step) next first) :
    Run.Repeats ((a :: rest).forM step) again first := by
  obtain ⟨next, ran, unit, echoes⟩ := head
  obtain ⟨last, restRan, restUnit, restEchoes⟩ := later next unit echoes
  exact ⟨last, (Run.forM_of_ok ran).trans restRan, restUnit.trans unit, restEchoes⟩

/-! ### Phases -/

namespace Phase

variable {β : Type} {config : Config} {label : String} {phase : Phase β} {s t last : State σ υ}

theorem echoes_skip (echoes : s.context.Echoes t.context) :
    (phase.skip label s).context.Echoes (phase.skip label t).context where
  symbols := echoes.symbols
  history := by
    show t.context.history ++ [phase.record label t.context.scope.depth .skipped] = _
    rw [echoes.history, echoes.depth]
    rfl
  cancelled := echoes.cancelled
  executed := echoes.executed
  depth := echoes.depth
  unchanging := echoes.unchanging

theorem echoes_begin [Executable β σ υ] (echoes : s.context.Echoes t.context) :
    (phase.begin config label s).context.Echoes (phase.begin config label t).context := echoes

variable [WorkUnit υ]

theorem echoes_finish (echoes : s.context.Echoes t.context) (depth : Nat) :
    (phase.finish config label depth s).context.Echoes
      (phase.finish config label depth t).context := by
  have history := congrArg (· ++ [phase.record label depth .completed]) echoes.history
  have executed := congrArg (· ++ [phase.id]) echoes.executed
  unfold finish
  cases config.shouldDump phase.id
  · exact ⟨echoes.symbols, history, echoes.cancelled, executed, echoes.depth, echoes.unchanging⟩
  · exact ⟨echoes.symbols, history, echoes.cancelled, executed, echoes.depth, echoes.unchanging⟩

variable [Executable β σ υ]

/-- A phase that succeeded was passed over, and then so it is again; or its body succeeded, and then
the phase succeeds again if the body does. -/
theorem repeats_cases (ran : phase.run config label s = (.ok (), last)) :
    (last.unit = s.unit ∧ ∀ t : State σ υ, s.context.Echoes t.context →
        (phase.run config label : Run σ υ PhaseError Unit).Repeats t last.context) ∨
      ∃ after, Executable.run phase.body config (phase.begin config label s) = (.ok (), after) ∧
        last.unit = after.unit ∧ ∀ t : State σ υ, s.context.Echoes t.context →
          (Executable.run phase.body config : Run σ υ Failure Unit).Repeats
            (phase.begin config label t) after.context →
          (phase.run config label : Run σ υ PhaseError Unit).Repeats t last.context := by
  have done {t : State σ υ} (echoes : s.context.Echoes t.context) :
      (!t.context.scope.isDone ·) = (!s.context.scope.isDone ·) := by
    funext id
    simp only [Scope.isDone, echoes.executed]
  unfold Run.Repeats
  rw [run_apply] at ran
  split at ran
  · cases ran
  · next going =>
    split at ran
    · next disabled =>
      cases ran
      refine .inl ⟨rfl, fun t echoes => ⟨phase.skip label t, ?_, rfl, echoes_skip echoes⟩⟩
      rw [run_apply, echoes.cancelled, if_neg going, if_pos disabled]
    · next enabled =>
      split at ran
      · cases ran
      · next ready =>
        obtain ⟨after, body, rfl⟩ := Phase.perform_ok ran
        refine .inr ⟨after, body, (noted_finish after).unit, fun t echoes again => ?_⟩
        obtain ⟨other, otherBody, unit, bodyEchoes⟩ := again
        refine ⟨phase.finish config label t.context.scope.depth other, ?_, ?_, ?_⟩
        · rw [run_apply, echoes.cancelled, if_neg going, if_neg enabled, done echoes, ready]
          dsimp only
          rw [Phase.execute_apply, otherBody]
        · exact (noted_finish other).unit.trans unit
        · rw [echoes.depth]
          exact echoes_finish bodyEchoes _

/-- A check leaves the unit alone, and what it accepted once it need only accept again. -/
theorem check_repeats {holds : Context → υ → Except Violation Unit}
    (body : (Executable.run phase.body config : Run σ υ Failure Unit) = (Body.check holds).run config)
    (ran : phase.run config label s = (.ok (), last)) :
    last.unit = s.unit ∧ ∀ t : State σ υ, s.context.Echoes t.context →
      (holds s.context s.unit = .ok () → holds t.context t.unit = .ok ()) →
        (phase.run config label : Run σ υ PhaseError Unit).Repeats t last.context := by
  rcases repeats_cases ran with ⟨same, again⟩ | ⟨after, did, made, again⟩
  · exact ⟨same, fun t echoes _ => again t echoes⟩
  · rw [body] at did
    have accepted := Body.holds_of_check did
    obtain rfl := Body.eq_of_check did
    refine ⟨made, fun t echoes accepts => again t echoes ?_⟩
    have passes := Body.check_apply holds config (phase.begin config label t)
    rw [show holds (phase.begin config label t).context (phase.begin config label t).unit = .ok ()
      from accepts accepted, ← body] at passes
    exact ⟨_, passes, rfl, echoes⟩

end Phase

theorem PhaseList.repeats_of_label {β : Type} [Executable β σ υ] [WorkUnit υ] {config : Config}
    {list : PhaseList β} {label : String} {again : State σ υ} {first : Context}
    (labelled : WorkUnit.label again.unit = label)
    (phases : Run.Repeats (list.phases.forM (Phase.run config label)) again first) :
    (list.run config).Repeats again first := by
  unfold Run.Repeats
  rw [PhaseList.run_apply, labelled]
  exact phases

/-! ### Every file -/

namespace PhaseList

variable {config : Config} {list : PhaseList (Body σ File)} {kept : File → Prop}
  (repeats : ∀ {s last t : State σ File}, kept s.unit → list.run config s = (.ok (), last) →
    t.unit = last.unit → s.context.Echoes t.context → (list.run config).Repeats t last.context)
  (lasting : (list.run config).Keeps Lasting)

include repeats lasting

theorem runFile_repeats {s last t : State σ File} (before : kept s.unit)
    (ran : list.runFile config s = (.ok (), last)) (unit : t.unit = last.unit)
    (echoes : s.context.Echoes t.context) : (list.runFile config).Repeats t last.context := by
  have entered : (enter s).context.Echoes (enter t).context :=
    ⟨echoes.symbols, echoes.history, echoes.cancelled, rfl, congrArg (· + 1) echoes.depth,
      echoes.unchanging⟩
  have left (state : State σ File) {after : State σ File}
      (kept : Lasting (enter state) after) :
      (leave after).context =
        { after.context with scope := state.context.scope, enclosing := state.context.enclosing } := by
    show after.context.exitScope = _
    unfold Context.exitScope
    rw [kept.enclosing]
    rfl
  rw [runFile_apply] at ran
  split at ran
  · next after inner =>
    cases ran
    obtain ⟨other, otherRan, otherUnit, bodyEchoes⟩ :=
      @repeats (enter s) after (enter t) before inner unit entered
    refine ⟨leave other, ?_, otherUnit, ?_⟩
    · rw [runFile_apply, otherRan]
    · rw [left s (lasting.of_eq inner), left t (lasting.of_eq otherRan)]
      exact ⟨bodyEchoes.symbols, bodyEchoes.history, bodyEchoes.cancelled, echoes.executed,
        echoes.depth, bodyEchoes.unchanging⟩
  · cases ran
  · cases ran

theorem onFile_repeats {i : Nat} {s last t : State σ Module}
    (before : ∀ file, s.unit.files[i]? = some file → kept file)
    (ran : Run.onFile i (list.runFile config) s = (.ok (), last))
    (same : t.unit.files[i]? = last.unit.files[i]?) (echoes : s.context.Echoes t.context) :
    (Run.onFile i (list.runFile config)).Repeats t last.context := by
  unfold Run.onFile at ran
  split at ran
  · cases ran
  · next file found =>
    rcases inner : list.runFile config { s with unit := file } with ⟨result, after⟩
    rw [inner] at ran
    cases ran
    have inRange := (List.getElem?_eq_some_iff.mp found).1
    have there : t.unit.files[i]? = some after.unit := by
      rw [same]
      exact List.getElem?_set_self inRange
    obtain ⟨other, otherRan, otherUnit, bodyEchoes⟩ :=
      runFile_repeats repeats lasting (t := { t with unit := after.unit }) (before file found) inner
        rfl echoes
    refine ⟨{ other with unit := t.unit.setFile i other.unit }, ?_, ?_, bodyEchoes⟩
    · unfold Run.onFile
      rw [there]
      dsimp only
      rw [otherRan]
    · show t.unit.setFile i other.unit = t.unit
      rw [otherUnit]
      obtain ⟨within, here⟩ := List.getElem?_eq_some_iff.mp there
      unfold Module.setFile
      rw [← here, List.set_getElem_self]

omit repeats lasting in
theorem runFiles_ok {i : Nat} {rest : List Nat} {s last : State σ Module}
    (ran : list.runFiles config (i :: rest) s = (.ok [], last)) :
    ∃ middle, Run.onFile i (list.runFile config) s = (.ok (), middle) ∧
      list.runFiles config rest middle = (.ok [], last) := by
  rw [runFiles_cons] at ran
  split at ran
  · next middle first => exact ⟨middle, first, ran⟩
  · dsimp only at ran
    split at ran
    · cases ran
    · split at ran
      · cases ran
      · cases ran
  · cases ran

theorem runFiles_repeats {numbers : List Nat} (nodup : numbers.Nodup) {s last t : State σ Module}
    (before : ∀ i ∈ numbers, ∀ file, s.unit.files[i]? = some file → kept file)
    (ran : list.runFiles config numbers s = (.ok [], last)) (unit : t.unit = last.unit)
    (echoes : s.context.Echoes t.context) :
    ∃ again, list.runFiles config numbers t = (.ok [], again) ∧ again.unit = t.unit ∧
      last.context.Echoes again.context := by
  induction numbers generalizing s t with
  | nil =>
    cases ran
    exact ⟨t, rfl, rfl, echoes⟩
  | cons i rest ih =>
    obtain ⟨notAgain, restNodup⟩ := List.nodup_cons.mp nodup
    obtain ⟨middle, first, restRan⟩ := runFiles_ok ran
    have firstKept : FilesBut [i] s middle :=
      (filesBut_onFile (List.mem_singleton_self i)).of_eq first
    have restKept : FilesBut rest middle last := (filesBut_runFiles rest).of_eq restRan
    obtain ⟨next, nextRan, nextUnit, nextEchoes⟩ :=
      onFile_repeats repeats lasting (before i List.mem_cons_self) first
        (by rw [unit, restKept.2 i notAgain]) echoes
    have later : ∀ j ∈ rest, ∀ file, middle.unit.files[j]? = some file → kept file := by
      intro j member file found
      have other : j ∉ [i] := fun same => notAgain (List.mem_singleton.mp same ▸ member)
      rw [firstKept.2 j other] at found
      exact before j (List.mem_cons_of_mem _ member) file found
    obtain ⟨again, againRan, againUnit, againEchoes⟩ :=
      ih restNodup later restRan (nextUnit.trans unit) nextEchoes
    refine ⟨again, ?_, againUnit.trans nextUnit, againEchoes⟩
    rw [runFiles_cons_of_ok nextRan, againRan]

/-- Files that were lowered are lowered again, each in its turn. -/
theorem perFile_repeats {s last t : State σ Module} (before : ∀ file ∈ s.unit.files, kept file)
    (ran : (ModuleBody.perFile list).run config s = (.ok (), last)) (unit : t.unit = last.unit)
    (echoes : s.context.Echoes t.context) :
    ((ModuleBody.perFile list).run config).Repeats t last.context := by
  rw [perFile_apply] at ran
  split at ran
  · next after files =>
    cases ran
    have count : t.unit.files.length = s.unit.files.length := by
      rw [unit]
      exact ((filesBut_runFiles _).of_eq files).1
    obtain ⟨again, againRan, againUnit, againEchoes⟩ :=
      runFiles_repeats repeats lasting List.nodup_range
        (fun i _ file found => before file (List.mem_of_getElem? found)) files unit echoes
    refine ⟨again, ?_, againUnit, againEchoes⟩
    rw [perFile_apply, count, againRan]
  · cases ran
  · cases ran

end PhaseList
end StagedLowering
