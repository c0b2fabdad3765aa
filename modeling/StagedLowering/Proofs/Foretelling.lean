import StagedLowering.Proofs.Interruption
import StagedLowering.Proofs.Levels

/-!
# What a rejected configuration foretells

The check of a configuration names the first phase that would lack a prerequisite because it is
disabled. If the list is run all the same and nothing else goes wrong on the way, the run stops at
that phase for want of that prerequisite, at whichever level it is. The two checks agree
(`PhaseList.checkConfig_foretells_run`).
-/

namespace StagedLowering

variable {σ υ : Type} {config : Config} {label : String}

/-! ### Verdicts -/

mutual

/-- Of phases and names that are known, nothing is refused but a disabled prerequisite. -/
theorem Outline.checkDisabled_error {error : OrderError} :
    ∀ outline : Outline, outline.checkDisabled config = .error error →
      ∃ phase prerequisite, error = .disabled phase prerequisite
  | ⟨id, _, _, _, prerequisites, children⟩, failed => by
    rw [Outline.checkDisabled] at failed
    split at failed
    · split at failed
      · next prerequisite missing =>
        cases failed
        exact ⟨id, prerequisite, rfl⟩
      · exact Outline.checkAllDisabled_error children failed
    · cases failed

theorem Outline.checkAllDisabled_error {error : OrderError} :
    ∀ outlines : List Outline, Outline.checkAllDisabled config outlines = .error error →
      ∃ phase prerequisite, error = .disabled phase prerequisite
  | [], failed => by cases failed
  | outline :: rest, failed => by
    rw [Outline.checkAllDisabled_cons] at failed
    split at failed
    · next first =>
      cases failed
      exact Outline.checkDisabled_error outline first
    · exact Outline.checkAllDisabled_error rest failed

end

theorem PhaseList.checkConfig_cases {β : Type} [Executable β σ υ] [WorkUnit υ] {list : PhaseList β}
    (known : ∀ id ∈ config.disabled ++ config.dumpAfter,
      id ∈ (Outline.walkAll list.outlines).map (·.id)) :
    list.checkConfig config = .ok () ∨
      ∃ phase prerequisite, list.checkConfig config = .error (.disabled phase prerequisite) := by
  have none : (config.disabled ++ config.dumpAfter).find?
      (· ∉ (Outline.walkAll list.outlines).map (·.id)) = none :=
    List.find?_eq_none.mpr fun id member => by simpa using known id member
  unfold PhaseList.checkConfig Outline.checkConfig
  dsimp only
  rw [none]
  cases verdict : Outline.checkAllDisabled config list.outlines with
  | ok => exact .inl rfl
  | error error =>
    obtain ⟨phase, prerequisite, rfl⟩ := Outline.checkAllDisabled_error _ verdict
    exact .inr ⟨phase, prerequisite, rfl⟩

theorem PhaseList.checkConfig_disabled {β : Type} [Executable β σ υ] [WorkUnit υ]
    {list : PhaseList β} {phase prerequisite : PhaseId}
    (rejected : list.checkConfig config = .error (.disabled phase prerequisite)) :
    Outline.checkAllDisabled config list.outlines = .error (.disabled phase prerequisite) := by
  unfold PhaseList.checkConfig Outline.checkConfig at rejected
  dsimp only at rejected
  split at rejected
  · cases rejected
  · exact rejected

/-! ### Runs in which nothing else goes wrong -/

def Run.Proceeds {ε : Type} (act : Run σ υ ε Unit) (state : State σ υ) : Prop :=
  ∃ after, act state = (.ok (), after) ∧ after.context.cancelled = false

/-- Each body that is called in the run of the list from this state proceeds. -/
def PhaseList.FileProceeds (config : Config) (list : PhaseList (Body σ File)) (start : State σ File) :
    Prop :=
  ∀ phase rest before, Reaches config start.unit.label list.phases start phase rest before →
    (phase.body.run config).Proceeds before

/-- Each plain body that is called in the run of the list from this state proceeds, in the module and
in its files, and a phase over the files finds one. -/
def PhaseList.ModuleProceeds (config : Config) (list : PhaseList (ModuleBody σ))
    (state : State σ Module) : Prop :=
  ∀ phase rest before, Reaches config state.unit.label list.phases state phase rest before →
    match phase.body with
    | .plain body => (body.run config).Proceeds before
    | .perFile nested => before.unit.files ≠ [] ∧
      ∀ start ∈ nested.starts config (List.range before.unit.files.length) before,
        nested.FileProceeds config start

/-- Where the error began a phase was refused for want of a prerequisite. -/
def PhaseError.Blames (phase prerequisite : PhaseId) (error : PhaseError) : Prop :=
  error.innermost.phase = phase ∧ error.innermost.failure = .prerequisiteNotRun prerequisite

def Failure.Blames (phase prerequisite : PhaseId) (failure : Failure) : Prop :=
  ∃ (path : String) (error : PhaseError),
    failure = .inFile path error ∧ error.Blames phase prerequisite

/-- A verdict on the configuration foretells a run from this state: accepted, it proceeds; rejected
for want of a prerequisite, it fails and blames the same. -/
def Run.Foretold {ε : Type} (blames : PhaseId → PhaseId → ε → Prop)
    (verdict : Except OrderError Unit) (act : Run σ υ ε Unit) (state : State σ υ) : Prop :=
  (verdict = .ok () → act.Proceeds state) ∧
    ∀ phase prerequisite, verdict = .error (.disabled phase prerequisite) →
      ∃ error after, act state = (.error (.error error), after) ∧ blames phase prerequisite error

theorem Run.Proceeds.foretold {act : Run σ υ Failure Unit} {state : State σ υ}
    (proceeds : act.Proceeds state) : act.Foretold Failure.Blames (.ok ()) state :=
  ⟨fun _ => proceeds, nofun⟩

section phases

variable {β : Type} [Executable β σ υ] [WorkUnit υ] {earlier : List PhaseId} {state : State σ υ}

theorem Phase.foretold_run {phase : Phase β} {rest : List (Phase β)}
    (required : phase.prerequisites ⊆ earlier)
    (done : state.context.scope.executed = earlier.filter config.isEnabled)
    (going : state.context.cancelled = false)
    (body : ∀ before, Reaches config label (phase :: rest) state phase rest before →
      Run.Foretold Failure.Blames (Outline.checkAllDisabled config (Executable.children phase.body))
        (Executable.run phase.body config) before) :
    Run.Foretold PhaseError.Blames ((phase.outline (υ := υ)).checkDisabled config)
      (phase.run config label) state := by
  have missing := Phase.find?_missing required done
  unfold Run.Foretold Run.Proceeds
  rw [Phase.checkDisabled_outline, Phase.run_eq_attend required done]
  unfold Phase.attend
  rw [going]
  cases enabled : config.isEnabled phase.id with
  | false => exact ⟨fun _ => ⟨_, rfl, (Phase.noted_skip state).cancelled.trans going⟩, nofun⟩
  | true =>
    cases lacking : phase.prerequisites.find? (!config.isEnabled ·) with
    | some prerequisite =>
      refine ⟨nofun, fun refused without same => ?_⟩
      cases same
      refine ⟨_, _, rfl, ?_⟩
      simp [PhaseError.Blames, PhaseError.innermost, Phase.error]
    | none =>
      obtain ⟨accepted, rejected⟩ :=
        body _ (.intro (List.nil_append _).symm rfl going enabled (missing.trans lacking))
      refine ⟨fun verdict => ?_, fun refused without verdict => ?_⟩
      · obtain ⟨after, ran, stillGoing⟩ := accepted verdict
        obtain ⟨last, ended, noted⟩ := Phase.perform_of_ok ran
        exact ⟨last, ended, noted.cancelled.trans stillGoing⟩
      · obtain ⟨failure, after, ran, path, error, rfl, blamed⟩ := rejected refused without verdict
        obtain ⟨last, ended⟩ := Phase.perform_of_error ran
        refine ⟨_, last, ended, ?_⟩
        simpa only [PhaseError.Blames, PhaseError.innermost, Phase.error] using blamed

/-- The phases are foretold one by one up to the first that is refused. -/
theorem forM_foretold {phases : List (Phase β)} {all : List PhaseId}
    (ordered : checkOrderFrom all earlier (phases.map Phase.requirement) = .ok ())
    (marks : ∀ phase ∈ phases,
      (Executable.run phase.body config : Run σ υ Failure Unit).MarksNothing)
    (done : state.context.scope.executed = earlier.filter config.isEnabled)
    (going : state.context.cancelled = false)
    (bodies : ∀ phase rest before, Reaches config label phases state phase rest before →
      Run.Foretold Failure.Blames (Outline.checkAllDisabled config (Executable.children phase.body))
        (Executable.run phase.body config) before) :
    Run.Foretold PhaseError.Blames
      (Outline.checkAllDisabled config (phases.map (Phase.outline (υ := υ))))
      (phases.forM (Phase.run config label) : Run σ υ PhaseError Unit) state := by
  induction phases generalizing earlier state with
  | nil => exact ⟨fun _ => ⟨state, rfl, going⟩, nofun⟩
  | cons phase rest ih =>
    obtain ⟨-, required, ordered⟩ := checkOrderFrom_cons ordered
    obtain ⟨accepted, rejected⟩ :=
      Phase.foretold_run required done going fun before => bodies phase rest before
    rw [List.map_cons, Outline.checkAllDisabled_cons]
    cases verdict : (phase.outline (υ := υ)).checkDisabled config with
    | error error =>
      refine ⟨nofun, fun refused without same => ?_⟩
      obtain ⟨stop, last, ran, blamed⟩ := rejected refused without (verdict.trans same)
      exact ⟨stop, last, Run.forM_of_error ran, blamed⟩
    | ok =>
      obtain ⟨middle, ran, stillGoing⟩ := accepted verdict
      have attended := (Phase.run_eq_attend required done).symm.trans ran
      have later := ih ordered (fun other member => marks other (List.mem_cons_of_mem _ member))
        (Phase.executed_attend (marks phase List.mem_cons_self) done attended) stillGoing
        fun other more before reaches => bodies other more before (reaches.cons ran)
      unfold Run.Foretold Run.Proceeds
      rw [Run.forM_of_ok ran]
      exact later

theorem PhaseList.foretold_run {list : PhaseList β}
    (marks : ∀ phase ∈ list.phases,
      (Executable.run phase.body config : Run σ υ Failure Unit).MarksNothing)
    (fresh : state.context.scope.executed = []) (going : state.context.cancelled = false)
    (bodies : ∀ phase rest before,
      Reaches config (WorkUnit.label state.unit) list.phases state phase rest before →
      Run.Foretold Failure.Blames (Outline.checkAllDisabled config (Executable.children phase.body))
        (Executable.run phase.body config) before) :
    Run.Foretold PhaseError.Blames (Outline.checkAllDisabled config list.outlines)
      (list.run config) state := by
  have ordered : checkOrderFrom list.ids [] (list.phases.map Phase.requirement) = .ok () := by
    have ordered := list.ordered
    unfold checkPhases checkOrder at ordered
    rwa [List.map_map] at ordered
  unfold Run.Foretold Run.Proceeds
  rw [run_apply]
  exact forM_foretold ordered marks fresh going bodies

end phases

namespace PhaseList

/-! ### Over the files -/

section files

variable {list : PhaseList (Body σ File)}
  (orderly : ∀ phase ∈ list.phases, (phase.body.run config).Orderly)

include orderly

theorem foretold_onFile {i : Nat} {file : File} {state : State σ Module}
    (found : state.unit.files[i]? = some file) (going : state.context.cancelled = false)
    (proceeds : list.FileProceeds config (enter { state with unit := file })) :
    Run.Foretold PhaseError.Blames (Outline.checkAllDisabled config list.outlines)
      (Run.onFile i (list.runFile config)) state := by
  have fresh : (enter { state with unit := file }).context.scope.executed = [] := rfl
  obtain ⟨accepted, rejected⟩ := foretold_run
    (fun phase member => (orderly phase member).marksNothing) fresh going
    fun phase rest before reaches => (proceeds phase rest before reaches).foretold
  refine ⟨fun verdict => ?_, fun phase prerequisite verdict => ?_⟩
  · obtain ⟨after, ran, stillGoing⟩ := accepted verdict
    exact ⟨_, onFile_of_run found ran nofun,
      (Context.cancelled_exitScope after.context).trans stillGoing⟩
  · obtain ⟨error, after, ran, blamed⟩ := rejected phase prerequisite verdict
    exact ⟨error, _, onFile_of_run found ran nofun, blamed⟩

/-- No file fails under an accepted configuration. -/
theorem runFiles_of_accepted (accepted : Outline.checkAllDisabled config list.outlines = .ok ())
    {numbers : List Nat} {state : State σ Module}
    (within : ∀ i ∈ numbers, i < state.unit.files.length) (going : state.context.cancelled = false)
    (proceed : ∀ start ∈ list.starts config numbers state, list.FileProceeds config start) :
    ∃ after, list.runFiles config numbers state = (.ok [], after) ∧
      after.context.cancelled = false := by
  induction numbers generalizing state with
  | nil => exact ⟨state, rfl, going⟩
  | cons i rest ih =>
    have found := List.getElem?_eq_getElem (within i List.mem_cons_self)
    rw [starts, found] at proceed
    obtain ⟨middle, ran, stillGoing⟩ :=
      (foretold_onFile orderly found going (proceed _ List.mem_cons_self)).1 accepted
    have count : middle.unit.files.length = state.unit.files.length :=
      ((filesBut_onFile (List.mem_singleton_self i)).of_eq ran).1
    rw [ran] at proceed
    rw [runFiles_cons, ran]
    exact ih (fun j member => count ▸ within j (List.mem_cons_of_mem _ member)) stillGoing
      fun start member => proceed start (List.mem_cons_of_mem _ member)

theorem foretold_perFile (failFast : config.filePolicy = .failFast) {state : State σ Module}
    (going : state.context.cancelled = false) (some : state.unit.files ≠ [])
    (proceed : ∀ start ∈ list.starts config (List.range state.unit.files.length) state,
      list.FileProceeds config start) :
    Run.Foretold Failure.Blames (Outline.checkAllDisabled config list.outlines)
      ((ModuleBody.perFile list).run config) state := by
  unfold Run.Foretold Run.Proceeds
  rw [perFile_apply]
  refine ⟨fun accepted => ?_, fun phase prerequisite rejected => ?_⟩
  · obtain ⟨after, ran, stillGoing⟩ := runFiles_of_accepted orderly accepted
      (fun i member => List.mem_range.mp member) going proceed
    rw [ran]
    exact ⟨after, rfl, stillGoing⟩
  · -- Under this policy the first file ends the phase.
    have first : 0 < state.unit.files.length := List.length_pos_iff.mpr some
    obtain ⟨count, length⟩ := Nat.exists_eq_add_of_lt first
    have found := List.getElem?_eq_getElem first
    rw [length, Nat.zero_add, List.range_succ_eq_map] at proceed ⊢
    rw [starts, found] at proceed
    obtain ⟨error, after, ran, blamed⟩ :=
      (foretold_onFile orderly found going (proceed _ List.mem_cons_self)).2 _ _ rejected
    rw [runFiles_cons, ran, failFast]
    exact ⟨_, after, rfl, _, error, rfl, blamed⟩

end files

/-! ### The two checks -/

/-- Checking the configuration beforehand and checking prerequisites during the run agree. -/
theorem checkConfig_foretells_run {list : PhaseList (ModuleBody σ)}
    (orderly : list.EveryPlain (fun body => (body.run config).Orderly)
      fun body => (body.run config).Orderly) :
    (list.checkConfig config = .ok () →
      ∀ state : State σ Module, state.context = {} → ∀ error last,
        list.run config state = (.error (.error error), last) → ¬list.RefusedBy error) ∧
    (∀ phase prerequisite, list.checkConfig config = .error (.disabled phase prerequisite) →
      config.filePolicy = .failFast →
      ∀ state : State σ Module, state.context = {} → list.ModuleProceeds config state →
        ∃ error last, list.run config state = (.error (.error error), last) ∧
          error.innermost.phase = phase ∧
          error.innermost.failure = .prerequisiteNotRun prerequisite) ∧
    ((∀ id ∈ config.disabled ++ config.dumpAfter, id ∈ (Outline.walkAll list.outlines).map (·.id)) →
      list.checkConfig config = .ok () ∨
        ∃ phase prerequisite, list.checkConfig config = .error (.disabled phase prerequisite)) := by
  refine ⟨fun accepted state fresh error last failed => ?_,
    fun phase prerequisite rejected failFast state fresh proceeds => ?_, checkConfig_cases⟩
  · exact not_refusedBy orderly (checkConfig_ok accepted) (by rw [fresh]) failed
  · refine (foretold_run orderly.marksNothing (by rw [fresh]) (by rw [fresh])
      fun phase rest before reaches => ?_).2 phase prerequisite (checkConfig_disabled rejected)
    have plain := orderly phase reaches.mem
    have called := proceeds phase rest before reaches
    show Run.Foretold Failure.Blames (Outline.checkAllDisabled config phase.body.children)
      (phase.body.run config) before
    cases body : phase.body with
    | plain body =>
      rw [body] at called
      exact called.foretold
    | perFile nested =>
      rw [body] at plain called
      exact foretold_perFile plain failFast reaches.going called.1 called.2

theorem orderly_bump : (Run.onContext (·.bump "turns" 1) : Run Unit υ Failure Unit).Orderly where
  done _ := rfl
  refuses ran := by cases ran

theorem proceeds_bump {state : State Unit υ} (going : state.context.cancelled = false) :
    (Run.onContext (·.bump "turns" 1) : Run Unit υ Failure Unit).Proceeds state :=
  ⟨_, rfl, going⟩

theorem orderly_fail {failure : Failure} (allowed : failure.isRefusal = false) :
    (Run.fail failure : Run Unit υ Failure Unit).Orderly where
  done _ := rfl
  refuses ran := by
    cases ran
    exact allowed

def counting : PhaseList (ModuleBody Unit) :=
  layered (.transform fun _ => Run.onContext (·.bump "turns" 1))

def emptying : PhaseList (ModuleBody Unit) where
  phases :=
    .alone "clear" "drop the files" (.plain (.transform fun _ => Run.setUnit { name := "program" })) ::
      counting.phases
  ordered := rfl

/-- A phase over no files does not get to the phase that was rejected. -/
theorem run_emptying :
    let config : Config := { disabled := ["draft"] }
    emptying.EveryPlain (fun body => (body.run config).Orderly)
      (fun body => (body.run config).Orderly) ∧
    emptying.EveryPlain
      (fun body => ∀ state, state.context.cancelled = false → (body.run config).Proceeds state)
      (fun body => ∀ state, state.context.cancelled = false → (body.run config).Proceeds state) ∧
    emptying.checkConfig config = .error (.disabled "polish" "draft") ∧
    config.filePolicy = .failFast ∧ oneFile.context = {} ∧ oneFile.unit.files ≠ [] ∧
    (emptying.run config oneFile).1 = .ok () := by
  intro config
  have everyPlain {onModule : Body Unit Module → Prop} {onFile : Body Unit File → Prop}
      (clear : onModule (.transform fun _ => Run.setUnit { name := "program" }))
      (survey : onModule (.transform fun _ => Run.onContext (·.bump "turns" 1)))
      (each : onFile (.transform fun _ => Run.onContext (·.bump "turns" 1))) :
      emptying.EveryPlain onModule onFile := by
    intro phase member
    rcases List.mem_cons.mp member with rfl | member
    · exact clear
    · exact everyPlain_layered survey each each phase member
  refine ⟨?_, ?_, rfl, rfl, rfl, List.cons_ne_nil _ _, rfl⟩
  · exact everyPlain ⟨fun _ => rfl, fun ran => by cases ran⟩ orderly_bump orderly_bump
  · exact everyPlain (fun _ going => ⟨_, rfl, going⟩) (fun _ => proceeds_bump) fun _ => proceeds_bump

theorem moduleProceeds_counting :
    counting.ModuleProceeds { disabled := ["draft"] } oneFile := by
  intro phase rest before reaches
  cases reaches with
  | @intro done _ _ middle split passed going _ _ =>
    rcases done with _ | ⟨first, _ | ⟨second, more⟩⟩
    · cases split
      exact proceeds_bump going
    · cases split
      obtain rfl := congrArg Prod.snd passed
      refine ⟨List.cons_ne_nil _ _, fun start _ inner more before reaches => ?_⟩
      have body : inner.body = .transform fun _ => Run.onContext (·.bump "turns" 1) := by
        rcases List.mem_cons.mp reaches.mem with rfl | member
        · rfl
        · rw [List.mem_singleton.mp member]
          rfl
      rw [body]
      exact proceeds_bump reaches.going
    · have length := congrArg List.length split
      simp [counting, layered] at length

/-- The last phase fails in one run, and lacks a disabled prerequisite in the other. -/
theorem checkConfig_foretells_run_layered :
    let config : Config := { disabled := ["draft"] }
    (failing.checkConfig {} = .ok () ∧
      ∃ error last, failing.run {} oneFile = (.error (.error error), last) ∧
        ¬failing.RefusedBy error) ∧
    counting.checkConfig config = .error (.disabled "polish" "draft") ∧
      ∃ error last, counting.run config oneFile = (.error (.error error), last) ∧
        error.innermost.phase = "polish" ∧
        error.innermost.failure = .prerequisiteNotRun "draft" := by
  intro config
  have accepted : failing.checkConfig {} = .ok () := rfl
  have rejected : counting.checkConfig config = .error (.disabled "polish" "draft") := rfl
  obtain ⟨error, last, failed⟩ :
      ∃ error last, failing.run {} oneFile = (.error (.error error), last) := ⟨_, _, rfl⟩
  have orderlyFailing : failing.EveryPlain (fun body => (body.run {}).Orderly)
      fun body => (body.run {}).Orderly :=
    everyPlain_layered orderly_bump orderly_bump (orderly_fail rfl)
  have orderlyCounting : counting.EveryPlain (fun body => (body.run config).Orderly)
      fun body => (body.run config).Orderly :=
    everyPlain_layered orderly_bump orderly_bump orderly_bump
  refine ⟨⟨accepted, error, last, failed, ?_⟩, rejected, ?_⟩
  · exact (checkConfig_foretells_run orderlyFailing).1 accepted oneFile rfl error last failed
  · exact (checkConfig_foretells_run orderlyCounting).2.1 _ _ rejected rfl oneFile rfl
      moduleProceeds_counting

end PhaseList

end StagedLowering
