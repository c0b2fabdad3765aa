import StagedLowering.Proofs.Chronicle
import StagedLowering.Proofs.Policies
import StagedLowering.Proofs.Refusals

/-!
# What both levels write down

A phase over the files writes down what the runs on the files do, one scope deeper and in the order
of the files, and then its own record. With bodies that leave alone what runners keep, the history
and the dumps of a run tell at both levels which bodies were called and with what success
(`PhaseList.run_chronicle`).
-/

namespace StagedLowering

variable {σ υ : Type} {config : Config}

namespace Context.Grows

variable {before middle after : Context} {records more : List Record} {dumps moreDumps : List Dump}

theorem refl (context : Context) : context.Grows [] [] context where
  enclosing := rfl
  label := rfl
  depth := rfl
  executed := rfl
  skipped := rfl
  history := (List.append_nil _).symm
  dumps := (List.append_nil _).symm

theorem trans (first : before.Grows records dumps middle) (second : middle.Grows more moreDumps after) :
    before.Grows (records ++ more) (dumps ++ moreDumps) after where
  enclosing := second.enclosing.trans first.enclosing
  label := second.label.trans first.label
  depth := second.depth.trans first.depth
  executed := second.executed.trans first.executed
  skipped := second.skipped.trans first.skipped
  history := by rw [second.history, first.history, List.append_assoc]
  dumps := by rw [second.dumps, first.dumps, List.append_assoc]

end Context.Grows

namespace PhaseList

variable {list : PhaseList (Body σ File)}

/-- The states in which the list starts on the files with these numbers, up to one whose failure
ends the run. -/
def starts (config : Config) (list : PhaseList (Body σ File)) :
    List Nat → State σ Module → List (State σ File)
  | [], _ => []
  | i :: rest, state =>
    match state.unit.files[i]? with
    | none => []
    | some file =>
      enter { state with unit := file } ::
        match Run.onFile i (list.runFile config) state with
        | (.ok (), next) => list.starts config rest next
        | (.error (.error error), next) =>
          match config.filePolicy with
          | .failFast => []
          | .collectAll => list.starts config rest (carriedOn i error next)
        | (.error .fault, _) => []

def FilesWrote (config : Config) (list : PhaseList (Body σ File)) (numbers : List Nat)
    (state : State σ Module) (records : List Record) (dumps : List Dump) : Prop :=
  ∃ parts : List (List Record × List Dump),
    List.Forall₂ (fun start part =>
        start.context.scope = { label := start.unit.label, depth := state.context.scope.depth + 1 } ∧
          list.Wrote config start part.1 part.2)
      (list.starts config numbers state) parts ∧
    records = parts.flatMap (·.1) ∧ dumps = parts.flatMap (·.2)

namespace FilesWrote

variable {numbers : List Nat} {state : State σ Module} {records : List Record} {dumps : List Dump}

theorem depth (wrote : list.FilesWrote config numbers state records dumps) :
    ∀ record ∈ records, record.depth = state.context.scope.depth + 1 := by
  obtain ⟨parts, each, rfl, -⟩ := wrote
  intro record member
  obtain ⟨part, partMember, member⟩ := List.mem_flatMap.mp member
  obtain ⟨start, -, fresh, wrote⟩ := exists_mem_of_forall₂ each partMember
  rw [wrote.depth record member, fresh]

theorem subjects (wrote : list.FilesWrote config numbers state records dumps) :
    dumps.map Dump.subject = (config.dumped records).map Record.subject := by
  obtain ⟨parts, each, rfl, rfl⟩ := wrote
  generalize list.starts config numbers state = starts at each
  induction each with
  | nil => rfl
  | cons first _ ih =>
    obtain ⟨-, calls, -, chronicle⟩ := first
    rw [List.flatMap_cons, List.flatMap_cons, List.map_append, chronicle.subjects, ih, Config.dumped,
      Config.dumped, Config.dumped, List.filter_append, List.map_append]

end FilesWrote

/-- What is left of a run in a scope of its own. -/
theorem Wrote.leave {state : State σ File} {records : List Record} {dumps : List Dump}
    (wrote : list.Wrote config (enter state) records dumps) :
    state.context.Grows records dumps
      (PhaseList.leave (list.run config (enter state)).2).context := by
  obtain ⟨calls, -, chronicle⟩ := wrote
  have left : (PhaseList.leave (list.run config (enter state)).2).context = _ :=
    Context.exitScope_of_enclosing chronicle.enclosing
  rw [left]
  exact ⟨rfl, rfl, rfl, rfl, rfl, chronicle.history, chronicle.dumped⟩

section files

variable (discreet : ∀ phase ∈ list.phases, (phase.body.run config).Discreet)

include discreet

theorem onFile_wrote {i : Nat} {state next : State σ Module} {result : Except (Stop PhaseError) Unit}
    (ran : Run.onFile i (list.runFile config) state = (result, next))
    (returned : result ≠ .error .fault) :
    ∃ file records dumps, state.unit.files[i]? = some file ∧
      list.Wrote config (enter { state with unit := file }) records dumps ∧
      state.context.Grows records dumps next.context := by
  obtain ⟨file, last, found, ended, rfl⟩ := exists_run_of_onFile ran returned
  obtain ⟨records, dumps, wrote⟩ := exists_wrote discreet (by rwa [ended])
  have grows := wrote.leave
  rw [ended] at grows
  exact ⟨file, records, dumps, found, wrote, grows⟩

/-- The files that were gone through account for all that was written. -/
theorem runFiles_wrote {numbers : List Nat} {state last : State σ Module}
    {result : Except (Stop Failure) (List PhaseError)}
    (ran : list.runFiles config numbers state = (result, last))
    (returned : result ≠ .error .fault) :
    ∃ records dumps, list.FilesWrote config numbers state records dumps ∧
      state.context.Grows records dumps last.context := by
  induction numbers generalizing state result with
  | nil =>
    cases ran
    exact ⟨[], [], ⟨[], .nil, rfl, rfl⟩, .refl _⟩
  | cons i rest ih =>
    rcases first : Run.onFile i (list.runFile config) state with ⟨(error | _) | _, next⟩
    · obtain ⟨file, records, dumps, found, wrote, grows⟩ := onFile_wrote discreet first nofun
      cases policy : config.filePolicy with
      | failFast =>
        cases (runFiles_cons_of_failFast policy first).symm.trans ran
        refine ⟨records, dumps, ⟨[(records, dumps)], ?_, by simp, by simp⟩, grows⟩
        rw [starts, found, first, policy]
        exact .cons ⟨rfl, wrote⟩ .nil
      | collectAll =>
        obtain ⟨ended, restRan, restReturned⟩ := exists_run_of_collectAll policy first ran returned
        obtain ⟨more, moreDumps, ⟨parts, each, rfl, rfl⟩, later⟩ := ih restRan restReturned
        refine ⟨_, _, ⟨(records, dumps) :: parts, ?_, rfl, rfl⟩, grows.trans later⟩
        rw [starts, found, first, policy]
        rw [show (carriedOn i error next).context.scope.depth = _ from grows.depth] at each
        exact .cons ⟨rfl, wrote⟩ each
    · rw [runFiles_cons, first] at ran
      cases ran
      exact absurd rfl returned
    · obtain ⟨file, records, dumps, found, wrote, grows⟩ := onFile_wrote discreet first nofun
      rw [runFiles_cons_of_ok first] at ran
      obtain ⟨more, moreDumps, ⟨parts, each, rfl, rfl⟩, later⟩ := ih ran returned
      refine ⟨_, _, ⟨(records, dumps) :: parts, ?_, rfl, rfl⟩, grows.trans later⟩
      rw [starts, found, first]
      rw [grows.depth] at each
      exact .cons ⟨rfl, wrote⟩ each

theorem perFile_wrote {state last : State σ Module} {result : Except (Stop Failure) Unit}
    (ran : (ModuleBody.perFile list).run config state = (result, last))
    (returned : result ≠ .error .fault) :
    ∃ records dumps,
      list.FilesWrote config (List.range state.unit.files.length) state records dumps ∧
      state.context.Grows records dumps last.context := by
  rcases files : list.runFiles config (List.range state.unit.files.length) state with ⟨ended, after⟩
  cases (perFile_of_runFiles files).symm.trans ran
  refine runFiles_wrote discreet files fun faulted => returned ?_
  rw [faulted]
  rfl

end files

end PhaseList

/-! ### Modules -/

/-- What was written down during a call: nothing, or what the runs on the files wrote down. -/
def Call.Accounted (config : Config) (call : Call (ModuleBody σ) σ Module) : Prop :=
  match call.phase.body with
  | .plain _ => call.records = [] ∧ call.dumps = []
  | .perFile list =>
    list.FilesWrote config (List.range call.before.unit.files.length) call.before call.records
      call.dumps

theorem Call.accounted {call : Call (ModuleBody σ) σ Module}
    (discreet : match call.phase.body with
      | .plain body => (body.run config).Discreet
      | .perFile nested => ∀ inner ∈ nested.phases, (inner.body.run config).Discreet)
    (ran : call.phase.body.run config call.before = (call.result, call.after))
    (returned : call.result ≠ .error .fault) : call.Accounted config ∧ call.Tame config := by
  unfold Call.Accounted
  cases body : call.phase.body with
  | plain body =>
    rw [body] at discreet ran
    have grows : call.before.context.Grows [] [] call.after.context := discreet ran returned
    exact ⟨Call.records_of_grows grows, Call.tame_of_silent grows⟩
  | perFile nested =>
    rw [body] at discreet ran
    obtain ⟨records, dumps, wrote, grows⟩ := PhaseList.perFile_wrote discreet ran returned
    obtain ⟨rfl, rfl⟩ := Call.records_of_grows grows
    exact ⟨wrote, {
      grows := grows
      nested := fun record member => by
        rw [wrote.depth record member]
        exact Nat.succ_ne_self _
      subjects := wrote.subjects }⟩

/-- What a run writes down at its own level, and at that of the files below it. -/
theorem PhaseList.run_chronicle (config : Config) :
    (∀ {υ : Type} [WorkUnit υ] (list : PhaseList (Body σ υ)) (state : State σ υ),
      (∀ phase ∈ list.phases, (phase.body.run config).Discreet) →
      (list.run config state).1 ≠ .error .fault →
      ∃ records dumps, list.Wrote config state records dumps ∧
        ∀ record ∈ records, record.depth = state.context.scope.depth) ∧
    ∀ (list : PhaseList (ModuleBody σ)) (state : State σ Module),
      list.EveryPlain (fun body => (body.run config).Discreet)
        (fun body => (body.run config).Discreet) →
      (list.run config state).1 ≠ .error .fault →
      ∃ calls records dumps, (∀ call ∈ calls, call.Accounted config) ∧
        Chronicle config list.phases state.unit.label state (list.run config state).1 calls records
          dumps (list.run config state).2 := by
  refine ⟨fun {υ} _ list state discreet returned => ?_, fun list state discreet returned => ?_⟩
  · obtain ⟨records, dumps, wrote⟩ := exists_wrote discreet returned
    exact ⟨records, dumps, wrote, wrote.depth⟩
  · have tame : ∀ phase ∈ list.phases, phase.Tame config := by
      intro phase member before after result ran ended
      let call : Call (ModuleBody σ) σ Module := ⟨phase, before, result, after⟩
      have body : call.phase.body.run config call.before = (call.result, call.after) := ran
      exact (Call.accounted (discreet phase member) body ended).2
    obtain ⟨calls, records, dumps, chronicle⟩ := exists_chronicle tame rfl returned
    refine ⟨calls, records, dumps, fun call member => ?_, chronicle⟩
    obtain ⟨done, told, -, -⟩ := chronicle.told
    obtain ⟨ran, ended⟩ := chronicle.made.ran member
    exact (Call.accounted (discreet call.phase (told.mem member)) ran ended).1

namespace PhaseList

theorem discreet_bump : (Run.onContext (·.bump "turns" 1) : Run Unit υ Failure Unit).Discreet := by
  intro state after result ran _
  cases ran
  exact ⟨rfl, rfl, rfl, rfl, rfl, (List.append_nil _).symm, (List.append_nil _).symm⟩

theorem discreet_fail (failure : Failure) :
    (Run.fail failure : Run Unit υ Failure Unit).Discreet := by
  intro state after result ran _
  cases ran
  exact .refl _

def drafting : PhaseList (Body Unit File) where
  phases := [.alone "draft" "prepare" (.transform fun _ => Run.onContext (·.bump "turns" 1))]
  ordered := rfl

theorem discreet_drafting (config : Config) :
    ∀ phase ∈ drafting.phases, (phase.body.run config).Discreet := by
  intro phase member
  rw [List.mem_singleton.mp member]
  exact discreet_bump

def failing : PhaseList (ModuleBody Unit) := layered (.transform fun _ => Run.fail .cancelled)

theorem discreet_failing (config : Config) :
    failing.EveryPlain (fun body => (body.run config).Discreet)
      (fun body => (body.run config).Discreet) :=
  everyPlain_layered discreet_bump discreet_bump (discreet_fail .cancelled)

def oneFile : State Unit Module :=
  ⟨(), {}, {}, "program", [⟨0, "main", #[{ kind := .root }], Nat.zero_lt_one⟩]⟩

theorem history_failing :
    (failing.run {} oneFile).2.context.history.map (fun record =>
        (record.phase, record.depth, record.outcome)) =
      [("survey", 0, .completed), ("draft", 1, .completed), ("polish", 1, .failed),
        ("files", 0, .failed)] := by
  decide

theorem returned_failing : (failing.run {} oneFile).1 ≠ .error .fault :=
  Run.faulted_eq_false_iff.mp (by decide +kernel)

theorem run_chronicle_failing :
    let state : State Unit File := ⟨(), {}, {}, { path := "main" }⟩
    ((∀ phase ∈ drafting.phases, (phase.body.run {}).Discreet) ∧
      (drafting.run {} state).1 ≠ .error .fault ∧
      ∃ records dumps, drafting.Wrote {} state records dumps ∧
        ∀ record ∈ records, record.depth = 0) ∧
    failing.EveryPlain (fun body => (body.run {}).Discreet) (fun body => (body.run {}).Discreet) ∧
      (failing.run {} oneFile).1 ≠ .error .fault ∧
      ∃ calls records dumps, (∀ call ∈ calls, call.Accounted {}) ∧
        Chronicle {} failing.phases oneFile.unit.label oneFile (failing.run {} oneFile).1 calls
          records dumps (failing.run {} oneFile).2 ∧
        records.map (fun record => (record.phase, record.depth, record.outcome)) =
          [("survey", 0, .completed), ("draft", 1, .completed), ("polish", 1, .failed),
            ("files", 0, .failed)] := by
  intro state
  have returned : (drafting.run {} state).1 ≠ .error .fault := nofun
  refine ⟨⟨discreet_drafting {}, returned, ?_⟩, discreet_failing {}, returned_failing, ?_⟩
  · exact (run_chronicle {}).1 drafting state (discreet_drafting {}) returned
  · obtain ⟨calls, records, dumps, accounted, chronicle⟩ :=
      (run_chronicle {}).2 failing oneFile (discreet_failing {}) returned_failing
    refine ⟨calls, records, dumps, accounted, chronicle, ?_⟩
    have history : (failing.run {} oneFile).2.context.history = [] ++ records := chronicle.history
    rw [List.nil_append] at history
    rw [← history]
    exact history_failing

end PhaseList

end StagedLowering
