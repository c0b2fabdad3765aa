import StagedLowering.Proofs.Independence
import StagedLowering.Proofs.Interruption
import StagedLowering.Proofs.Refusals

/-!
# Cancelled runs over files

Where the flag goes up on a file, each file after it is entered under `collectAll`, refused at the
first phase of the list, and left again, so that its error is all that comes of it
(`PhaseList.runFiles_flagged`). `PhaseList.run_cancelled` says how a run over a module winds up from
the moment the flag is up, wherever that is. It assumes nothing of the bodies.
-/

namespace StagedLowering

variable {σ : Type} {config : Config} {list : PhaseList (Body σ File)}

/-! ### How files end -/

def failuresOf (ends : List (String × Except (Stop PhaseError) Unit)) : List (String × PhaseError) :=
  ends.filterMap fun ended => (Run.error? ended.2).map (ended.1, ·)

/-- How files end that are gone through with the flag up. -/
def PhaseList.refused (list : PhaseList (Body σ File)) (files : List File) :
    List (String × Except (Stop PhaseError) Unit) :=
  files.map fun file => (file.path, Phase.cutShort file.label list.phases)

theorem Phase.cutShort_returned {β : Type} (label : String) (phases : List (Phase β)) :
    Phase.cutShort label phases ≠ .error .fault := by
  cases phases with
  | nil => nofun
  | cons next rest => nofun

theorem Phase.ending_returned {β : Type} {label : String} {phase : Phase β} {rest : List (Phase β)}
    {result : Except (Stop Failure) Unit} (returned : result ≠ .error .fault) :
    phase.ending label rest result ≠ .error .fault := by
  rcases result with (failure | _) | _
  · nofun
  · exact absurd rfl returned
  · exact cutShort_returned label rest

theorem failuresOf_eq_nil {ends : List (String × Except (Stop PhaseError) Unit)}
    (returned : ∀ ended ∈ ends, ended.2 ≠ .error .fault) :
    failuresOf ends = [] ↔ ∀ ended ∈ ends, ended.2 = .ok () := by
  unfold failuresOf
  rw [List.filterMap_eq_nil_iff]
  refine forall₂_congr fun ended member => ?_
  have here := returned ended member
  rcases ended with ⟨path, (error | _) | _⟩
  · simp [Run.error?]
  · exact absurd rfl here
  · simp [Run.error?]

theorem FilePolicy.collected_cases (policy : FilePolicy) (failed : List (String × PhaseError)) :
    policy.collected failed = .ok (failed.map (·.2)) ∨
      failed ≠ [] ∧ ∃ failure, policy.collected failed = .error (.error failure) := by
  cases policy with
  | collectAll => exact .inl rfl
  | failFast =>
    cases failed with
    | nil => exact .inl rfl
    | cons first more => exact .inr ⟨List.cons_ne_nil _ _, _, rfl⟩

/-! ### A call on a file -/

structure FileCall (σ : Type) where
  number : Nat
  file : File
  /-- The errors that were collected from the files before it. -/
  early : List PhaseError
  /-- The state in which the run gets to the file. -/
  reached : State σ Module
  call : Call (Body σ File) σ File
  /-- The phases that follow on the file. -/
  rest : List (Phase (Body σ File))

namespace FileCall

structure Raised (config : Config) (list : PhaseList (Body σ File)) (before : State σ Module)
    (made : FileCall σ) : Prop where
  gone : list.runFiles config (List.range made.number) before = (.ok made.early, made.reached)
  found : made.reached.unit.files[made.number]? = some made.file
  raised : StagedLowering.Raised config made.file.label list.phases
    (PhaseList.enter { made.reached with unit := made.file }) made.call made.rest

/-- The state in which the call left the module, out of the scope of the file. -/
def left (made : FileCall σ) : State σ Module :=
  PhaseList.putBack made.reached.unit made.number made.call.after

def note (config : Config) (made : FileCall σ) : Gain :=
  made.call.phase.note config made.file.label made.call.before.context.scope.depth
    made.call.after.unit made.call.result

def ends (list : PhaseList (Body σ File)) (made : FileCall σ) :
    List (String × Except (Stop PhaseError) Unit) :=
  (made.call.after.unit.path,
      made.call.phase.ending made.file.label made.rest made.call.result) ::
    list.refused (made.reached.unit.files.drop (made.number + 1))

def verdict (config : Config) (list : PhaseList (Body σ File)) (made : FileCall σ) :
    Except (Stop Failure) Unit :=
  ModuleBody.concluded
    ((config.filePolicy.collected (failuresOf (made.ends list))).map (made.early ++ ·))

theorem left_cancelled (made : FileCall σ) :
    made.left.context.cancelled = made.call.after.context.cancelled :=
  made.call.after.context.cancelled_exitScope

/-- The last call of all leaves the errors of earlier files as they are. -/
theorem verdict_of_last {made : FileCall σ} (succeeded : made.call.result = .ok ())
    (lastPhase : made.rest = [])
    (lastFile : made.reached.unit.files.length = made.number + 1) :
    made.verdict config list = ModuleBody.concluded (.ok made.early) := by
  have failures : failuresOf (made.ends list) = [] := by
    simp [failuresOf, ends, PhaseList.refused, succeeded, lastPhase, ← lastFile, Phase.ending,
      Phase.cutShort, Run.error?]
  unfold verdict
  rw [failures]
  cases config.filePolicy
  · simp [FilePolicy.collected, Except.map]
  · simp [FilePolicy.collected, Except.map]

theorem verdict_returned (made : FileCall σ) : made.verdict config list ≠ .error .fault := by
  unfold verdict
  rcases config.filePolicy.collected_cases (failuresOf (made.ends list)) with
    collected | ⟨-, failure, collected⟩
  · rw [collected]
    exact ModuleBody.concluded_returned _
  · rw [collected]
    nofun

/-- The phase over the files succeeds if no file has failed or was cut short. -/
theorem verdict_ok_iff {made : FileCall σ} (returned : made.call.result ≠ .error .fault) :
    made.verdict config list = .ok () ↔
      made.early = [] ∧ ∀ ended ∈ made.ends list, ended.2 = .ok () := by
  have all : ∀ ended ∈ made.ends list, ended.2 ≠ .error .fault := by
    refine List.forall_mem_cons.mpr ⟨Phase.ending_returned returned, fun ended member => ?_⟩
    obtain ⟨file, -, rfl⟩ := List.mem_map.mp member
    exact Phase.cutShort_returned file.label list.phases
  rw [← failuresOf_eq_nil all]
  unfold verdict
  rcases config.filePolicy.collected_cases (failuresOf (made.ends list)) with
    collected | ⟨some, failure, collected⟩
  · rw [collected, Except.map, ModuleBody.concluded_ok_iff, List.append_eq_nil_iff,
      List.map_eq_nil_iff]
  · rw [collected]
    simp [Except.map, ModuleBody.concluded, some]

end FileCall

theorem Module.setFile_self {m : Module} {i : Nat} {file : File}
    (found : m.files[i]? = some file) : m.setFile i file = m := by
  obtain ⟨within, rfl⟩ := List.getElem?_eq_some_iff.mp found
  unfold Module.setFile
  rw [List.set_getElem_self]

theorem State.WoundUp.putBack {before after : State σ File} {gain : Gain} {m : Module} {i : Nat}
    (woundUp : before.WoundUp gain after) :
    (PhaseList.putBack m i before).WoundUp gain (PhaseList.putBack m i after) := by
  obtain ⟨noted, adds, quiet⟩ := woundUp
  refine ⟨?_, adds.exitScope, quiet⟩
  unfold PhaseList.putBack PhaseList.leave Context.exitScope
  rw [noted.enclosing, noted.unit]
  cases before.context.enclosing with
  | nil =>
    exact ⟨noted.outer, rfl, noted.symbols, noted.statistics, noted.cancelled, noted.enclosing,
      noted.label, noted.depth, noted.scratch⟩
  | cons scope enclosing =>
    exact ⟨noted.outer, rfl, noted.symbols, noted.statistics, noted.cancelled, rfl, rfl, rfl, rfl⟩

namespace PhaseList

/-! ### Files with the flag up -/

/-- One more file in front of some that leave everything but the trace as it is. -/
theorem runFiles_cons_ended {i : Nat} {rest : List Nat} {path : String}
    {ended : Except (Stop PhaseError) Unit} {ends : List (String × Except (Stop PhaseError) Unit)}
    {state next : State σ Module}
    (here : Run.onFile i (list.runFile config) state = (ended, next))
    (returned : ended ≠ .error .fault)
    (found : (next.unit.files[i]?).elim "" (·.path) = path)
    (later : ∀ trace, ∃ last, trace.Quiet last ∧
      list.runFiles config rest { next with trace } =
        (config.filePolicy.collected (failuresOf ends), { next with trace := last })) :
    ∃ last, next.trace.Quiet last ∧
      list.runFiles config (i :: rest) state =
        (config.filePolicy.collected (failuresOf ((path, ended) :: ends)),
          { next with trace := last }) := by
  rcases ended with (error | _) | _
  · cases policy : config.filePolicy with
    | failFast =>
      rw [runFiles_cons_of_failFast policy here, found]
      exact ⟨next.trace, .refl next.trace, rfl⟩
    | collectAll =>
      obtain ⟨last, quiet, ran⟩ := later (next.trace.emit (.fileFailed path error))
      have onward : carriedOn i error next =
          { next with trace := next.trace.emit (.fileFailed path error) } := by
        unfold carriedOn
        rw [found]
      rw [runFiles_cons_of_collectAll policy here, onward, ran, policy]
      have emitted : next.trace.Quiet (next.trace.emit (.fileFailed path error)) := .emit _ rfl
      exact ⟨last, emitted.trans quiet, rfl⟩
  · exact absurd rfl returned
  · rw [runFiles_cons_of_ok here]
    exact later next.trace

/-- A file on which the list is not begun. -/
theorem onFile_flagged (config : Config) (list : PhaseList (Body σ File)) {i : Nat} {file : File}
    {state : State σ Module} (flagged : state.context.cancelled = true)
    (found : state.unit.files[i]? = some file) :
    ∃ trace, state.trace.Quiet trace ∧
      Run.onFile i (list.runFile config) state =
        (Phase.cutShort file.label list.phases, { state with trace }) := by
  have entered : (enter { state with unit := file }).context.cancelled = true := flagged
  obtain ⟨trace, quiet, ran⟩ := Run.forM_flagged config file.label list.phases entered
  refine ⟨trace.exit, quiet, ?_⟩
  rw [onFile_of_run found ran (Phase.cutShort_returned _ _)]
  show (_, { state with trace := trace.exit, unit := state.unit.setFile i file }) = _
  rw [Module.setFile_self found]

theorem runFiles_flagged (config : Config) (list : PhaseList (Body σ File))
    {done rest : List File} {state : State σ Module} (flagged : state.context.cancelled = true)
    (files : state.unit.files = done ++ rest) :
    ∃ trace, state.trace.Quiet trace ∧
      list.runFiles config (List.range' done.length rest.length) state =
        (config.filePolicy.collected (failuresOf (list.refused rest)), { state with trace }) := by
  induction rest generalizing done state with
  | nil =>
    refine ⟨state.trace, .refl state.trace, ?_⟩
    cases config.filePolicy
    · rfl
    · rfl
  | cons file rest ih =>
    have found : state.unit.files[done.length]? = some file := by simp [files]
    have split : state.unit.files = (done ++ [file]) ++ rest := by simp [files]
    obtain ⟨trace, quiet, here⟩ := onFile_flagged config list flagged found
    have later (after : Trace) := by
      have still : ({ state with trace := after } : State σ Module).context.cancelled = true :=
        flagged
      have onward := ih still split
      rwa [List.length_append, List.length_singleton] at onward
    obtain ⟨last, onward, ran⟩ := runFiles_cons_ended here (Phase.cutShort_returned _ _)
      (by rw [found]) later
    exact ⟨last, quiet.trans onward, ran⟩

theorem range_eq_append (i later : Nat) :
    List.range (i + (later + 1)) = List.range i ++ i :: List.range' (i + 1) later := by
  rw [← List.range'_succ, List.range_eq_range', List.range_eq_range', ← List.range'_append_1,
    Nat.zero_add]

/-! ### The file on which the flag goes up -/

/-- The phase over the files goes through the rest of them, which comes to no more than errors. -/
theorem perFile_of_raised {before : State σ Module} {made : FileCall σ}
    (raised : made.Raised config list before) :
    ∃ middle, (ModuleBody.perFile list).run config before = (made.verdict config list, middle) ∧
      made.left.WoundUp (made.note config) middle := by
  obtain ⟨last, ran, woundUp⟩ := raised.raised.run
  have returned : made.call.phase.ending made.file.label made.rest made.call.result ≠
      .error .fault := Phase.ending_returned raised.raised.returned
  have here := onFile_of_run raised.found ran returned
  have left : made.left.WoundUp (made.note config)
      (putBack made.reached.unit made.number last) := woundUp.putBack
  have flagged := left.cancelled (made.left_cancelled.trans raised.raised.flagged)
  -- The files that follow are those that followed when the run got to this one.
  obtain ⟨within, -⟩ := List.getElem?_eq_some_iff.mp raised.found
  have files : (putBack made.reached.unit made.number last).unit.files =
      (made.reached.unit.files.take made.number ++ [made.call.after.unit]) ++
        made.reached.unit.files.drop (made.number + 1) := by
    simp [putBack, Module.setFile, List.set_eq_take_append_cons_drop, within, woundUp.noted.unit]
  have number : (made.reached.unit.files.take made.number ++ [made.call.after.unit]).length =
      made.number + 1 := by
    simp [Nat.le_of_lt within]
  have later (trace : Trace) := by
    have still : ({ putBack made.reached.unit made.number last with
        trace } : State σ Module).context.cancelled = true := flagged
    have onward := runFiles_flagged config list still files
    rwa [number] at onward
  have path : ((putBack made.reached.unit made.number last).unit.files[made.number]?).elim ""
      (·.path) = made.call.after.unit.path := by
    simp [putBack, Module.setFile, within, woundUp.noted.unit]
  obtain ⟨trace, quiet, onward⟩ := runFiles_cons_ended here returned path later
  -- The files before it are gone through by `raised.gone`, so the numbers are put together again.
  have count : before.unit.files.length =
      made.number + ((made.reached.unit.files.drop (made.number + 1)).length + 1) := by
    rw [← ((filesBut_runFiles _).of_eq raised.gone).1, List.length_drop]
    omega
  have all := runFiles_append raised.gone (made.number ::
    List.range' (made.number + 1) (made.reached.unit.files.drop (made.number + 1)).length)
  rw [← range_eq_append, ← count, onward] at all
  exact ⟨_, perFile_of_runFiles all, left.traced quiet⟩

/-- The flag goes up in a call on a file or not at all. -/
theorem exists_file_flagged {numbers : List Nat} {state last : State σ Module}
    {result : Except (Stop Failure) (List PhaseError)}
    (ran : list.runFiles config numbers state = (result, last)) (returned : result ≠ .error .fault)
    (going : state.context.cancelled = false) (flagged : last.context.cancelled = true) :
    ∃ done number rest, numbers = done ++ number :: rest ∧
      ∃ file early reached call more,
        list.runFiles config done state = (.ok early, reached) ∧
        reached.unit.files[number]? = some file ∧
        Raised config file.label list.phases (enter { reached with unit := file }) call more := by
  induction numbers generalizing state result with
  | nil =>
    cases ran
    exact absurd flagged (Bool.eq_false_iff.mp going)
  | cons i rest ih =>
    rcases first : Run.onFile i (list.runFile config) state with ⟨ended, next⟩
    have endedReturned : ended ≠ .error .fault := by
      rintro rfl
      rw [runFiles_cons, first] at ran
      cases ran
      exact returned rfl
    cases raised : next.context.cancelled with
    | true =>
      obtain ⟨file, inner, found, inFile, rfl⟩ := exists_run_of_onFile first endedReturned
      have entered : (enter { state with unit := file }).context.cancelled = false := going
      have up : inner.context.cancelled = true :=
        inner.context.cancelled_exitScope.symm.trans raised
      obtain ⟨call, more, raised⟩ := exists_raised inFile endedReturned entered up
      exact ⟨[], i, rest, rfl, file, [], state, call, more, rfl, found, raised⟩
    | false =>
      rcases ended with (error | _) | _
      · cases policy : config.filePolicy with
        | failFast =>
          cases (runFiles_cons_of_failFast policy first).symm.trans ran
          exact absurd flagged (Bool.eq_false_iff.mp raised)
        | collectAll =>
          obtain ⟨ended, onward, onwardReturned⟩ :=
            exists_run_of_collectAll policy first ran returned
          obtain ⟨done, number, later, rfl, file, early, reached, call, more, gone, inFile⟩ :=
            ih onward onwardReturned raised
          refine ⟨i :: done, number, later, rfl, file, error :: early, reached, call, more, ?_,
            inFile⟩
          rw [runFiles_cons_of_collectAll policy first, gone]
      · exact absurd rfl endedReturned
      · rw [runFiles_cons_of_ok first] at ran
        obtain ⟨done, number, later, rfl, file, early, reached, call, more, gone, inFile⟩ :=
          ih ran returned raised
        exact ⟨i :: done, number, later, rfl, file, early, reached, call, more,
          (runFiles_cons_of_ok first).trans gone, inFile⟩

theorem exists_fileCall {before after : State σ Module} {result : Except (Stop Failure) Unit}
    (ran : (ModuleBody.perFile list).run config before = (result, after))
    (returned : result ≠ .error .fault) (going : before.context.cancelled = false)
    (flagged : after.context.cancelled = true) :
    ∃ made : FileCall σ, made.Raised config list before := by
  rcases files : list.runFiles config (List.range before.unit.files.length) before with
    ⟨ended, last⟩
  cases (perFile_of_runFiles files).symm.trans ran
  have endedReturned : ended ≠ .error .fault := by
    rintro rfl
    exact returned rfl
  obtain ⟨done, number, rest, split, file, early, reached, call, more, gone, found, raised⟩ :=
    exists_file_flagged files endedReturned going flagged
  obtain ⟨-, rfl, -⟩ := range_split split
  exact ⟨⟨number, file, early, reached, call, more⟩, gone, found, raised⟩

/-! ### Modules -/

/-- How a run winds up once the flag is up, be it from the start, in a call, or in a call on a file,
after which the phase over the files fails with the errors that were collected before, if that was
the last call of all. There is no other way for the flag to be up in the end. -/
theorem run_cancelled (config : Config) (list : PhaseList (ModuleBody σ)) (state : State σ Module) :
    let label := state.unit.label
    (state.context.cancelled = true → ∃ trace, state.trace.Quiet trace ∧
      list.run config state = (Phase.cutShort label list.phases, { state with trace })) ∧
    (∀ call rest, Raised config label list.phases state call rest → ∃ last,
      list.run config state = (call.phase.ending label rest call.result, last) ∧
      call.after.WoundUp
        (call.phase.note config label call.before.context.scope.depth call.after.unit call.result)
        last) ∧
    (∀ phase rest before nested (made : FileCall σ),
      Reaches config label list.phases state phase rest before →
      phase.body = .perFile nested → made.Raised config nested before → ∃ last,
      list.run config state = (phase.ending label rest (made.verdict config nested), last) ∧
      made.left.WoundUp (made.note config +
          phase.note config label before.context.scope.depth made.left.unit
            (made.verdict config nested))
        last ∧
      (made.verdict config nested = .ok () ↔
        made.early = [] ∧ ∀ ended ∈ made.ends nested, ended.2 = .ok ()) ∧
      (made.call.result = .ok () → made.rest = [] →
        made.reached.unit.files.length = made.number + 1 →
        made.verdict config nested = ModuleBody.concluded (.ok made.early))) ∧
    (state.context.cancelled = false → (list.run config state).1 ≠ .error .fault →
      (list.run config state).2.context.cancelled = true →
      ∃ call rest, Raised config label list.phases state call rest ∧
        ∀ nested, call.phase.body = .perFile nested →
          ∃ made : FileCall σ, made.Raised config nested call.before) := by
  intro label
  refine ⟨Run.forM_flagged config label list.phases, fun call rest raised => raised.run, ?_, ?_⟩
  · intro phase rest before nested made reaches body raised
    obtain ⟨middle, ran, woundUp⟩ := perFile_of_raised raised
    have called : Executable.run phase.body config before =
        (made.verdict config nested, middle) := by
      rw [body]
      exact ran
    obtain ⟨last, ended, onward⟩ := reaches.run called made.verdict_returned
      (woundUp.cancelled (made.left_cancelled.trans raised.raised.flagged))
    rw [woundUp.noted.unit] at onward
    exact ⟨last, ended, woundUp.trans onward,
      FileCall.verdict_ok_iff raised.raised.returned, made.verdict_of_last⟩
  · intro going returned flagged
    obtain ⟨call, rest, raised⟩ := exists_raised rfl returned going flagged
    refine ⟨call, rest, raised, fun nested body => ?_⟩
    have ran : (ModuleBody.perFile nested).run config call.before = (call.result, call.after) := by
      rw [← body]
      exact raised.ran
    exact exists_fileCall ran raised.returned raised.reaches.going raised.flagged

/-! ### A last call -/

/-- Fails on the file numbered 0 and cancels on any other. -/
def cancelBut : Phase (Body Unit File) :=
  .alone "stop" "stop" (.transform fun _ state =>
    if state.unit.id = 0 then (.error (.error (.reported (.described "no") none)), state)
    else (.ok (), { state with context := state.context.cancel }))

def cancelFile : PhaseList (Body Unit File) := ⟨[cancelBut], rfl⟩

def cancelFiles : Phase (ModuleBody Unit) :=
  .alone "files" "go through the files" (.perFile cancelFile)

def cancelModule : PhaseList (ModuleBody Unit) := ⟨[cancelFiles], rfl⟩

def collecting : Config := { filePolicy := .collectAll }

def fileA : File := ⟨0, "a", #[{ kind := .root }], Nat.zero_lt_one⟩

def fileB : File := ⟨1, "b", #[{ kind := .root }], Nat.zero_lt_one⟩

def twoFiles : State Unit Module := ⟨(), {}, {}, "program", [fileA, fileB]⟩

def twoFilesBegun : State Unit Module := cancelFiles.begin collecting twoFiles.unit.label twoFiles

def lastCall : FileCall Unit :=
  let reached := (cancelFile.runFiles collecting [0] twoFilesBegun).2
  let before := cancelBut.begin collecting fileB.label (enter { reached with unit := fileB })
  { number := 1
    file := fileB
    early := [cancelBut.error fileA.label (.reported (.described "no") none)]
    reached
    call := ⟨cancelBut, before, .ok (), { before with context := before.context.cancel }⟩
    rest := [] }

theorem reaches_cancelFiles :
    Reaches collecting twoFiles.unit.label cancelModule.phases twoFiles cancelFiles []
      twoFilesBegun :=
  .intro (List.nil_append _).symm rfl rfl rfl rfl

theorem raised_lastCall : lastCall.Raised collecting cancelFile twoFilesBegun where
  gone := rfl
  found := rfl
  raised := {
    reaches := .intro (List.nil_append _).symm rfl rfl rfl rfl
    ran := rfl
    returned := nofun
    flagged := rfl }

theorem run_cancelled_twoFiles :
    let label := twoFiles.unit.label
    let flagged : State Unit Module := { twoFiles with context := { cancelled := true } }
    (flagged.context.cancelled = true ∧ ∃ trace, flagged.trace.Quiet trace ∧
      cancelModule.run collecting flagged =
        (.error (.error (cancelFiles.error label .cancelled)), { flagged with trace })) ∧
    (twoFiles.context.cancelled = false ∧
      (cancelModule.run collecting twoFiles).1 ≠ .error .fault ∧
      (cancelModule.run collecting twoFiles).2.context.cancelled = true ∧
      ∃ call rest, Raised collecting label cancelModule.phases twoFiles call rest ∧ ∃ last,
        cancelModule.run collecting twoFiles = (call.phase.ending label rest call.result, last)) ∧
    Reaches collecting label cancelModule.phases twoFiles cancelFiles [] twoFilesBegun ∧
      lastCall.Raised collecting cancelFile twoFilesBegun ∧
      lastCall.call.result = .ok () ∧ lastCall.rest = [] ∧
      lastCall.reached.unit.files.length = lastCall.number + 1 ∧ ∃ last,
        cancelModule.run collecting twoFiles =
          (.error (.error (cancelFiles.error label (.inFiles lastCall.early))), last) ∧
        last.unit = twoFiles.unit ∧
        last.context.diagnostics = lastCall.left.context.diagnostics := by
  intro label flagged
  obtain ⟨started, -, -, -⟩ := run_cancelled collecting cancelModule flagged
  obtain ⟨-, inCall, onFile, rises⟩ := run_cancelled collecting cancelModule twoFiles
  have going : twoFiles.context.cancelled = false := rfl
  have returned : (cancelModule.run collecting twoFiles).1 ≠ .error .fault :=
    Run.faulted_eq_false_iff.mp (by decide +kernel)
  have up : (cancelModule.run collecting twoFiles).2.context.cancelled = true := by decide +kernel
  refine ⟨⟨rfl, started rfl⟩, ⟨going, returned, up, ?_⟩, reaches_cancelFiles, raised_lastCall, rfl,
    rfl, rfl, ?_⟩
  · obtain ⟨call, rest, raised, -⟩ := rises going returned up
    obtain ⟨last, ran, -⟩ := inCall call rest raised
    exact ⟨call, rest, raised, last, ran⟩
  · obtain ⟨last, ran, woundUp, -, verdict⟩ :=
      onFile cancelFiles [] twoFilesBegun cancelFile lastCall reaches_cancelFiles rfl raised_lastCall
    rw [verdict rfl rfl rfl] at ran woundUp
    exact ⟨last, ran, woundUp.noted.unit, woundUp.adds.diagnostics.trans (List.append_nil _)⟩

/-- Cancelling as the last call of all does not make up for a file that failed. -/
theorem lastCall_not_ok :
    (∀ state, (cancelBut.body.run collecting state).2.context.scope = state.context.scope ∧
      (cancelBut.body.run collecting state).2.context.enclosing = state.context.enclosing) ∧
    Reaches collecting twoFiles.unit.label cancelModule.phases twoFiles cancelFiles []
      twoFilesBegun ∧
    cancelFiles.body = .perFile cancelFile ∧ lastCall.Raised collecting cancelFile twoFilesBegun ∧
    lastCall.call.result = .ok () ∧ lastCall.rest = [] ∧
    lastCall.reached.unit.files.length = lastCall.number + 1 ∧
    (cancelModule.run collecting twoFiles).1 ≠ .ok () := by
  have stopped : (cancelModule.run collecting twoFiles).1.isOk = false := by decide +kernel
  refine ⟨fun state => ?_, reaches_cancelFiles, rfl, raised_lastCall, rfl, rfl, rfl, fun ok => ?_⟩
  · by_cases first : state.unit.id = 0
    · simp [cancelBut, Phase.alone, Phase.after, Body.run, first]
    · simp [cancelBut, Phase.alone, Phase.after, Body.run, first, Context.cancel]
  · rw [ok] at stopped
    cases stopped

end PhaseList

end StagedLowering
