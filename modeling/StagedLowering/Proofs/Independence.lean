import StagedLowering.Proofs.FileLowering
import StagedLowering.Proofs.Gains
import StagedLowering.Proofs.Policies

/-!
# Files one by one

What the file phases make of a file depends on nothing that an earlier file leaves behind: a run
over all files of a module does to each what a run on that file alone does from the same start, and
adds to the context what these runs add, in the order of the files
(`filePhases_independent`).
-/

namespace StagedLowering

variable {σ : Type}

structure FileOutcome where
  error : Option PhaseError
  file : File
  gain : Gain

/-- A run from `before` came to this, and left the scope that it found. -/
structure FileOutcome.Describes (outcome : FileOutcome) (before : Context)
    (ran : Except (Stop PhaseError) Unit × State σ File) : Prop where
  result : ran.1 = outcome.error.elim (.ok ()) fun error => .error (.error error)
  unit : ran.2.unit = outcome.file
  scope : ran.2.context.scope = before.scope
  adds : before.Adds outcome.gain ran.2.context

/-- A run comes to one thing. -/
theorem FileOutcome.Describes.unique {first second : FileOutcome} {before : Context}
    {ran : Except (Stop PhaseError) Unit × State σ File} (left : first.Describes before ran)
    (right : second.Describes before ran) : first = second := by
  have result := left.result.symm.trans right.result
  have error : first.error = second.error := by
    cases firstError : first.error <;> cases secondError : second.error <;>
      simp_all [Option.elim]
  have file : first.file = second.file := left.unit.symm.trans right.unit
  have gain : first.gain = second.gain := left.adds.unique right.adds
  cases first
  cases second
  simp_all

namespace FilePolicy

def treated (fails : File → Bool) : FilePolicy → List File → List File
  | collectAll, files => files
  | failFast, [] => []
  | failFast, file :: rest => file :: if fails file then [] else treated fails failFast rest

/-- How a run over the files ends that went through some that failed, each given with its path. -/
def verdict : FilePolicy → List (String × PhaseError) → Except (Stop Failure) Unit
  | _, [] => .ok ()
  | failFast, (path, error) :: _ => .error (.error (.inFile path error))
  | collectAll, failed => .error (.error (.inFiles (failed.map (·.2))))

def collected : FilePolicy → List (String × PhaseError) → Except (Stop Failure) (List PhaseError)
  | failFast, (path, error) :: _ => .error (.error (.inFile path error))
  | _, failed => .ok (failed.map (·.2))

theorem treated_nil (fails : File → Bool) (policy : FilePolicy) :
    policy.treated fails [] = [] := by
  cases policy
  · rw [treated]
  · rw [treated]

theorem treated_of_not_fails {fails : File → Bool} {file : File} (policy : FilePolicy)
    (succeeds : fails file = false) (rest : List File) :
    policy.treated fails (file :: rest) = file :: policy.treated fails rest := by
  cases policy
  · rw [treated, succeeds]
    rfl
  · simp only [treated]

theorem treated_failFast {fails : File → Bool} {file : File} (failing : fails file = true)
    (rest : List File) : failFast.treated fails (file :: rest) = [file] := by
  rw [treated, failing]
  rfl

theorem treated_collectAll (fails : File → Bool) (files : List File) :
    collectAll.treated fails files = files := by
  rw [treated]

end FilePolicy

def FileOutcome.failures (outcome : File → FileOutcome) (files : List File) :
    List (String × PhaseError) :=
  files.filterMap fun file => (outcome file).error.map ((outcome file).file.path, ·)

/-- What a run over the files `rest`, which come after the files `done`, puts together from what
each file comes to. -/
structure FilesTogether (policy : FilePolicy) (outcome : File → FileOutcome) (done rest : List File)
    (before : State σ Module) (ran : Except (Stop Failure) (List PhaseError) × State σ Module) :
    Prop where
  result : ran.1 = policy.collected (FileOutcome.failures outcome
    (policy.treated (fun file => (outcome file).error.isSome) rest))
  unit : ran.2.unit = { before.unit with
    files := done ++
      ((policy.treated (fun file => (outcome file).error.isSome) rest).map
          (fun file => (outcome file).file) ++
        rest.drop (policy.treated (fun file => (outcome file).error.isSome) rest).length) }
  adds : before.context.Adds
    ((policy.treated (fun file => (outcome file).error.isSome) rest).map
      fun file => (outcome file).gain).sum ran.2.context

/-- One more file in front, with the rest still gone through after it. -/
theorem FilesTogether.cons {policy : FilePolicy} {outcome : File → FileOutcome}
    {done rest : List File} {file : File} {before next : State σ Module}
    {later ran : Except (Stop Failure) (List PhaseError) × State σ Module}
    (together : FilesTogether policy outcome (done ++ [(outcome file).file]) rest next later)
    (goesOn : policy.treated (fun file => (outcome file).error.isSome) (file :: rest) =
      file :: policy.treated (fun file => (outcome file).error.isSome) rest)
    (unit : next.unit = { before.unit with files := done ++ (outcome file).file :: rest })
    (adds : before.context.Adds (outcome file).gain next.context) (same : ran.2 = later.2)
    (result : ran.1 = policy.collected (FileOutcome.failures outcome
      (file :: policy.treated (fun file => (outcome file).error.isSome) rest))) :
    FilesTogether policy outcome done (file :: rest) before ran := by
  refine ⟨?_, ?_, ?_⟩
  · rw [goesOn]
    exact result
  · rw [goesOn, same, together.unit, unit]
    simp
  · rw [goesOn, same]
    exact adds.trans together.adds

/-! ### A list of file phases -/

namespace PhaseList

variable {config : Config} {list : PhaseList (Body σ File)}

theorem adds_leave {state last : State σ File} {gain : Gain}
    (adds : (enter state).context.Adds gain last.context) :
    state.context.Adds gain (leave last).context ∧
      (leave last).context.scope = state.context.scope := by
  have left : (leave last).context = _ := Context.exitScope_of_enclosing adds.enclosing
  have scope : (leave last).context.scope = state.context.scope := by rw [left]
  exact ⟨adds.exitScope, scope⟩

theorem perFile_of_collected {failed : List (String × PhaseError)} {state last : State σ Module}
    (ran : list.runFiles config (List.range state.unit.files.length) state =
      (config.filePolicy.collected failed, last)) :
    (ModuleBody.perFile list).run config state = (config.filePolicy.verdict failed, last) := by
  rw [perFile_apply, ran]
  cases config.filePolicy <;> cases failed <;> rfl

variable (detached : ∀ phase ∈ list.phases, (phase.body.run config).Detached)
  (returns : ∀ phase ∈ list.phases, (phase.body.run config).Returns)

include detached returns

theorem runFile_alike {s t : State σ File} (alike : s.Alike t) :
    ∃ outcome : FileOutcome, outcome.Describes s.context (list.runFile config s) ∧
      outcome.Describes t.context (list.runFile config t) := by
  have entered : (enter s).Alike (enter t) := by
    refine ⟨alike.unit, ?_, alike.going, alike.otherGoing⟩
    show Scope.mk s.unit.label (s.context.scope.depth + 1) [] [] {} =
      Scope.mk t.unit.label (t.context.scope.depth + 1) [] [] {}
    rw [alike.unit, alike.scope]
  obtain ⟨result, last, otherLast, gain, ran, otherRan, alikeLast, adds, otherAdds⟩ :=
    PhaseList.detached_run detached entered
  have returned := returns_runFile returns s
  rw [runFile_apply, ran] at returned
  rw [runFile_apply, runFile_apply, ran, otherRan]
  obtain ⟨addsAll, scope⟩ := adds_leave adds
  obtain ⟨otherAddsAll, otherScope⟩ := adds_leave otherAdds
  rcases result with (error | _) | _
  · exact ⟨⟨some error, last.unit, gain⟩, ⟨rfl, rfl, scope, addsAll⟩,
      ⟨rfl, alikeLast.unit.symm, otherScope, otherAddsAll⟩⟩
  · exact absurd rfl returned
  · exact ⟨⟨none, last.unit, gain⟩, ⟨rfl, rfl, scope, addsAll⟩,
      ⟨rfl, alikeLast.unit.symm, otherScope, otherAddsAll⟩⟩

/-- From all states with one scope a list comes to the same on a file. -/
theorem exists_outcome {origin : State σ Module} (going : origin.context.cancelled = false)
    (file : File) :
    ∃ outcome : FileOutcome, ∀ t : State σ File, t.unit = file →
      t.context.scope = origin.context.scope → t.context.cancelled = false →
        outcome.Describes t.context (list.runFile config t) := by
  have itself : ({ origin with unit := file } : State σ File).Alike { origin with unit := file } :=
    ⟨rfl, rfl, going, going⟩
  obtain ⟨outcome, described, -⟩ := runFile_alike detached returns itself
  refine ⟨outcome, fun t unit scope otherGoing => ?_⟩
  have alike : ({ origin with unit := file } : State σ File).Alike t :=
    ⟨unit.symm, scope.symm, going, otherGoing⟩
  obtain ⟨other, left, right⟩ := runFile_alike detached returns alike
  rwa [left.unique described] at right

omit detached returns

section files

variable {scope : Scope} {outcome : File → FileOutcome}
  (described : ∀ t : State σ File, t.context.scope = scope → t.context.cancelled = false →
    (outcome t.unit).Describes t.context (list.runFile config t))
  {done rest : List File} {file : File} {state : State σ Module}

include described

theorem onFile_outcome (files : state.unit.files = done ++ file :: rest)
    (inScope : state.context.scope = scope) (going : state.context.cancelled = false) :
    ∃ next, Run.onFile done.length (list.runFile config) state =
        ((outcome file).error.elim (.ok ()) (fun error => .error (.error error)), next) ∧
      next.unit = { state.unit with files := done ++ (outcome file).file :: rest } ∧
      next.context.scope = scope ∧ next.context.cancelled = false ∧
      state.context.Adds (outcome file).gain next.context := by
  have alone := described { state with unit := file } inScope going
  unfold Run.onFile
  rw [files, List.getElem?_append_right (Nat.le_refl _), Nat.sub_self, List.getElem?_cons_zero]
  dsimp only
  rcases ran : list.runFile config { state with unit := file } with ⟨ended, after⟩
  rw [ran] at alone
  obtain ⟨result, unit, sameScope, adds⟩ := alone
  refine ⟨_, Prod.ext result rfl, ?_, sameScope.trans inScope, adds.cancelled.trans going, adds⟩
  show state.unit.setFile done.length after.unit = _
  have changed : after.unit = (outcome file).file := unit
  unfold Module.setFile
  rw [files, changed]
  simp

/-- The files that are left, after some that are done. Each is run on alone, since the scope is the
same every time. -/
theorem runFiles_together (files : state.unit.files = done ++ rest)
    (inScope : state.context.scope = scope) (going : state.context.cancelled = false) :
    FilesTogether config.filePolicy outcome done rest state
      (list.runFiles config (List.range' done.length rest.length) state) := by
  induction rest generalizing done state with
  | nil =>
    rw [List.append_nil] at files
    refine ⟨?_, ?_, ?_⟩
    · rw [FilePolicy.treated_nil]
      cases config.filePolicy <;> rfl
    · rw [FilePolicy.treated_nil]
      simp [← files, runFiles]
    · rw [FilePolicy.treated_nil]
      exact .refl state.context
  | cons file rest ih =>
    obtain ⟨next, ran, unit, nextScope, nextGoing, adds⟩ :=
      onFile_outcome described files inScope going
    have nextFiles : next.unit.files = (done ++ [(outcome file).file]) ++ rest := by
      rw [unit]
      simp
    have number : (done ++ [(outcome file).file]).length = done.length + 1 := by simp
    have path : (next.unit.files[done.length]?).elim "" (·.path) = (outcome file).file.path := by
      rw [nextFiles]
      simp
    rw [List.length_cons, List.range'_succ]
    cases failed : (outcome file).error with
    | none =>
      have succeeds : (outcome file).error.isSome = false := by rw [failed]; rfl
      rw [failed] at ran
      rw [runFiles_cons_of_ok ran]
      have later := ih nextFiles nextScope nextGoing
      rw [number] at later
      refine later.cons (FilePolicy.treated_of_not_fails _ succeeds _) unit adds rfl ?_
      simpa [FileOutcome.failures, failed] using later.result
    | some error =>
      have fails : (outcome file).error.isSome = true := by rw [failed]; rfl
      rw [failed] at ran
      cases policy : config.filePolicy with
      | failFast =>
        rw [runFiles_cons_of_failFast policy ran, path]
        refine ⟨?_, ?_, ?_⟩
        · rw [FilePolicy.treated_failFast fails]
          simp [FileOutcome.failures, failed, FilePolicy.collected]
        · rw [FilePolicy.treated_failFast fails]
          simpa using unit
        · rw [FilePolicy.treated_failFast fails]
          exact adds.trans (.refl next.context)
      | collectAll =>
        have onward : (carriedOn done.length error next).unit.files =
            (done ++ [(outcome file).file]) ++ rest := nextFiles
        have later := ih onward nextScope nextGoing
        rw [number, policy] at later
        have result := later.result
        rw [FilePolicy.treated_collectAll] at result
        rw [runFiles_cons_of_collectAll policy ran]
        rcases restRan : list.runFiles config (List.range' (done.length + 1) rest.length)
          (carriedOn done.length error next) with ⟨ended, last⟩
        rw [restRan] at later result
        obtain rfl : ended = .ok ((FileOutcome.failures outcome rest).map (·.2)) := by
          simpa [FilePolicy.collected] using result
        refine later.cons ?_ unit adds rfl ?_
        · rw [FilePolicy.treated_collectAll, FilePolicy.treated_collectAll]
        · rw [FilePolicy.treated_collectAll]
          simp [FileOutcome.failures, failed, FilePolicy.collected]

end files

end PhaseList

/-! ### The file phases -/

theorem filePhases_returns (config : Config) :
    ∀ phase ∈ (filePhases : PhaseList (Body σ File)).phases, (phase.body.run config).Returns := by
  have check (holds : File → Except Violation Unit) :
      ((Body.check fun _ => holds).run config : Run σ File Failure Unit).Returns := by
    intro state
    rw [Body.check_apply]
    split
    · intro faults
      cases faults
    · intro faults
      cases faults
  simp only [filePhases, List.forall_mem_cons]
  refine ⟨fun state faults => ?_, fun state faults => ?_, check _, fun state faults => ?_, check _, ?_⟩
  · obtain ⟨trace, flattened⟩ := flattenBlocks_apply state
    change (flattenBlocks state).1 = _ at faults
    rw [flattened] at faults
    cases faults
  · cases faults
  · change (introduceTemporaries state).1 = _ at faults
    rw [introduceTemporaries_apply] at faults
    cases faults
  · exact fun _ none => absurd none List.not_mem_nil

/-- A run over all files comes to what runs on each file alone, from the same start, come to
together: under `failFast` up to the first of these that fails. -/
theorem filePhases_independent (config : Config) (state : State σ Module)
    (going : state.context.cancelled = false) :
    ∃ outcome : File → FileOutcome,
      (∀ file, (outcome file).Describes state.context
        (filePhases.runFile config { state with unit := file })) ∧
      let all := (ModuleBody.perFile filePhases).run config state
      let treated := config.filePolicy.treated (fun file => (outcome file).error.isSome)
        state.unit.files
      all.1 = config.filePolicy.verdict
        (treated.filterMap fun file => (outcome file).error.map (file.path, ·)) ∧
      all.2.unit = { state.unit with
        files := treated.map (fun file => (outcome file).file) ++
          state.unit.files.drop treated.length } ∧
      state.context.Adds (treated.map fun file => (outcome file).gain).sum all.2.context := by
  obtain ⟨outcome, described⟩ := Classical.skolem.mp
    (PhaseList.exists_outcome (filePhases_detached config) (filePhases_returns config) going)
  have alone : ∀ file, (outcome file).Describes state.context
      (filePhases.runFile config { state with unit := file }) :=
    fun file => described file { state with unit := file } rfl rfl going
  have path : ∀ file, (outcome file).file.path = file.path := by
    intro file
    have address : (filePhases.runFile config { state with unit := file }).2.unit.address =
        file.address := Carried.runFile (filePhases_address config) { state with unit := file }
    rw [(alone file).unit] at address
    exact congrArg Prod.snd address
  obtain ⟨result, unit, adds⟩ := PhaseList.runFiles_together
    (fun t scope going => described t.unit t rfl scope going) (List.nil_append _).symm rfl going
  rw [List.length_nil, ← List.range_eq_range'] at result unit adds
  have failures (files : List File) : FileOutcome.failures outcome files =
      files.filterMap fun file => (outcome file).error.map (file.path, ·) := by
    simp [FileOutcome.failures, path]
  rw [failures] at result
  rcases ran : filePhases.runFiles config (List.range state.unit.files.length) state with
    ⟨ended, last⟩
  rw [ran] at result unit adds
  subst result
  refine ⟨outcome, alone, ?_⟩
  rw [PhaseList.perFile_of_collected ran]
  exact ⟨rfl, unit, adds⟩

/-- The second file lists a node that does not exist. -/
theorem filePhases_independent_broken :
    let config := Config.withFilePolicy {} .collectAll
    let broken : File := ⟨1, "broken", #[⟨.root, none, [7]⟩], by decide⟩
    let state : State Unit Module := ⟨(), {}, {}, "program", [{ path := "empty" }, broken]⟩
    state.context.cancelled = false ∧ ∃ outcome : File → FileOutcome,
      (∀ file, (outcome file).Describes state.context
        (filePhases.runFile config { state with unit := file })) ∧
      ((ModuleBody.perFile filePhases).run config state).2.unit.files =
        [(outcome { path := "empty" }).file, (outcome broken).file] := by
  intro config broken state
  obtain ⟨outcome, alone, -, unit, -⟩ := filePhases_independent config state rfl
  refine ⟨rfl, outcome, alone, ?_⟩
  rw [unit]
  rfl

end StagedLowering
