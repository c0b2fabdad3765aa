import StagedLowering.Proofs.Frames

/-!
# The two file policies

Both policies run the files one after another in the same way up to the first that fails. There one
stops, and the other goes on and collects further errors. So they agree on whether a run over the
files succeeds, on all that it leaves then, and on the first error otherwise
(`PhaseList.policies_agree`).
-/

namespace StagedLowering

variable {σ υ : Type} {config : Config} {label : String}

/-! ### Phases that do not know the policy -/

theorem Run.forM_congr {ε α : Type} {step other : α → Run σ υ ε Unit} {list : List α}
    (same : ∀ a ∈ list, step a = other a) : list.forM step = list.forM other := by
  induction list with
  | nil => rfl
  | cons a rest ih =>
    rw [Run.forM_cons_eq, Run.forM_cons_eq, same a List.mem_cons_self,
      ih fun b member => same b (List.mem_cons_of_mem _ member)]

section phases

variable {β : Type} [Executable β σ υ] [WorkUnit υ] {policy other : FilePolicy}

theorem Phase.run_withFilePolicy {phase : Phase β}
    (alike : Executable.run phase.body (config.withFilePolicy policy) =
      (Executable.run phase.body (config.withFilePolicy other) : Run σ υ Failure Unit)) :
    (phase.run (config.withFilePolicy policy) label : Run σ υ PhaseError Unit) =
      phase.run (config.withFilePolicy other) label := by
  unfold Phase.run Phase.execute
  rw [alike]
  rfl

theorem PhaseList.run_withFilePolicy {list : PhaseList β}
    (alike : ∀ phase ∈ list.phases,
      Executable.run phase.body (config.withFilePolicy policy) =
        (Executable.run phase.body (config.withFilePolicy other) : Run σ υ Failure Unit)) :
    (list.run (config.withFilePolicy policy) : Run σ υ PhaseError Unit) =
      list.run (config.withFilePolicy other) := by
  funext state
  rw [PhaseList.run_apply, PhaseList.run_apply,
    Run.forM_congr fun phase member => Phase.run_withFilePolicy (alike phase member)]

end phases

theorem PhaseList.runFile_withFilePolicy {list : PhaseList (Body σ File)}
    {policy other : FilePolicy}
    (alike : ∀ phase ∈ list.phases, phase.body.run (config.withFilePolicy policy) =
      phase.body.run (config.withFilePolicy other)) :
    list.runFile (config.withFilePolicy policy) = list.runFile (config.withFilePolicy other) := by
  funext state
  rw [PhaseList.runFile_apply, PhaseList.runFile_apply, PhaseList.run_withFilePolicy alike]

/-! ### Runs that end with a value or an error -/

def Run.Returns {ε α : Type} (act : Run σ υ ε α) : Prop := ∀ state, (act state).1 ≠ .error .fault

theorem Run.returns_forM {ε α : Type} {step : α → Run σ υ ε Unit} {list : List α}
    (returns : ∀ a ∈ list, (step a).Returns) : Run.Returns (list.forM step) := by
  induction list with
  | nil => exact fun _ => nofun
  | cons a rest ih =>
    intro state
    rw [Run.forM_cons_eq, Run.bind_apply]
    have first := returns a List.mem_cons_self state
    rcases ran : step a state with ⟨stop | _, after⟩
    · rwa [ran] at first
    · exact ih (fun b member => returns b (List.mem_cons_of_mem _ member)) after

theorem Phase.returns_run {β : Type} [Executable β σ υ] [WorkUnit υ] {phase : Phase β}
    (body : (Executable.run phase.body config : Run σ υ Failure Unit).Returns) :
    (phase.run config label : Run σ υ PhaseError Unit).Returns := by
  intro state
  rw [Phase.run_apply]
  split
  · nofun
  · split
    · nofun
    · split
      · nofun
      · rw [Phase.execute_apply]
        split
        · nofun
        · nofun
        · next after faulted =>
          exact absurd (congrArg Prod.fst faulted) (body _)

namespace PhaseList

variable {list : PhaseList (Body σ File)}

theorem returns_runFile (returns : ∀ phase ∈ list.phases, (phase.body.run config).Returns) :
    (list.runFile config).Returns := by
  intro state
  rw [runFile_apply]
  split
  · nofun
  · nofun
  · next after faulted =>
    have listReturns : (list.run config).Returns := by
      intro state
      rw [run_apply]
      exact Run.returns_forM (fun phase member => Phase.returns_run (returns phase member)) state
    exact absurd (congrArg Prod.fst faulted) (listReturns _)

theorem returns_onFile (returns : ∀ phase ∈ list.phases, (phase.body.run config).Returns) {i : Nat}
    {state : State σ Module} (within : i < state.unit.files.length) :
    (Run.onFile i (list.runFile config) state).1 ≠ .error .fault := by
  unfold Run.onFile
  rw [List.getElem?_eq_getElem within]
  exact returns_runFile returns _

/-! ### What a run over some files leaves alone -/

def FilesBut (numbers : List Nat) (before after : State σ Module) : Prop :=
  after.unit.files.length = before.unit.files.length ∧
    ∀ j, j ∉ numbers → after.unit.files[j]? = before.unit.files[j]?

theorem ledger_filesBut (numbers : List Nat) :
    Ledger (FilesBut numbers : State σ Module → State σ Module → Prop) where
  trans first second :=
    ⟨second.1.trans first.1, fun j other => (second.2 j other).trans (first.2 j other)⟩
  recorded {before after} recorded := by
    unfold FilesBut
    rw [recorded.unit]
    exact ⟨rfl, fun _ _ => rfl⟩

theorem filesBut_onFile {ε : Type} {act : Run σ File ε Unit} {numbers : List Nat} {i : Nat}
    (member : i ∈ numbers) : (Run.onFile i act).Keeps (FilesBut numbers) := by
  intro state
  unfold Run.onFile
  split
  · exact (ledger_filesBut numbers).refl state
  · refine ⟨List.length_set, fun j other => List.getElem?_set_ne ?_⟩
    exact fun same => other (same ▸ member)

theorem filesBut_runFiles (numbers : List Nat) :
    (list.runFiles config numbers).Keeps (FilesBut numbers) :=
  (ledger_filesBut numbers).runFiles fun _ member => filesBut_onFile member

/-! ### Up to the first file that fails -/

/-- What `runFiles` goes on with after file `i` has failed, if errors are collected. -/
def carriedOn (i : Nat) (error : PhaseError) (last : State σ Module) : State σ Module :=
  { last with trace := last.trace.emit (.fileFailed ((last.unit.files[i]?).elim "" (·.path)) error) }

theorem runFiles_cons_of_collectAll {i : Nat} {rest : List Nat} {error : PhaseError}
    {state last : State σ Module} (policy : config.filePolicy = .collectAll)
    (failed : Run.onFile i (list.runFile config) state = (.error (.error error), last)) :
    list.runFiles config (i :: rest) state =
      match list.runFiles config rest (carriedOn i error last) with
      | (.ok errors, last) => (.ok (error :: errors), last)
      | (.error stop, last) => (.error stop, last) := by
  rw [runFiles_cons, failed, policy]
  rfl

/-- A run that collects errors goes on after one, and ends with a fault only if it does so later. -/
theorem exists_run_of_collectAll {i : Nat} {rest : List Nat} {error : PhaseError}
    {state next last : State σ Module} {result : Except (Stop Failure) (List PhaseError)}
    (policy : config.filePolicy = .collectAll)
    (failed : Run.onFile i (list.runFile config) state = (.error (.error error), next))
    (ran : list.runFiles config (i :: rest) state = (result, last))
    (returned : result ≠ .error .fault) :
    ∃ ended, list.runFiles config rest (carriedOn i error next) = (ended, last) ∧
      ended ≠ .error .fault := by
  rw [runFiles_cons_of_collectAll policy failed] at ran
  rcases onward : list.runFiles config rest (carriedOn i error next) with ⟨stop | errors, final⟩
  · rw [onward] at ran
    cases ran
    exact ⟨_, rfl, fun faulted => returned (by cases faulted; rfl)⟩
  · rw [onward] at ran
    cases ran
    exact ⟨_, rfl, nofun⟩

theorem runFiles_cons_of_failFast {i : Nat} {rest : List Nat} {error : PhaseError}
    {state last : State σ Module} (policy : config.filePolicy = .failFast)
    (failed : Run.onFile i (list.runFile config) state = (.error (.error error), last)) :
    list.runFiles config (i :: rest) state =
      (.error (.error (.inFile ((last.unit.files[i]?).elim "" (·.path)) error)), last) := by
  rw [runFiles_cons, failed, policy]

theorem runFiles_cons_of_ok {i : Nat} {rest : List Nat} {state next : State σ Module}
    (succeeded : Run.onFile i (list.runFile config) state = (.ok (), next)) :
    list.runFiles config (i :: rest) state = list.runFiles config rest next := by
  rw [runFiles_cons, succeeded]

theorem runFiles_append {done : List Nat} {early : List PhaseError} {state middle : State σ Module}
    (ran : list.runFiles config done state = (.ok early, middle)) (rest : List Nat) :
    list.runFiles config (done ++ rest) state =
      ((list.runFiles config rest middle).1.map (early ++ ·),
        (list.runFiles config rest middle).2) := by
  induction done generalizing state early with
  | nil =>
    cases ran
    rw [List.nil_append]
    rcases list.runFiles config rest middle with ⟨stop | errors, last⟩
    · rfl
    · rfl
  | cons i done ih =>
    rw [List.cons_append]
    rcases first : Run.onFile i (list.runFile config) state with ⟨(error | _) | _, after⟩
    · cases policy : config.filePolicy with
      | failFast =>
        rw [runFiles_cons_of_failFast policy first] at ran
        cases ran
      | collectAll =>
        rw [runFiles_cons_of_collectAll policy first] at ran ⊢
        split at ran
        · next more last later =>
          cases ran
          rw [ih later]
          rcases list.runFiles config rest middle with ⟨stop | errors, last⟩
          · rfl
          · rfl
        · cases ran
    · rw [runFiles_cons, first] at ran
      cases ran
    · rw [runFiles_cons_of_ok first] at ran ⊢
      exact ih ran

/-- Files that all succeed succeed under either policy. -/
theorem runFiles_of_failFast {done : List Nat} {state middle : State σ Module}
    {errors : List PhaseError} {policy : FilePolicy}
    (alike : list.runFile (config.withFilePolicy policy) =
      list.runFile (config.withFilePolicy .failFast))
    (ran : list.runFiles (config.withFilePolicy .failFast) done state = (.ok errors, middle)) :
    errors = [] ∧
      list.runFiles (config.withFilePolicy policy) done state = (.ok [], middle) := by
  induction done generalizing state with
  | nil =>
    cases ran
    exact ⟨rfl, rfl⟩
  | cons i done ih =>
    rw [runFiles_cons] at ran
    rw [runFiles_cons, alike]
    rcases first : Run.onFile i (list.runFile (config.withFilePolicy .failFast)) state with
      ⟨(error | _) | _, after⟩
    · rw [first] at ran
      cases ran
    · rw [first] at ran
      cases ran
    · rw [first] at ran
      exact ih ran

/-- After the files `done` have succeeded file `i` fails, which leaves `last`. -/
def FirstFails (config : Config) (list : PhaseList (Body σ File)) (done : List Nat) (i : Nat)
    (error : PhaseError) (state last : State σ Module) : Prop :=
  ∃ middle, list.runFiles config done state = (.ok [], middle) ∧
    Run.onFile i (list.runFile config) middle = (.error (.error error), last)

theorem exists_firstFails {numbers : List Nat} {state last : State σ Module} {failure : Failure}
    (policy : config.filePolicy = .failFast)
    (failed : list.runFiles config numbers state = (.error (.error failure), last)) :
    ∃ done i rest error, numbers = done ++ i :: rest ∧
      list.FirstFails config done i error state last ∧
      failure = .inFile ((last.unit.files[i]?).elim "" (·.path)) error := by
  induction numbers generalizing state with
  | nil => cases failed
  | cons i rest ih =>
    rcases first : Run.onFile i (list.runFile config) state with ⟨(error | _) | _, after⟩
    · cases (runFiles_cons_of_failFast policy first).symm.trans failed
      exact ⟨[], i, rest, error, rfl, ⟨state, rfl, first⟩, rfl⟩
    · rw [runFiles_cons, first] at failed
      cases failed
    · rw [runFiles_cons_of_ok first] at failed
      obtain ⟨done, k, later, error, rfl, ⟨middle, succeeded, here⟩, same⟩ := ih failed
      exact ⟨i :: done, k, later, error, rfl,
        ⟨middle, (runFiles_cons_of_ok first).trans succeeded, here⟩, same⟩

/-- Files that exist are gone through to the end or up to a failure. -/
theorem returns_runFiles (returns : ∀ phase ∈ list.phases, (phase.body.run config).Returns)
    {numbers : List Nat} {state : State σ Module}
    (within : ∀ i ∈ numbers, i < state.unit.files.length) :
    (list.runFiles config numbers state).1 ≠ .error .fault := by
  induction numbers generalizing state with
  | nil => nofun
  | cons i rest ih =>
    have here := returns_onFile returns (within i List.mem_cons_self)
    have kept : FilesBut [i] state (Run.onFile i (list.runFile config) state).2 :=
      filesBut_onFile (List.mem_singleton_self i) state
    have later : ∀ j ∈ rest,
        j < (Run.onFile i (list.runFile config) state).2.unit.files.length := by
      intro j member
      rw [kept.1]
      exact within j (List.mem_cons_of_mem _ member)
    rw [runFiles_cons]
    rcases first : Run.onFile i (list.runFile config) state with ⟨(error | _) | _, after⟩
    · rw [first] at later
      cases config.filePolicy with
      | failFast => nofun
      | collectAll =>
        dsimp only
        split
        · nofun
        · next stop last ran =>
          rintro same
          cases same
          refine absurd (congrArg Prod.fst ran) (ih ?_)
          exact later
    · rw [first] at here
      exact absurd rfl here
    · rw [first] at later
      exact ih later

theorem runFiles_of_collectAll (policy : config.filePolicy = .collectAll) {numbers : List Nat}
    {state : State σ Module} {failure : Failure} :
    (list.runFiles config numbers state).1 ≠ .error (.error failure) := by
  induction numbers generalizing state with
  | nil => nofun
  | cons i rest ih =>
    rw [runFiles_cons, policy]
    split
    · exact ih
    · dsimp only
      split
      · nofun
      · next stop last ran =>
        rintro same
        cases same
        exact ih (congrArg Prod.fst ran)
    · nofun

/-! ### History and diagnostics -/

def Extends (before after : State σ υ) : Prop :=
  before.context.history <+: after.context.history ∧
    before.context.diagnostics <+: after.context.diagnostics

theorem ledger_extends : Ledger (Extends : State σ υ → State σ υ → Prop) where
  trans first second := ⟨first.1.trans second.1, first.2.trans second.2⟩
  recorded recorded := ⟨recorded.history, recorded.diagnostics⟩

theorem extends_leave (state : State σ File) : Extends state (leave state) := by
  obtain ⟨scope, enclosing, exited⟩ := state.context.exists_exitScope
  unfold Extends leave
  rw [exited]
  exact ⟨List.prefix_rfl, List.prefix_rfl⟩

theorem extends_runFile (bodies : ∀ phase ∈ list.phases, (phase.body.run config).Keeps Extends) :
    (list.runFile config).Keeps Extends := by
  intro state
  have ran : Extends (enter state) (list.run config (enter state)).2 :=
    ledger_extends.runList bodies (enter state)
  rw [runFile_apply]
  rcases ended : list.run config (enter state) with ⟨(error | _) | _, after⟩
  · rw [ended] at ran
    exact ledger_extends.trans ran (extends_leave after)
  · rw [ended] at ran
    exact ran
  · rw [ended] at ran
    exact ledger_extends.trans ran (extends_leave after)

theorem extends_runFiles (bodies : ∀ phase ∈ list.phases, (phase.body.run config).Keeps Extends)
    (numbers : List Nat) : (list.runFiles config numbers).Keeps Extends := by
  refine ledger_extends.runFiles fun i _ state => ?_
  unfold Run.onFile
  split
  · exact ledger_extends.refl state
  · next file found => exact extends_runFile bodies { state with unit := file }

/-! ### The two policies -/

/-- Where one policy ends the run, the other keeps the error and goes through the files left. -/
theorem runFiles_of_firstFails {done rest : List Nat} {i : Nat} {error : PhaseError}
    {state last : State σ Module}
    (alike : list.runFile (config.withFilePolicy .collectAll) =
      list.runFile (config.withFilePolicy .failFast))
    (returns : ∀ phase ∈ list.phases,
      (phase.body.run (config.withFilePolicy .collectAll)).Returns)
    (within : ∀ j ∈ rest, j < last.unit.files.length)
    (fails : list.FirstFails (config.withFilePolicy .failFast) done i error state last) :
    ∃ more final,
      list.runFiles (config.withFilePolicy .collectAll) (done ++ i :: rest) state =
        (.ok (error :: more), final) ∧
      list.runFiles (config.withFilePolicy .collectAll) rest (carriedOn i error last) =
        (.ok more, final) := by
  obtain ⟨middle, succeeded, here⟩ := fails
  have allSucceeded := (runFiles_of_failFast alike succeeded).2
  rw [← alike] at here
  rw [runFiles_append allSucceeded, runFiles_cons_of_collectAll rfl here]
  have onward : ∀ j ∈ rest, j < (carriedOn i error last).unit.files.length := within
  rcases ran : list.runFiles (config.withFilePolicy .collectAll) rest (carriedOn i error last) with
    ⟨(failure | _) | more, final⟩
  · exact absurd (congrArg Prod.fst ran) (runFiles_of_collectAll rfl)
  · exact absurd (congrArg Prod.fst ran) (returns_runFiles returns onward)
  · exact ⟨more, final, rfl, rfl⟩

theorem filesBut_of_firstFails {done : List Nat} {i : Nat} {error : PhaseError}
    {state last : State σ Module} (fails : list.FirstFails config done i error state last) :
    FilesBut (done ++ [i]) state last := by
  obtain ⟨middle, succeeded, here⟩ := fails
  have before : FilesBut done state middle := (filesBut_runFiles done).of_eq succeeded
  have after : FilesBut [i] middle last :=
    (filesBut_onFile (List.mem_singleton_self i)).of_eq here
  refine ⟨after.1.trans before.1, fun j other => ?_⟩
  rw [List.mem_append, not_or] at other
  exact (after.2 j other.2).trans (before.2 j other.1)

theorem range_split {count i : Nat} {done rest : List Nat}
    (split : List.range count = done ++ i :: rest) :
    i < count ∧ done = List.range i ∧ rest = List.range' (i + 1) (count - i - 1) := by
  rw [List.range_eq_range'] at split
  obtain ⟨before, within, rfl, tail⟩ := List.range'_eq_append_iff.mp split
  obtain ⟨here, some, rfl⟩ := List.range'_eq_cons_iff.mp tail.symm
  obtain rfl : before = i := by omega
  exact ⟨by omega, List.range_eq_range'.symm, rfl⟩

/-- The policies agree on success and on what is left then. Otherwise the first error that is
collected is the one that ends the other run, and the files up to the one that failed are left
alike. -/
theorem policies_agree
    (alike : ∀ phase ∈ list.phases, phase.body.run (config.withFilePolicy .failFast) =
      phase.body.run (config.withFilePolicy .collectAll))
    (returns : ∀ phase ∈ list.phases,
      (phase.body.run (config.withFilePolicy .failFast)).Returns) (state : State σ Module) :
    let fast := (ModuleBody.perFile list).run (config.withFilePolicy .failFast) state
    let all := (ModuleBody.perFile list).run (config.withFilePolicy .collectAll) state
    (fast.1 = .ok () ↔ all.1 = .ok ()) ∧
    (fast.1 = .ok () → all = fast) ∧
    (fast.1 ≠ .ok () → ∃ i path error more,
      all.1 = .error (.error (.inFiles (error :: more))) ∧
      fast.1 = .error (.error (.inFile path error)) ∧
      list.FirstFails (config.withFilePolicy .failFast) (List.range i) i error state fast.2 ∧
      (fast.2.unit.files[i]?).map (·.path) = some path ∧
      (∀ j, j ≤ i → all.2.unit.files[j]? = fast.2.unit.files[j]?) ∧
      (∀ j, i < j → fast.2.unit.files[j]? = state.unit.files[j]?) ∧
      ((∀ phase ∈ list.phases,
          (phase.body.run (config.withFilePolicy .failFast)).Keeps Extends) →
        Extends fast.2 all.2)) := by
  intro fast all
  have sameFile : list.runFile (config.withFilePolicy .collectAll) =
      list.runFile (config.withFilePolicy .failFast) :=
    runFile_withFilePolicy fun phase member => (alike phase member).symm
  have fastEq : fast = _ := perFile_apply (config.withFilePolicy .failFast) list state
  have allEq : all = _ := perFile_apply (config.withFilePolicy .collectAll) list state
  clear_value fast all
  rcases ran : list.runFiles (config.withFilePolicy .failFast)
    (List.range state.unit.files.length) state with ⟨(failure | _) | errors, last⟩
  · obtain ⟨done, i, rest, error, split, fails, rfl⟩ := exists_firstFails rfl ran
    obtain ⟨here, rfl, rfl⟩ := range_split split
    have untouched := filesBut_of_firstFails fails
    have within : ∀ j ∈ List.range' (i + 1) (state.unit.files.length - i - 1),
        j < last.unit.files.length := by
      intro j member
      have := List.mem_range'_1.mp member
      rw [untouched.1]
      omega
    obtain ⟨more, final, allRan, onward⟩ := runFiles_of_firstFails sameFile
      (fun phase member => alike phase member ▸ returns phase member) within fails
    rw [ran] at fastEq
    rw [split, allRan] at allEq
    subst fastEq allEq
    refine ⟨⟨nofun, nofun⟩, nofun, fun _ => ⟨i, _, error, more, rfl, rfl, fails, ?_, ?_, ?_, ?_⟩⟩
    · rw [← untouched.1] at here
      simp [here]
    · -- The numbers of the files left are beyond `i`.
      intro j upTo
      have kept := (filesBut_runFiles _).of_eq onward
      refine kept.2 j fun member => ?_
      have := List.mem_range'_1.mp member
      omega
    · intro j beyond
      refine untouched.2 j fun member => ?_
      rw [List.mem_append, List.mem_range, List.mem_singleton] at member
      omega
    · intro bodies
      have carried : ∀ phase ∈ list.phases,
          (phase.body.run (config.withFilePolicy .collectAll)).Keeps Extends :=
        fun phase member => alike phase member ▸ bodies phase member
      have extended : Extends (carriedOn i error last) final :=
        (extends_runFiles carried _).of_eq onward
      exact extended
  · refine absurd (congrArg Prod.fst ran) (returns_runFiles returns fun i member => ?_)
    exact List.mem_range.mp member
  · obtain ⟨rfl, allRan⟩ := runFiles_of_failFast sameFile ran
    rw [ran] at fastEq
    rw [allRan] at allEq
    subst fastEq allEq
    exact ⟨Iff.rfl, fun _ => rfl, fun failed => absurd rfl failed⟩

/-- One phase, which fails on the file numbered 1 and does this on the others. -/
def failingOnOne (act : Run Unit File Failure Unit) : PhaseList (Body Unit File) where
  phases := [.alone "stop" "stop at a file" (.transform fun _ state =>
    if state.unit.id = 1 then (.error (.error .cancelled), state) else act state)]
  ordered := rfl

def countingBut : PhaseList (Body Unit File) :=
  failingOnOne (Run.onContext (·.bump "seen" 1))

def threeFiles : State Unit Module := ⟨(), {}, {}, "program", [
  ⟨0, "a", #[⟨.root, none, []⟩], by decide⟩, ⟨1, "b", #[⟨.root, none, []⟩], by decide⟩,
  ⟨2, "c", #[⟨.root, none, []⟩], by decide⟩]⟩

/-- A body that drops the diagnostics drops what the other policy keeps. One that faults on a later
file is reached under one policy only. -/
theorem policies_part_ways :
    let run (act : Run Unit File Failure Unit) (policy : FilePolicy) :=
      (ModuleBody.perFile (failingOnOne act)).run (Config.withFilePolicy {} policy) threeFiles
    let forget := Run.onContext ({ · with diagnostics := [] })
    let faultLate : Run Unit File Failure Unit := fun state =>
      if state.unit.id = 2 then (.error .fault, state) else (.ok (), state)
    (∀ act, ∀ phase ∈ (failingOnOne act).phases,
      phase.body.run (Config.withFilePolicy {} .failFast) =
        phase.body.run (Config.withFilePolicy {} .collectAll)) ∧
    ((run forget .failFast).1 ≠ .ok () ∧
      ¬ (run forget .failFast).2.context.diagnostics <+:
        (run forget .collectAll).2.context.diagnostics) ∧
    (run faultLate .failFast).1 ≠ .error .fault ∧
      (run faultLate .collectAll).1 = .error .fault := by
  intro run forget faultLate
  have failed : (run forget .failFast).1.isOk = false := by decide +kernel
  have faulted : Run.faulted (run faultLate .collectAll).1 = true := by decide +kernel
  refine ⟨fun act phase member => ?_, ⟨fun ok => ?_, ?_⟩, ?_, ?_⟩
  · rw [List.mem_singleton.mp member]
    rfl
  · rw [ok] at failed
    cases failed
  · decide +kernel
  · exact Run.faulted_eq_false_iff.mp (by decide +kernel)
  · by_contra other
    rw [Run.faulted_eq_false_iff.mpr other] at faulted
    cases faulted

theorem policies_agree_countingBut :
    let fast := (ModuleBody.perFile countingBut).run (Config.withFilePolicy {} .failFast) threeFiles
    let all := (ModuleBody.perFile countingBut).run (Config.withFilePolicy {} .collectAll) threeFiles
    (∀ phase ∈ countingBut.phases,
      phase.body.run (Config.withFilePolicy {} .failFast) =
        phase.body.run (Config.withFilePolicy {} .collectAll) ∧
      (phase.body.run (Config.withFilePolicy {} .failFast)).Returns ∧
      (phase.body.run (Config.withFilePolicy {} .failFast)).Keeps Extends) ∧
    fast.1 ≠ .ok () ∧
    ∃ i path error more, all.1 = .error (.error (.inFiles (error :: more))) ∧
      fast.1 = .error (.error (.inFile path error)) ∧
      (fast.2.unit.files[i]?).map (·.path) = some path ∧
      fast.2.unit.files[i + 1]? = threeFiles.unit.files[i + 1]? ∧ Extends fast.2 all.2 := by
  have bodies : ∀ phase ∈ countingBut.phases,
      phase.body.run (Config.withFilePolicy {} .failFast) =
        phase.body.run (Config.withFilePolicy {} .collectAll) ∧
      (phase.body.run (Config.withFilePolicy {} .failFast)).Returns ∧
      (phase.body.run (Config.withFilePolicy {} .failFast)).Keeps Extends := by
    intro phase member
    rw [List.mem_singleton.mp member]
    refine ⟨rfl, fun state => ?_, fun state => ?_⟩
    · show (ite (state.unit.id = 1) _ _ : Except (Stop Failure) Unit × State Unit File).1 ≠ _
      split <;> nofun
    · show Extends state (ite (state.unit.id = 1) _ _ : Except (Stop Failure) Unit × _).2
      split <;> exact ⟨List.prefix_rfl, List.prefix_rfl⟩
  have failed : ((ModuleBody.perFile countingBut).run (Config.withFilePolicy {} .failFast)
      threeFiles).1 ≠ .ok () := by
    have stuck : ((ModuleBody.perFile countingBut).run (Config.withFilePolicy {} .failFast)
      threeFiles).1.isOk = false := rfl
    intro ok
    rw [ok] at stuck
    cases stuck
  obtain ⟨-, -, stops⟩ := policies_agree (fun phase member => (bodies phase member).1)
    (fun phase member => (bodies phase member).2.1) threeFiles
  obtain ⟨i, path, error, more, collected, stopped, -, here, -, later, extended⟩ := stops failed
  exact ⟨bodies, failed, i, path, error, more, collected, stopped, here, later _ (by omega),
    extended fun phase member => (bodies phase member).2.2⟩

end PhaseList

end StagedLowering
