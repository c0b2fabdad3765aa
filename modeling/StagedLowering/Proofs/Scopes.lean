import StagedLowering.Proofs.Leaving
import StagedLowering.Proofs.Levels

/-!
# Scopes

Whatever bodies do with scopes, the scopes stay nested under the root scope
(`Context.Reaches.wellNested`). The list of a file always starts in a scope of its own
(`PhaseList.starts_fresh`), and in no other state (`PhaseList.perFile_congr`). A file gives back the
scopes as it found them if its bodies pop what they pushed and nothing else
(`PhaseList.scopes_perFile`).
-/

namespace StagedLowering

variable {σ : Type} {config : Config}

namespace Context

/-! ### Nesting -/

def scopes (context : Context) : List Scope := (context.scope :: context.enclosing).reverse

def Nested : Scope → List Scope → Prop
  | root, [] => root.label = "root" ∧ root.depth = 0
  | scope, outside :: enclosing => scope.depth = outside.depth + 1 ∧ Nested outside enclosing

def WellNested (context : Context) : Prop := Nested context.scope context.enclosing

theorem Nested.of_same {scope other : Scope} {enclosing : List Scope}
    (nested : Nested scope enclosing) (label : other.label = scope.label)
    (depth : other.depth = scope.depth) : Nested other enclosing := by
  cases enclosing with
  | nil => exact ⟨label.trans nested.1, depth.trans nested.2⟩
  | cons outside enclosing => exact ⟨depth.trans nested.1, nested.2⟩

theorem Nested.depth {scope : Scope} {enclosing : List Scope} (nested : Nested scope enclosing) :
    scope.depth = enclosing.length := by
  induction enclosing generalizing scope with
  | nil => exact nested.2
  | cons outside enclosing ih => rw [nested.1, ih nested.2, List.length_cons]

theorem Nested.at_depth {scope : Scope} {enclosing : List Scope} (nested : Nested scope enclosing)
    {i : Nat} {found : Scope} (entry : (scope :: enclosing).reverse[i]? = some found) :
    found.depth = i := by
  induction enclosing generalizing scope i with
  | nil =>
    obtain ⟨rfl, rfl⟩ : i = 0 ∧ scope = found := by simpa [List.getElem?_singleton] using entry
    exact nested.2
  | cons outside enclosing ih =>
    rw [List.reverse_cons, List.getElem?_append] at entry
    split at entry
    · exact ih nested.2 entry
    · next beyond =>
      obtain ⟨last, rfl⟩ : i - (outside :: enclosing).reverse.length = 0 ∧ scope = found := by
        simpa [List.getElem?_singleton] using entry
      rw [nested.depth]
      rw [List.length_reverse] at beyond last
      omega

theorem Nested.bottom {scope : Scope} {enclosing : List Scope} (nested : Nested scope enclosing) :
    ∃ root, (scope :: enclosing).reverse.head? = some root ∧ root.label = "root" := by
  induction enclosing generalizing scope with
  | nil => exact ⟨scope, rfl, nested.1⟩
  | cons outside enclosing ih =>
    obtain ⟨root, bottom, named⟩ := ih nested.2
    rw [List.reverse_cons, List.head?_append, bottom]
    exact ⟨root, rfl, named⟩

theorem WellNested.enterScope {context : Context} (nested : context.WellNested) (label : String) :
    (context.enterScope label).WellNested :=
  ⟨rfl, nested⟩

/-- The root scope is never left. -/
theorem WellNested.exitScope {context : Context} (nested : context.WellNested) :
    context.exitScope.WellNested := by
  unfold Context.exitScope
  cases around : context.enclosing with
  | nil => exact nested
  | cons outside enclosing =>
    unfold WellNested at nested
    rw [around] at nested
    exact nested.2

theorem WellNested.noted {υ : Type} {before after : State σ υ} (noted : before.Noted after)
    (nested : before.context.WellNested) : after.context.WellNested := by
  unfold WellNested
  rw [noted.enclosing]
  exact nested.of_same noted.label noted.depth

/-! ### What bodies do with scopes -/

/-- What can be written in the innermost scope, and anything that does not concern scopes. -/
inductive Writes (before : Context) : Context → Prop
  | markDone (phase : PhaseId) : Writes before (before.markDone phase)
  | markSkipped (phase : PhaseId) : Writes before (before.markSkipped phase)
  | scratch (scratch : Scratch) :
    Writes before { before with scope := { before.scope with scratch } }
  | elsewhere {after : Context} (scope : after.scope = before.scope)
    (enclosing : after.enclosing = before.enclosing) : Writes before after

namespace Writes

variable {before after : Context}

theorem enclosing (writes : before.Writes after) : after.enclosing = before.enclosing := by
  cases writes with
  | markDone | markSkipped | scratch => rfl
  | elsewhere _ enclosing => exact enclosing

theorem wellNested (writes : before.Writes after) (nested : before.WellNested) :
    after.WellNested := by
  cases writes with
  | markDone | markSkipped | scratch => exact nested.of_same rfl rfl
  | elsewhere scope enclosing =>
    unfold WellNested
    rw [scope, enclosing]
    exact nested

end Writes

/-- What can be reached by scope operations in any order, and by running lists whose bodies do no
more than that. -/
inductive Reaches : Context → Context → Prop
  | refl (context : Context) : Reaches context context
  | write {before middle after : Context} (first : Reaches before middle)
    (writes : middle.Writes after) : Reaches before after
  | enter {before middle : Context} (first : Reaches before middle) (label : String) :
    Reaches before (middle.enterScope label)
  | exit {before middle : Context} (first : Reaches before middle) : Reaches before middle.exitScope
  | run {before : Context} {β σ υ : Type} [Executable β σ υ] [WorkUnit υ] (config : Config)
    (list : PhaseList β) (state : State σ υ) (first : Reaches before state.context)
    (bodies : ∀ phase ∈ list.phases, ∀ state : State σ υ,
      Reaches state.context (Executable.run phase.body config state).2.context) :
    Reaches before (list.run config state).2.context
  | perFile {before : Context} {σ : Type} (config : Config) (list : PhaseList (Body σ File))
    (state : State σ Module) (first : Reaches before state.context)
    (bodies : ∀ phase ∈ list.phases, ∀ state : State σ File,
      Reaches state.context (phase.body.run config state).2.context) :
    Reaches before ((ModuleBody.perFile list).run config state).2.context

/-- A body pops only scopes that it pushed, and all of them. -/
inductive Balanced : Context → Context → Prop
  | refl (context : Context) : Balanced context context
  | write {before after : Context} (writes : before.Writes after) : Balanced before after
  | nest {before after : Context} (label : String)
    (inside : Balanced (before.enterScope label) after) : Balanced before after.exitScope
  | trans {before middle after : Context} (first : Balanced before middle)
    (rest : Balanced middle after) : Balanced before after

theorem Balanced.enclosing {before after : Context} (balanced : before.Balanced after) :
    after.enclosing = before.enclosing := by
  induction balanced with
  | refl => rfl
  | write writes => exact writes.enclosing
  | nest label inside ih => rw [exitScope_of_enclosing ih]
  | trans first rest ihFirst ihRest => exact ihRest.trans ihFirst

end Context

/-! ### Nesting at all times -/

def State.NestsOn {σ υ : Type} (before after : State σ υ) : Prop :=
  before.context.WellNested → after.context.WellNested

theorem frame_nestsOn {σ υ : Type} : Frame (State.NestsOn (σ := σ) (υ := υ)) where
  trans left right nested := right (left nested)
  noted noted nested := nested.noted noted

theorem PhaseList.nestsOn_onFile {list : PhaseList (Body σ File)}
    (bodies : ∀ phase ∈ list.phases, (phase.body.run config).Keeps State.NestsOn) (i : Nat) :
    (Run.onFile i (list.runFile config)).Keeps State.NestsOn := by
  intro state nested
  unfold Run.onFile
  cases state.unit.files[i]? with
  | none => exact nested
  | some file =>
    have entered : (enter { state with unit := file }).context.WellNested :=
      nested.enterScope file.label
    have ran := frame_nestsOn.runList bodies (enter { state with unit := file }) entered
    dsimp only
    rw [runFile_apply]
    rcases ended : list.run config (enter { state with unit := file }) with ⟨(error | _) | _, after⟩
    · rw [ended] at ran
      exact ran.exitScope
    · rw [ended] at ran
      exact ran
    · rw [ended] at ran
      exact ran.exitScope

theorem PhaseList.nestsOn_perFile {list : PhaseList (Body σ File)}
    (bodies : ∀ phase ∈ list.phases, (phase.body.run config).Keeps State.NestsOn) :
    ((ModuleBody.perFile list).run config).Keeps State.NestsOn := by
  intro state
  rcases files : list.runFiles config (List.range state.unit.files.length) state with ⟨ended, after⟩
  rw [perFile_of_runFiles files]
  exact (frame_nestsOn.ledger.runFiles fun i _ => nestsOn_onFile bodies i).of_eq files

theorem Context.Reaches.wellNested {before after : Context} (reaches : before.Reaches after)
    (nested : before.WellNested) : after.WellNested := by
  -- For a list the induction hypothesis is about every call of its bodies, not about one.
  induction reaches with
  | refl => exact nested
  | write first writes ih => exact writes.wellNested (ih nested)
  | enter first label ih => exact (ih nested).enterScope label
  | exit first ih => exact (ih nested).exitScope
  | run config list state first bodies ih ihBodies =>
    exact frame_nestsOn.runList ihBodies state (ih nested)
  | perFile config list state first bodies ih ihBodies =>
    exact PhaseList.nestsOn_perFile ihBodies state (ih nested)

/-! ### The scope of a file -/

structure State.Fresh {σ υ : Type} [WorkUnit υ] (start : State σ υ) : Prop where
  label : start.context.scope.label = WorkUnit.label start.unit
  depth : ∃ outside enclosing, start.context.enclosing = outside :: enclosing ∧
    start.context.scope.depth = outside.depth + 1
  done : ∀ phase, start.context.scope.isDone phase = false
  executed : start.context.scope.executed = []
  skipped : start.context.scope.skipped = []
  scratch : start.context.scope.scratch = {}

/-- A phase runs alike with another body of its kind that does the same. -/
theorem Phase.run_congr {β υ : Type} [Executable β σ υ] [WorkUnit υ] (phase : Phase β) {body : β}
    {label : String} {state : State σ υ}
    (kind : Executable.kind body = Executable.kind phase.body)
    (same : Executable.run body config (phase.begin config label state) =
      Executable.run phase.body config (phase.begin config label state)) :
    ({ phase with body } : Phase β).run config label state = phase.run config label state := by
  have begun : ({ phase with body } : Phase β).begin config label state =
      phase.begin config label state := by
    unfold Phase.begin
    rw [kind]
  have executed (depth : Nat) : ({ phase with body } : Phase β).execute config label depth state =
      phase.execute config label depth state := by
    rw [Phase.execute_apply, Phase.execute_apply, begun, same]
    rfl
  rw [Phase.run_apply, Phase.run_apply, executed]
  rfl

namespace PhaseList

theorem fresh_enter (state : State σ File) : (enter state).Fresh where
  label := rfl
  depth := ⟨state.context.scope, state.context.enclosing, rfl, rfl⟩
  done _ := rfl
  executed := rfl
  skipped := rfl
  scratch := rfl

variable {list other : PhaseList (Body σ File)}

/-- The list starts on the files in their order, each as it was at first. -/
theorem starts_fresh {numbers : List Nat} (nodup : numbers.Nodup) {state : State σ Module} {j : Nat}
    {start : State σ File} (found : (list.starts config numbers state)[j]? = some start) :
    start.Fresh ∧ ∃ i, numbers[j]? = some i ∧ state.unit.files[i]? = some start.unit := by
  induction numbers generalizing state j with
  | nil => cases found
  | cons i rest ih =>
    obtain ⟨absent, nodupRest⟩ := List.nodup_cons.mp nodup
    have kept : FilesBut [i] state (Run.onFile i (list.runFile config) state).2 :=
      filesBut_onFile (List.mem_singleton_self i) state
    have later (next : State σ Module) {k : Nat}
        (files : ∀ j, j ∉ [i] → next.unit.files[j]? = state.unit.files[j]?)
        (found : (list.starts config rest next)[k]? = some start) :
        start.Fresh ∧ ∃ n, (i :: rest)[k + 1]? = some n ∧ state.unit.files[n]? = some start.unit := by
      obtain ⟨fresh, n, number, here⟩ := ih nodupRest found
      have differs : n ∉ [i] := fun same =>
        absent (List.mem_singleton.mp same ▸ List.mem_of_getElem? number)
      exact ⟨fresh, n, number, (files n differs).symm.trans here⟩
    rw [starts] at found
    cases entry : state.unit.files[i]? with
    | none =>
      rw [entry] at found
      cases found
    | some file =>
      rw [entry] at found
      cases j with
      | zero =>
        cases found
        exact ⟨fresh_enter _, i, rfl, entry⟩
      | succ k =>
        rw [List.getElem?_cons_succ] at found
        rcases first : Run.onFile i (list.runFile config) state with ⟨(error | _) | _, next⟩
        · rw [first] at found kept
          cases policy : config.filePolicy with
          | failFast =>
            simp only [policy] at found
            cases found
          | collectAll =>
            simp only [policy] at found
            exact later (carriedOn i error next) kept.2 found
        · rw [first] at found
          cases found
        · rw [first] at found kept
          exact later next kept.2 found

theorem onFile_congr {i : Nat} {state : State σ Module}
    (same : ∀ file, state.unit.files[i]? = some file →
      other.run config (enter { state with unit := file }) =
        list.run config (enter { state with unit := file })) :
    Run.onFile i (other.runFile config) state = Run.onFile i (list.runFile config) state := by
  unfold Run.onFile
  cases found : state.unit.files[i]? with
  | none => rfl
  | some file =>
    dsimp only
    rw [runFile_apply, runFile_apply, same file found]

theorem runFiles_congr {numbers : List Nat} {state : State σ Module}
    (same : ∀ start ∈ list.starts config numbers state,
      other.run config start = list.run config start) :
    other.runFiles config numbers state = list.runFiles config numbers state := by
  induction numbers generalizing state with
  | nil => rfl
  | cons i rest ih =>
    rw [starts] at same
    have here : Run.onFile i (other.runFile config) state =
        Run.onFile i (list.runFile config) state := by
      refine onFile_congr fun file found => ?_
      rw [found] at same
      exact same _ List.mem_cons_self
    rw [runFiles_cons, runFiles_cons, here]
    cases found : state.unit.files[i]? with
    | none =>
      have faulted : Run.onFile i (list.runFile config) state = (.error .fault, state) := by
        unfold Run.onFile
        rw [found]
      rw [faulted]
    | some file =>
      rw [found] at same
      rcases first : Run.onFile i (list.runFile config) state with ⟨(error | _) | _, next⟩
      · rw [first] at same
        cases policy : config.filePolicy with
        | failFast => rfl
        | collectAll =>
          simp only [policy] at same
          have onward := ih fun start member => same start (List.mem_cons_of_mem _ member)
          unfold carriedOn at onward
          dsimp only
          rw [onward]
      · rfl
      · rw [first] at same
        exact ih fun start member => same start (List.mem_cons_of_mem _ member)

/-- A phase over the files runs its list in the states `starts` and in no others. -/
theorem perFile_congr {state : State σ Module}
    (same : ∀ start ∈ list.starts config (List.range state.unit.files.length) state,
      other.run config start = list.run config start) :
    (ModuleBody.perFile other).run config state = (ModuleBody.perFile list).run config state := by
  rw [perFile_apply, perFile_apply, runFiles_congr same]

/-! ### The scopes around a file -/

theorem frame_enclosing {υ : Type} : Frame fun before after : State σ υ =>
    after.context.enclosing = before.context.enclosing where
  trans left right := right.trans left
  noted noted := noted.enclosing

theorem scopes_onFile
    (balanced : ∀ phase ∈ list.phases, (phase.body.run config).Leaves fun before after =>
      before.context.Balanced after.context) (i : Nat) :
    (Run.onFile i (list.runFile config)).Leaves fun before after =>
      after.context.scopes = before.context.scopes := by
  intro state next result ran returned
  obtain ⟨file, last, found, ended, rfl⟩ := exists_run_of_onFile ran returned
  have around : last.context.enclosing = state.context.scope :: state.context.enclosing :=
    frame_enclosing.ledger.leaves_runList
      (fun phase member _ _ _ called calledReturned =>
        (balanced phase member called calledReturned).enclosing) ended returned
  show (leave last).context.scopes = state.context.scopes
  unfold leave Context.scopes
  rw [Context.exitScope_of_enclosing around]

theorem scopes_perFile
    (balanced : ∀ phase ∈ list.phases, (phase.body.run config).Leaves fun before after =>
      before.context.Balanced after.context) :
    ((ModuleBody.perFile list).run config).Leaves fun before after =>
      after.context.scopes = before.context.scopes :=
  leaves_perFile (fun before after => after.scopes = before.scopes) (fun _ => rfl)
    (fun first second => second.trans first) (scopes_onFile balanced)

end PhaseList

/-- The scopes are nested whatever happens, each file gets a fresh one, and balanced bodies leave
those around the file as they were. -/
theorem scopes_isolated (config : Config) :
    (∀ context : Context, Context.Reaches {} context →
      context.scopes ≠ [] ∧
        (∀ (i : Nat) (scope : Scope), context.scopes[i]? = some scope → scope.depth = i) ∧
        ∃ root, context.scopes.head? = some root ∧ root.label = "root") ∧
    (∀ (list : PhaseList (Body σ File)) (state : State σ Module),
      (∀ (j : Nat) (start : State σ File),
        (list.starts config (List.range state.unit.files.length) state)[j]? = some start →
        start.Fresh ∧ state.unit.files[j]? = some start.unit) ∧
      ∀ other : PhaseList (Body σ File),
        (∀ start ∈ list.starts config (List.range state.unit.files.length) state,
          other.run config start = list.run config start) →
        (ModuleBody.perFile other).run config state =
          (ModuleBody.perFile list).run config state) ∧
    ∀ (list : PhaseList (Body σ File)) (state last : State σ Module)
      (result : Except (Stop Failure) Unit),
      (∀ phase ∈ list.phases, (phase.body.run config).Leaves fun before after =>
        before.context.Balanced after.context) →
      (ModuleBody.perFile list).run config state = (result, last) → result ≠ .error .fault →
      last.context.scopes = state.context.scopes := by
  refine ⟨fun context reaches => ?_, fun list state => ⟨fun j start found => ?_, ?_⟩, ?_⟩
  · have nested : Context.Nested context.scope context.enclosing :=
      reaches.wellNested (show Context.WellNested {} from ⟨rfl, rfl⟩)
    exact ⟨by simp [Context.scopes], fun i scope => nested.at_depth, nested.bottom⟩
  · obtain ⟨fresh, i, number, here⟩ := PhaseList.starts_fresh List.nodup_range found
    obtain ⟨within, same⟩ := List.getElem?_eq_some_iff.mp number
    rw [List.getElem_range] at same
    exact ⟨fresh, same ▸ here⟩
  · exact fun other => PhaseList.perFile_congr
  · exact fun list state last result balanced ran => PhaseList.scopes_perFile balanced ran

namespace PhaseList

def probe : Run Unit File Failure Unit := do
  Run.onContext (·.enterScope "inner")
  Run.onContext (·.markDone "draft")
  Run.onContext (·.exitScope)
  Run.fail .cancelled

def looking (body : Run Unit File Failure Unit) : Phase (Body Unit File) :=
  .alone "probe" "look inside" (.transform fun _ => body)

/-- Fails after it has left a scope of its own. -/
def probing : PhaseList (Body Unit File) where
  phases := [looking probe]
  ordered := rfl

def wary : PhaseList (Body Unit File) where
  phases := [looking do if (← Run.getContext).scope.executed = [] then probe else Run.fault]
  ordered := rfl

theorem run_wary {start : State Unit File} (fresh : start.context.scope.executed = []) :
    wary.run {} start = probing.run {} start := by
  have alone (phase : Phase (Body Unit File)) (label : String) :
      [phase].forM (Phase.run {} label) start = phase.run {} label start := by
    rw [Run.forM_cons_eq, Run.bind_apply]
    rcases phase.run {} label start with ⟨stop | _, last⟩
    · rfl
    · rfl
  have guarded {state : State Unit File} (same : state.context.scope.executed = []) :
      (do if (← Run.getContext).scope.executed = [] then probe else Run.fault) state = probe state := by
    rw [Run.bind_of_ok (Run.getContext_apply state), if_pos same]
  have body (label : String) :
      (looking do if (← Run.getContext).scope.executed = [] then probe else Run.fault).run {} label
        start = (looking probe).run {} label start :=
    Phase.run_congr (looking probe) rfl (guarded fresh)
  exact (alone _ _).trans ((body _).trans (alone _ _).symm)

theorem scopes_isolated_probing :
    let starts := probing.starts {} (List.range oneFile.unit.files.length) oneFile
    let run := (ModuleBody.perFile probing).run {} oneFile
    (Context.Reaches {} run.2.context ∧
      ∀ (i : Nat) (scope : Scope),
        run.2.context.scopes[i]? = some scope → scope.depth = i) ∧
    (∃ start, starts[0]? = some start ∧ start.Fresh ∧
      oneFile.unit.files[0]? = some start.unit) ∧
    ((∀ start ∈ starts, wary.run {} start = probing.run {} start) ∧
      (ModuleBody.perFile wary).run {} oneFile = run) ∧
    (∀ phase ∈ probing.phases, (phase.body.run {}).Leaves fun before after =>
      before.context.Balanced after.context) ∧
    run.1 ≠ .error .fault ∧ run.2.context.scopes = oneFile.context.scopes := by
  intro starts run
  obtain ⟨nested, files, around⟩ := scopes_isolated (σ := Unit) {}
  obtain ⟨fresh, alike⟩ := files probing oneFile
  have probed (context : Context) :
      Context.Reaches context ((context.enterScope "inner").markDone "draft").exitScope :=
    .exit (.write (.enter (.refl context) "inner") (.markDone "draft"))
  have reaches : Context.Reaches {} run.2.context := by
    refine .perFile {} probing oneFile (.refl {}) fun phase member state => ?_
    rw [List.mem_singleton.mp member]
    exact probed state.context
  have balanced : ∀ phase ∈ probing.phases, (phase.body.run {}).Leaves fun before after =>
      before.context.Balanced after.context := by
    intro phase member state last result ran _
    rw [List.mem_singleton.mp member] at ran
    cases ran
    exact .nest "inner" (.write (.markDone "draft"))
  have same : ∀ start ∈ starts, wary.run {} start = probing.run {} start := by
    intro start member
    obtain ⟨j, found⟩ := List.getElem?_of_mem member
    exact run_wary (fresh j start found).1.executed
  have returned : run.1 ≠ .error .fault := Run.faulted_eq_false_iff.mp (by decide +kernel)
  refine ⟨⟨reaches, (nested _ reaches).2.1⟩, ?_, ⟨same, alike wary same⟩, balanced, returned, ?_⟩
  · exact ⟨_, rfl, fresh 0 _ rfl⟩
  · exact around probing oneFile run.2 run.1 balanced rfl returned

end PhaseList

end StagedLowering
