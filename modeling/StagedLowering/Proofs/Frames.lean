import Mathlib.Data.List.Forall2
import StagedLowering.Proofs.Passes

/-!
# What runs keep

A relation between the states before and after a run that does not look at what runners write down
(`Ledger`, `Frame`) holds of a whole list of phases as soon as it holds of their bodies
(`Ledger.runList`), however the run ends. Over a module it holds file by file (`Carried.runFiles`).
-/

namespace StagedLowering

variable {σ υ : Type}

/-- A relation that passes from step to step and does not notice what runners write down. -/
structure Ledger (rel : State σ υ → State σ υ → Prop) : Prop where
  trans : ∀ {first middle last}, rel first middle → rel middle last → rel first last
  recorded : ∀ {before after}, before.Recorded after → rel before after

/-- A relation that also holds where records and diagnostics are lost. -/
structure Frame (rel : State σ υ → State σ υ → Prop) : Prop where
  trans : ∀ {first middle last}, rel first middle → rel middle last → rel first last
  noted : ∀ {before after}, before.Noted after → rel before after

def Run.Keeps {ε α : Type} (rel : State σ υ → State σ υ → Prop) (act : Run σ υ ε α) : Prop :=
  ∀ state, rel state (act state).2

namespace Run.Keeps

variable {ε α : Type} {rel : State σ υ → State σ υ → Prop}

theorem of_eq {act : Run σ υ ε α} (keeps : act.Keeps rel) {state last : State σ υ}
    {result : Except (Stop ε) α} (ran : act state = (result, last)) : rel state last := by
  have kept := keeps state
  rwa [ran] at kept

theorem bind {β : Type} {act : Run σ υ ε α} {next : α → Run σ υ ε β}
    (trans : ∀ {first middle last}, rel first middle → rel middle last → rel first last)
    (first : act.Keeps rel) (second : ∀ a, (next a).Keeps rel) : (act >>= next).Keeps rel := by
  intro state
  have done := first state
  rw [Run.bind_apply]
  rcases ran : act state with ⟨stop | a, after⟩
  · rw [ran] at done
    exact done
  · rw [ran] at done
    exact trans done (second a after)

theorem forM {step : α → Run σ υ ε Unit} {list : List α} (refl : ∀ state, rel state state)
    (trans : ∀ {first middle last}, rel first middle → rel middle last → rel first last)
    (keeps : ∀ a ∈ list, (step a).Keeps rel) : Run.Keeps rel (list.forM step) := by
  induction list with
  | nil => exact refl
  | cons a rest ih =>
    have later := ih fun b member => keeps b (List.mem_cons_of_mem _ member)
    exact bind trans (keeps a List.mem_cons_self) fun _ => later

/-- How a run ends makes no difference to the state it leaves. -/
theorem attempt {ε' : Type} {act : Run σ υ ε α} (keeps : act.Keeps rel) :
    (Run.attempt act : Run σ υ ε' (Except ε α)).Keeps rel := by
  intro state
  have kept := keeps state
  rw [Run.attempt_apply]
  rcases ran : act state with ⟨(error | _) | a, after⟩ <;> rwa [ran] at kept

end Run.Keeps

namespace Ledger

variable {rel : State σ υ → State σ υ → Prop}

theorem trace (ledger : Ledger rel) (state : State σ υ) (trace : Trace) :
    rel state { state with trace } :=
  ledger.recorded (state.recorded_trace trace)

theorem refl (ledger : Ledger rel) (state : State σ υ) : rel state state :=
  ledger.trace state state.trace

theorem bind {ε α β : Type} (ledger : Ledger rel) {act : Run σ υ ε α} {next : α → Run σ υ ε β}
    (first : act.Keeps rel) (second : ∀ a, (next a).Keeps rel) : (act >>= next).Keeps rel :=
  .bind ledger.trans first second

theorem forM {ε α : Type} (ledger : Ledger rel) {step : α → Run σ υ ε Unit} {list : List α}
    (keeps : ∀ a ∈ list, (step a).Keeps rel) : Run.Keeps rel (list.forM step) :=
  .forM ledger.refl ledger.trans keeps

section phases

variable {β : Type} [Executable β σ υ] [WorkUnit υ] {config : Config} {label : String}
  {phase : Phase β} {depth : Nat}

theorem execute (ledger : Ledger rel)
    (body : (Executable.run phase.body config : Run σ υ Failure Unit).Keeps rel) :
    (phase.execute config label depth : Run σ υ PhaseError Unit).Keeps rel := by
  intro state
  have begun : rel state (phase.begin config label state) := ledger.trace ..
  have ran := ledger.trans begun (body (phase.begin config label state))
  rw [Phase.execute_apply]
  rcases ended : Executable.run phase.body config (phase.begin config label state) with
    ⟨(failure | _) | _, after⟩
  · rw [ended] at ran
    exact ledger.trans ran (ledger.recorded (Phase.recorded_giveUp after))
  · rw [ended] at ran
    exact ledger.trans ran (ledger.trace ..)
  · rw [ended] at ran
    exact ledger.trans ran (ledger.recorded (Phase.recorded_finish after))

theorem runPhase (ledger : Ledger rel)
    (body : (Executable.run phase.body config : Run σ υ Failure Unit).Keeps rel) :
    (phase.run config label : Run σ υ PhaseError Unit).Keeps rel := by
  intro state
  rw [Phase.run_apply]
  split
  · exact ledger.trace ..
  · split
    · exact ledger.recorded (Phase.recorded_skip state)
    · split
      · exact ledger.refl state
      · exact ledger.execute body state

theorem runList (ledger : Ledger rel) {list : PhaseList β}
    (bodies : ∀ phase ∈ list.phases,
      (Executable.run phase.body config : Run σ υ Failure Unit).Keeps rel) :
    (list.run config : Run σ υ PhaseError Unit).Keeps rel := by
  intro state
  rw [PhaseList.run_apply]
  exact ledger.forM (fun phase member => ledger.runPhase (bodies phase member)) state

end phases

/-- What the list keeps on each of some files it keeps on all of them, under either policy. -/
theorem runFiles {rel : State σ Module → State σ Module → Prop} (ledger : Ledger rel)
    {config : Config} {list : PhaseList (Body σ File)} {numbers : List Nat}
    (keeps : ∀ i ∈ numbers, (Run.onFile i (list.runFile config)).Keeps rel) :
    (list.runFiles config numbers).Keeps rel := by
  induction numbers with
  | nil => exact ledger.refl
  | cons i rest ih =>
    intro state
    have first := keeps i List.mem_cons_self state
    have later := ih fun j member => keeps j (List.mem_cons_of_mem _ member)
    rw [PhaseList.runFiles_cons]
    rcases ended : Run.onFile i (list.runFile config) state with ⟨(error | _) | _, after⟩
    · rw [ended] at first
      cases config.filePolicy with
      | failFast => exact first
      | collectAll =>
        dsimp only
        have onward := ledger.trans first (ledger.trace after
          (after.trace.emit (.fileFailed ((after.unit.files[i]?).elim "" (·.path)) error)))
        have second := ledger.trans onward (later _)
        rcases onto : list.runFiles config rest _ with ⟨stop | errors, last⟩
        · rw [onto] at second
          exact second
        · rw [onto] at second
          exact second
    · rw [ended] at first
      exact first
    · rw [ended] at first
      exact ledger.trans first (later after)

end Ledger

namespace Frame

variable {rel : State σ υ → State σ υ → Prop}

theorem ledger (frame : Frame rel) : Ledger rel where
  trans := frame.trans
  recorded recorded := frame.noted recorded.toNoted

theorem trace (frame : Frame rel) (state : State σ υ) (trace : Trace) :
    rel state { state with trace } :=
  frame.ledger.trace state trace

theorem refl (frame : Frame rel) (state : State σ υ) : rel state state :=
  frame.ledger.refl state

theorem bind {ε α β : Type} (frame : Frame rel) {act : Run σ υ ε α} {next : α → Run σ υ ε β}
    (first : act.Keeps rel) (second : ∀ a, (next a).Keeps rel) : (act >>= next).Keeps rel :=
  frame.ledger.bind first second

theorem settleFrom (frame : Frame rel) {round : Run σ υ Failure Progress}
    (keeps : round.Keeps rel) (done residual left : Nat) :
    (StagedLowering.settleFrom round done residual left).Keeps rel := by
  induction left generalizing done residual with
  | zero => exact frame.refl
  | succ left ih =>
    refine frame.bind keeps fun progress => ?_
    split
    · exact frame.refl
    · exact frame.bind (fun state => frame.trace state _) fun _ => ih _ _

theorem runList {β : Type} [Executable β σ υ] [WorkUnit υ] {config : Config} (frame : Frame rel)
    {list : PhaseList β}
    (bodies : ∀ phase ∈ list.phases,
      (Executable.run phase.body config : Run σ υ Failure Unit).Keeps rel) :
    (list.run config : Run σ υ PhaseError Unit).Keeps rel :=
  frame.ledger.runList bodies

end Frame

/-! ### Relations of units -/

theorem forall₂_comp {α β γ : Type} {R : α → β → Prop} {S : β → γ → Prop} {first : List α}
    {middle : List β} {last : List γ} (left : List.Forall₂ R first middle)
    (right : List.Forall₂ S middle last) :
    List.Forall₂ (fun a c => ∃ b, R a b ∧ S b c) first last := by
  induction left generalizing last with
  | nil =>
    cases right
    exact .nil
  | cons here rest ih =>
    obtain _ | ⟨there, more⟩ := right
    exact .cons ⟨_, here, there⟩ (ih more)

theorem exists_of_forall₂ {α β : Type} {R : α → β → Prop} {first : List α} {last : List β}
    (related : List.Forall₂ R first last) {i : Nat} {b : β} (found : last[i]? = some b) :
    ∃ a, first[i]? = some a ∧ R a b := by
  induction related generalizing i with
  | nil => cases found
  | cons here rest ih =>
    cases i with
    | zero =>
      cases found
      exact ⟨_, rfl, here⟩
    | succ i => exact ih (by simpa using found)

theorem exists_mem_of_forall₂ {α β : Type} {R : α → β → Prop} {first : List α} {last : List β}
    (related : List.Forall₂ R first last) {b : β} (member : b ∈ last) : ∃ a ∈ first, R a b := by
  obtain ⟨i, found⟩ := List.getElem?_of_mem member
  obtain ⟨a, entry, here⟩ := exists_of_forall₂ related found
  exact ⟨a, List.mem_of_getElem? entry, here⟩

structure Carried (R : υ → υ → Prop) : Prop where
  refl : ∀ unit, R unit unit
  trans : ∀ {first middle last}, R first middle → R middle last → R first last

def OnUnits (R : υ → υ → Prop) (before after : State σ υ) : Prop := R before.unit after.unit

def Module.FileByFile (R : File → File → Prop) (m changed : Module) : Prop :=
  changed.name = m.name ∧ List.Forall₂ R m.files changed.files

theorem Module.FileByFile.at {R : File → File → Prop} {m changed : Module}
    (related : m.FileByFile R changed) (i : Nat) :
    (m.files[i]? = none ∧ changed.files[i]? = none) ∨
      ∃ file other, m.files[i]? = some file ∧ changed.files[i]? = some other ∧ R file other := by
  cases found : changed.files[i]? with
  | none =>
    refine .inl ⟨?_, rfl⟩
    rw [List.getElem?_eq_none_iff] at found ⊢
    rwa [related.2.length_eq]
  | some other =>
    obtain ⟨file, entry, here⟩ := exists_of_forall₂ related.2 found
    exact .inr ⟨file, other, entry, rfl, here⟩

theorem Module.FileByFile.and {R S : File → File → Prop} {m changed : Module}
    (left : m.FileByFile R changed) (right : m.FileByFile S changed) :
    m.FileByFile (fun file other => R file other ∧ S file other) changed := by
  obtain ⟨length, first⟩ := List.forall₂_iff_get.mp left.2
  obtain ⟨-, second⟩ := List.forall₂_iff_get.mp right.2
  exact ⟨left.1, List.forall₂_iff_get.mpr
    ⟨length, fun i before after => ⟨first i before after, second i before after⟩⟩⟩

namespace Carried

theorem frame {R : υ → υ → Prop} (carried : Carried R) :
    Frame (OnUnits R : State σ υ → State σ υ → Prop) where
  trans := carried.trans
  noted {before after} noted := by
    show R before.unit after.unit
    rw [noted.unit]
    exact carried.refl _

theorem runPhase {β : Type} [Executable β σ υ] [WorkUnit υ] {R : υ → υ → Prop}
    (carried : Carried R) {phase : Phase β} {config : Config} {label : String}
    (body : (Executable.run phase.body config : Run σ υ Failure Unit).Keeps (OnUnits R)) :
    (phase.run config label : Run σ υ PhaseError Unit).Keeps (OnUnits R) :=
  carried.frame.ledger.runPhase body

theorem fixpoint {R : υ → υ → Prop} (carried : Carried R) {loop : Fixpoint σ υ} {config : Config}
    (round : (loop.round config).Keeps (OnUnits R)) : (loop.run config).Keeps (OnUnits R) := by
  refine carried.frame.bind (carried.frame.settleFrom round _ _ _) fun iterations => ?_
  refine carried.frame.bind (fun state => carried.frame.trace state _) fun _ => ?_
  cases loop.statistic with
  | none => exact carried.frame.refl
  | some name => exact fun state => carried.refl state.unit

theorem check {R : υ → υ → Prop} (carried : Carried R)
    (holds : Context → υ → Except Violation Unit) (config : Config) :
    ((Body.check holds).run config : Run σ υ Failure Unit).Keeps (OnUnits R) := by
  intro state
  rw [Body.check_state]
  exact carried.refl state.unit

variable {R : File → File → Prop}

theorem fileByFile (carried : Carried R) : Carried (Module.FileByFile R) where
  refl _ := ⟨rfl, List.forall₂_same.mpr fun file _ => carried.refl file⟩
  trans left right := by
    refine ⟨right.1.trans left.1, (forall₂_comp left.2 right.2).imp fun file last between => ?_⟩
    obtain ⟨middle, first, second⟩ := between
    exact carried.trans first second

theorem forall₂_set (carried : Carried R) {files : List File} {i : Nat} {file changed : File}
    (found : files[i]? = some file) (related : R file changed) :
    List.Forall₂ R files (files.set i changed) := by
  induction files generalizing i with
  | nil => exact .nil
  | cons head rest ih =>
    cases i with
    | zero =>
      rw [List.getElem?_cons_zero, Option.some.injEq] at found
      subst found
      exact .cons related (List.forall₂_same.mpr fun file _ => carried.refl file)
    | succ i => exact .cons (carried.refl head) (ih (by simpa using found))

theorem setFile (carried : Carried R) {m : Module} {i : Nat} {file changed : File}
    (found : m.files[i]? = some file) (related : R file changed) :
    m.FileByFile R (m.setFile i changed) :=
  ⟨rfl, carried.forall₂_set found related⟩

theorem onFile {ε α : Type} (carried : Carried R) {act : Run σ File ε α}
    (keeps : act.Keeps (OnUnits R)) (i : Nat) :
    (Run.onFile i act).Keeps (OnUnits (Module.FileByFile R)) := by
  intro state
  unfold Run.onFile
  cases found : state.unit.files[i]? with
  | none => exact carried.fileByFile.refl _
  | some file => exact carried.setFile found (keeps { state with unit := file })

variable {config : Config} {list : PhaseList (Body σ File)}

theorem runFile (keeps : (list.run config).Keeps (OnUnits R)) :
    (list.runFile config).Keeps (OnUnits R) := by
  intro state
  have ran := keeps (PhaseList.enter state)
  rw [PhaseList.runFile_apply]
  rcases ended : list.run config (PhaseList.enter state) with ⟨(error | _) | _, after⟩
  · rw [ended] at ran
    exact ran
  · rw [ended] at ran
    exact ran
  · rw [ended] at ran
    exact ran

/-- What a list keeps on one file it keeps file by file, under either policy. -/
theorem runFiles (carried : Carried R) (keeps : (list.run config).Keeps (OnUnits R))
    (numbers : List Nat) :
    (list.runFiles config numbers).Keeps (OnUnits (Module.FileByFile R)) :=
  carried.fileByFile.frame.ledger.runFiles fun i _ => carried.onFile (runFile keeps) i

theorem perFile (carried : Carried R) (keeps : (list.run config).Keeps (OnUnits R)) :
    ((ModuleBody.perFile list).run config).Keeps (OnUnits (Module.FileByFile R)) := by
  intro state
  refine carried.fileByFile.frame.bind (carried.runFiles keeps _) (fun errors => ?_) state
  cases errors.isEmpty
  · exact carried.fileByFile.frame.refl
  · exact carried.fileByFile.frame.refl

end Carried

/-- The file phases carry a relation that flattening, repairing links and wrapping calls do. -/
theorem filePhases_keep {R : File → File → Prop} (carried : Carried R)
    (flatten : ∀ file : File, R file file.flatten.1)
    (patchLinks : ∀ file : File, R file file.patchLinks.1)
    (wrapCalls : ∀ (file : File) (number : Nat), R file (file.wrapCalls number)) (config : Config) :
    (filePhases.run config : Run σ File PhaseError Unit).Keeps (OnUnits R) := by
  refine carried.frame.runList ?_
  simp only [filePhases, List.forall_mem_cons]
  refine ⟨fun state => ?_, fun state => ?_, ?_, fun state => ?_, ?_, ?_⟩
  · show R state.unit (flattenBlocks state).2.unit
    obtain ⟨trace, flattened⟩ := flattenBlocks_apply state
    rw [flattened]
    exact flatten state.unit
  · exact patchLinks state.unit
  · exact carried.check _ config
  · show R state.unit (introduceTemporaries state).2.unit
    rw [introduceTemporaries_apply]
    exact wrapCalls state.unit _
  · exact carried.check _ config
  · exact fun _ none => absurd none List.not_mem_nil

theorem Pipeline.keeps_run {R : Module → Module → Prop} (carried : Carried R)
    {pipeline : Pipeline σ}
    (bodies : ∀ phase ∈ pipeline.phases.phases,
      (phase.body.run pipeline.config).Keeps (OnUnits R)) :
    pipeline.run.Keeps (OnUnits R) := by
  intro state
  have ran := carried.frame.runList bodies (Pipeline.begin state)
  obtain ⟨trace, run⟩ := pipeline.run_apply state
  rw [run]
  exact ran

end StagedLowering
