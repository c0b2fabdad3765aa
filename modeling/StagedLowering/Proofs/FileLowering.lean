import StagedLowering.Proofs.FlatTree
import StagedLowering.Proofs.Frames
import StagedLowering.Proofs.Schedule
import StagedLowering.Proofs.Wrapping

/-!
# Lowering files

With all its phases enabled the list of a file flattens it, repairs its links and wraps its calls,
and succeeds exactly if the file passes both checks on the way (`filePhases_run`). Over a module it
does so file by file (`lowerFiles_run`).
-/

namespace StagedLowering

variable {σ υ : Type}

/-! ### What file phases leave alone -/

structure Lasting (before after : State σ υ) : Prop where
  symbols : after.context.symbols = before.context.symbols
  cancelled : after.context.cancelled = before.context.cancelled
  enclosing : after.context.enclosing = before.context.enclosing

theorem frame_lasting : Frame (Lasting : State σ υ → State σ υ → Prop) where
  trans first second :=
    ⟨second.symbols.trans first.symbols, second.cancelled.trans first.cancelled,
      second.enclosing.trans first.enclosing⟩
  noted noted := ⟨noted.symbols, noted.cancelled, noted.enclosing⟩

theorem check_lasting (holds : Context → υ → Except Violation Unit) (config : Config) :
    ((Body.check holds).run config : Run σ υ Failure Unit).Keeps Lasting := by
  intro state
  rw [Body.check_state]
  exact frame_lasting.refl state

theorem check_steady (holds : Context → υ → Except Violation Unit) (config : Config) :
    ((Body.check holds).run config : Run σ υ Failure Unit).Steady := by
  intro state after _ _ ran
  obtain rfl := Body.eq_of_check ran
  exact ⟨rfl, rfl⟩

theorem countTemporaries_views (context : Context) (introduced : Nat) :
    (context.countTemporaries introduced).symbols = context.symbols ∧
      (context.countTemporaries introduced).cancelled = context.cancelled ∧
      (context.countTemporaries introduced).enclosing = context.enclosing ∧
      (context.countTemporaries introduced).scope.executed = context.scope.executed := by
  unfold Context.countTemporaries
  by_cases some : 0 < introduced
  · rw [if_pos some]
    exact ⟨rfl, rfl, rfl, rfl⟩
  · rw [if_neg some]
    exact ⟨rfl, rfl, rfl, rfl⟩

theorem filePhases_lasting (config : Config) :
    (filePhases.run config : Run σ File PhaseError Unit).Keeps Lasting := by
  refine frame_lasting.runList ?_
  simp only [filePhases, List.forall_mem_cons]
  refine ⟨fun state => ?_, fun state => ?_, ?_, fun state => ?_, ?_, ?_⟩
  · show Lasting state (flattenBlocks state).2
    obtain ⟨trace, flattened⟩ := flattenBlocks_apply state
    rw [flattened]
    exact ⟨rfl, rfl, rfl⟩
  · exact ⟨rfl, rfl, rfl⟩
  · exact check_lasting _ config
  · show Lasting state (introduceTemporaries state).2
    rw [introduceTemporaries_apply]
    obtain ⟨symbols, cancelled, enclosing, _⟩ :=
      countTemporaries_views state.context state.unit.exposedCalls.length
    exact ⟨symbols, cancelled, enclosing⟩
  · exact check_lasting _ config
  · exact fun _ none => absurd none List.not_mem_nil

theorem filePhases_steady (config : Config) :
    ∀ phase ∈ (filePhases : PhaseList (Body σ File)).phases,
      (Executable.run phase.body config : Run σ File Failure Unit).Steady := by
  simp only [filePhases, List.forall_mem_cons]
  refine ⟨fun state after _ _ ran => ?_, fun state after _ _ ran => ?_, ?_,
    fun state after _ _ ran => ?_, ?_, ?_⟩
  · obtain ⟨trace, flattened⟩ := flattenBlocks_apply state
    cases flattened.symm.trans ran
    exact ⟨rfl, rfl⟩
  · cases (patchParents_apply state).symm.trans ran
    exact ⟨rfl, rfl⟩
  · exact check_steady _ config
  · cases (introduceTemporaries_apply state).symm.trans ran
    obtain ⟨_, cancelled, _, executed⟩ :=
      countTemporaries_views state.context state.unit.exposedCalls.length
    exact ⟨cancelled, executed⟩
  · exact check_steady _ config
  · exact fun _ none => absurd none List.not_mem_nil

/-- The file phases leave a file under its address. -/
theorem filePhases_address (config : Config) :
    (filePhases.run config : Run σ File PhaseError Unit).Keeps
      (OnUnits fun file lowered => lowered.address = file.address) := by
  have carried : Carried fun file lowered : File => lowered.address = file.address :=
    ⟨fun _ => rfl, fun first second => second.trans first⟩
  exact filePhases_keep carried File.address_flatten File.address_patchLinks
    File.address_wrapCalls config

/-! ### One file -/

namespace File

def repaired (file : File) : File := file.flatten.1.patchLinks.1

/-- The repaired file with its calls wrapped, temporaries being numbered from `number` on. -/
def lowered (number : Nat) (file : File) : File := file.repaired.wrapCalls number

structure Lowerable (number : Nat) (file : File) : Prop where
  links : file.repaired.checkLinks = .ok ()
  temporaries : (file.lowered number).checkTemporaries = .ok ()

variable {file : File} {id : NodeId} {number : Nat}

theorem kind?_repaired (file : File) (id : NodeId) : file.repaired.kind? id = file.kind? id :=
  (kind?_patchLinks _ id).trans (kind?_flatten file id)

theorem reachable_of_repaired (reachable : file.repaired.Reachable id) : file.Reachable id :=
  reachable_of_flatten (reachable_patchLinks.mp reachable)

/-- A tree whose root is plain and unlinked and that holds no temporary yet passes both checks. -/
theorem lowerable_of_tree (shaped : file.TreeShaped) (plain : file.kind? root = some .root)
    (unlinked : file.parent? root = none)
    (fresh : ∀ id, file.Reachable id → file.isTemporary id = false) (number : Nat) :
    file.Lowerable number := by
  have rootPlain := isBlock_root plain
  have linked : file.repaired.WellLinked :=
    (shaped.flatten rootPlain).wellLinked_patchLinks ((parent?_flatten file root).trans unlinked)
  have filled : file.repaired.Filled := by
    intro id reachable temporary
    rw [isTemporary_congr (kind?_repaired file id), fresh id (reachable_of_repaired reachable)]
      at temporary
    cases temporary
  obtain ⟨below, tree⟩ := treeShaped_iff.mp linked.shaped
  refine ⟨checkLinks_ok_iff.mpr linked, checkTemporaries_ok_iff.mpr ⟨?_, ?_⟩⟩
  · exact (tree.wrapCalls number).2
  · exact filled.wrapEdges tree tree.exposed number

namespace Lowerable

variable (lowerable : file.Lowerable number)

include lowerable

theorem wellLinked : (file.lowered number).WellLinked :=
  (checkLinks_ok_iff.mp lowerable.links).wrapCalls number

theorem exposedCalls : (file.lowered number).exposedCalls = [] :=
  (checkTemporaries_ok_iff.mp lowerable.temporaries).1

theorem filled : (file.lowered number).Filled :=
  (checkTemporaries_ok_iff.mp lowerable.temporaries).2

/-- What is reachable and no temporary was so before. -/
theorem old (reachable : (file.lowered number).Reachable id)
    (other : (file.lowered number).isTemporary id = false) :
    file.repaired.Reachable id ∧ (file.lowered number).kind? id = file.kind? id := by
  obtain ⟨below, tree⟩ := treeShaped_iff.mp (checkLinks_ok_iff.mp lowerable.links).shaped
  obtain ⟨⟨grown, wrapped⟩, _⟩ := tree.wrapCalls number
  have early : id < file.repaired.size := by
    refine Nat.not_le.mp fun new => ?_
    rw [lowered, wrapped.added id new reachable.lt] at other
    cases other
  exact ⟨wrapped.old id early reachable, (wrapped.kinds id early).trans (kind?_repaired file id)⟩

theorem isBlock (plain : file.isBlock root = false)
    (reachable : (file.lowered number).Reachable id) :
    (file.lowered number).isBlock id = false := by
  cases temporary : (file.lowered number).isTemporary id with
  | true =>
    obtain ⟨name, kind⟩ := isTemporary_iff.mp temporary
    unfold File.isBlock
    rw [kind]
    rfl
  | false =>
    obtain ⟨repaired, kind⟩ := lowerable.old reachable temporary
    rw [isBlock_congr kind]
    exact isBlock_of_reachable_flatten plain (reachable_patchLinks.mp repaired)

end Lowerable

end File

theorem State.Noted.nextTemporary {before after : State σ υ} (noted : before.Noted after) :
    after.context.nextTemporary = before.context.nextTemporary := by
  unfold Context.nextTemporary
  rw [noted.scratch]

theorem filePhases_bodies (config : Config) :
    ∃ flatten patch links wrap temporaries : Phase (Body σ File),
      filePhases.phases = [flatten, patch, links, wrap, temporaries] ∧
      (∀ state, Executable.run flatten.body config state = flattenBlocks state) ∧
      (∀ state, Executable.run patch.body config state = patchParents state) ∧
      (∀ state, Executable.run links.body config state =
        (Body.check fun _ => File.checkLinks).run config state) ∧
      (∀ state, Executable.run wrap.body config state = introduceTemporaries state) ∧
      (∀ state, Executable.run temporaries.body config state =
        (Body.check fun _ => File.checkTemporaries).run config state) :=
  ⟨_, _, _, _, _, rfl, fun _ => rfl, fun _ => rfl, fun _ => rfl, fun _ => rfl, fun _ => rfl⟩

theorem filePhases_run {config : Config}
    (enabled : ∀ phase ∈ (filePhases : PhaseList (Body σ File)).phases,
      config.isEnabled phase.id = true)
    {state : State σ File} (going : state.context.cancelled = false) {number : Nat}
    (next : state.context.nextTemporary = number) :
    (state.unit.Lowerable number ∧
        ∃ after, filePhases.run config state = (.ok (), after) ∧
          after.unit = state.unit.lowered number) ∨
      (¬ state.unit.Lowerable number ∧
        ∃ error after, filePhases.run config state = (.error (.error error), after)) := by
  rw [PhaseList.run_enabled enabled (filePhases_steady config) going]
  generalize WorkUnit.label state.unit = label
  obtain ⟨flatten, patch, links, wrap, temporaries, phases, flattenRun, patchRun, linksRun, wrapRun,
    temporariesRun⟩ := @filePhases_bodies σ config
  rw [phases]
  obtain ⟨trace, flattened⟩ := flattenBlocks_apply (flatten.begin config label state)
  obtain ⟨first, firstRan, firstNoted⟩ := Phase.perform_of_ok ((flattenRun _).trans flattened)
  obtain ⟨second, secondRan, secondNoted⟩ :=
    Phase.perform_of_ok ((patchRun (patch.begin config label first)).trans (patchParents_apply _))
  rw [Run.forM_of_ok firstRan, Run.forM_of_ok secondRan]
  have secondUnit : second.unit = state.unit.repaired := by
    rw [secondNoted.unit]
    show first.unit.patchLinks.1 = _
    rw [firstNoted.unit]
    rfl
  have secondNext : second.context.nextTemporary = number := by
    rw [secondNoted.nextTemporary]
    show first.context.nextTemporary = _
    rw [firstNoted.nextTemporary]
    exact next
  rcases Phase.perform_check linksRun second with
    ⟨linked, third, thirdRan, thirdNoted⟩ | ⟨violation, last, broken, ran⟩
  · obtain ⟨fourth, fourthRan, fourthNoted⟩ :=
      Phase.perform_of_ok ((wrapRun (wrap.begin config label third)).trans (introduceTemporaries_apply _))
    rw [Run.forM_of_ok thirdRan, Run.forM_of_ok fourthRan]
    have fourthUnit : fourth.unit = state.unit.lowered number := by
      rw [fourthNoted.unit]
      show third.unit.wrapCalls third.context.nextTemporary = _
      rw [thirdNoted.unit, thirdNoted.nextTemporary, secondUnit, secondNext]
      rfl
    rcases Phase.perform_check temporariesRun fourth with
      ⟨filled, last, lastRan, lastNoted⟩ | ⟨violation, last, broken, ran⟩
    · rw [Run.forM_of_ok lastRan]
      rw [secondUnit] at linked
      rw [fourthUnit] at filled
      exact .inl ⟨⟨linked, filled⟩, last, rfl, lastNoted.unit.trans fourthUnit⟩
    · refine .inr ⟨fun lowerable => ?_, _, _, Run.forM_of_error ran⟩
      rw [fourthUnit, lowerable.temporaries] at broken
      cases broken
  · refine .inr ⟨fun lowerable => ?_, _, _, Run.forM_of_error ran⟩
    rw [secondUnit, lowerable.links] at broken
    cases broken

/-! ### One file after another -/

structure Scoped {υ' : Type} (before : State σ υ) (after : State σ υ') : Prop where
  symbols : after.context.symbols = before.context.symbols
  cancelled : after.context.cancelled = before.context.cancelled
  enclosing : after.context.enclosing = before.context.enclosing
  scope : after.context.scope = before.context.scope

section files

variable {config : Config}
  (enabled : ∀ phase ∈ (filePhases : PhaseList (Body σ File)).phases,
    config.isEnabled phase.id = true)

include enabled

theorem runFile_run {state : State σ File} (going : state.context.cancelled = false) :
    (state.unit.Lowerable 0 ∧ ∃ after, filePhases.runFile config state = (.ok (), after) ∧
        after.unit = state.unit.lowered 0 ∧ Scoped state after) ∨
      (¬ state.unit.Lowerable 0 ∧
        ∃ error after, filePhases.runFile config state = (.error (.error error), after)) := by
  rw [PhaseList.runFile_apply]
  have kept := filePhases_lasting config (PhaseList.enter state)
  have entered : (PhaseList.enter state).context.cancelled = false := going
  rcases filePhases_run enabled entered rfl with
    ⟨lowerable, after, ran, unit⟩ | ⟨not, error, after, ran⟩
  · rw [ran] at kept ⊢
    obtain ⟨symbols, cancelled, enclosing⟩ := kept
    have left : (PhaseList.leave after).context =
        { after.context with scope := state.context.scope, enclosing := state.context.enclosing } := by
      show after.context.exitScope = _
      unfold Context.exitScope
      rw [enclosing]
      rfl
    refine .inl ⟨lowerable, PhaseList.leave after, rfl, unit, ?_⟩
    refine ⟨?_, ?_, ?_, ?_⟩
    · rw [left]
      exact symbols
    · rw [left]
      exact cancelled
    · rw [left]
    · rw [left]
  · rw [ran]
    exact .inr ⟨not, error, _, rfl⟩

theorem onFile_run {state : State σ Module} {i : Nat} {file : File}
    (found : state.unit.files[i]? = some file) (going : state.context.cancelled = false) :
    (file.Lowerable 0 ∧ ∃ after,
        Run.onFile i (filePhases.runFile config) state = (.ok (), after) ∧
          after.unit = state.unit.setFile i (file.lowered 0) ∧ Scoped state after) ∨
      (¬ file.Lowerable 0 ∧ ∃ error after,
        Run.onFile i (filePhases.runFile config) state = (.error (.error error), after)) := by
  unfold Run.onFile
  rw [found]
  have fileGoing : ({ state with unit := file } : State σ File).context.cancelled = false := going
  dsimp only
  rcases runFile_run enabled fileGoing with
    ⟨lowerable, after, ran, unit, kept⟩ | ⟨not, error, after, ran⟩
  · rw [ran]
    refine .inl ⟨lowerable, _, rfl, ?_, kept.symbols, kept.cancelled, kept.enclosing, kept.scope⟩
    rw [unit]
  · rw [ran]
    exact .inr ⟨not, error, _, rfl⟩

theorem runFiles_run (failFast : config.filePolicy = .failFast) {numbers : List Nat}
    (nodup : numbers.Nodup) {state : State σ Module}
    (inRange : ∀ i ∈ numbers, i < state.unit.files.length)
    (going : state.context.cancelled = false) :
    ((∀ i ∈ numbers, ∀ file, state.unit.files[i]? = some file → file.Lowerable 0) ∧
        ∃ after, filePhases.runFiles config numbers state = (.ok [], after) ∧
          after.unit.name = state.unit.name ∧ Scoped state after ∧
          ∀ i : Nat, after.unit.files[i]? = (state.unit.files[i]?).map fun file =>
            if i ∈ numbers then file.lowered 0 else file) ∨
      ((∃ i ∈ numbers, ∃ file, state.unit.files[i]? = some file ∧ ¬ file.Lowerable 0) ∧
        ∃ failure after, filePhases.runFiles config numbers state =
          (.error (.error failure), after)) := by
  induction numbers generalizing state with
  | nil =>
    refine .inl ⟨fun i none => absurd none List.not_mem_nil, state, rfl, rfl,
      ⟨rfl, rfl, rfl, rfl⟩, fun i => ?_⟩
    simp
  | cons i rest ih =>
    obtain ⟨notAgain, restNodup⟩ := List.nodup_cons.mp nodup
    have here := inRange i List.mem_cons_self
    have found := List.getElem?_eq_getElem here
    rw [PhaseList.runFiles_cons]
    rcases onFile_run enabled found going with
      ⟨lowerable, first, ran, unit, kept⟩ | ⟨not, error, after, ran⟩
    · rw [ran]
      dsimp only
      have others : ∀ j ∈ rest, first.unit.files[j]? = state.unit.files[j]? := by
        intro j member
        have apart : i ≠ j := fun same => notAgain (same ▸ member)
        rw [unit, Module.setFile, List.getElem?_set_ne apart]
      have restInRange : ∀ j ∈ rest, j < first.unit.files.length := by
        intro j member
        rw [unit, Module.setFile, List.length_set]
        exact inRange j (List.mem_cons_of_mem _ member)
      rcases ih restNodup restInRange (kept.cancelled.trans going) with
        ⟨passes, last, restRan, name, restKept, files⟩ | ⟨⟨j, member, file, foundJ, not⟩, fails⟩
      · refine .inl ⟨fun j member file foundJ => ?_, last, restRan, ?_, ?_, fun j => ?_⟩
        · rcases List.mem_cons.mp member with rfl | later
          · rw [found, Option.some.injEq] at foundJ
            exact foundJ ▸ lowerable
          · exact passes j later file ((others j later).trans foundJ)
        · rw [name, unit]
          rfl
        · exact ⟨restKept.symbols.trans kept.symbols, restKept.cancelled.trans kept.cancelled,
            restKept.enclosing.trans kept.enclosing, restKept.scope.trans kept.scope⟩
        · rw [files, unit, Module.setFile]
          by_cases same : i = j
          · subst same
            rw [List.getElem?_set_self here, found]
            simp [notAgain]
          · rw [List.getElem?_set_ne same]
            simp [Ne.symm same]
      · exact .inr ⟨⟨j, List.mem_cons_of_mem _ member, file, (others j member).symm.trans foundJ, not⟩,
          fails⟩
    · rw [ran]
      dsimp only
      rw [failFast]
      exact .inr ⟨⟨i, List.mem_cons_self, _, found, not⟩, _, _, rfl⟩

/-- Lowering the files of a module succeeds exactly if every file passes its checks. -/
theorem lowerFiles_run (failFast : config.filePolicy = .failFast) {state : State σ Module}
    (going : state.context.cancelled = false) :
    ((∀ file ∈ state.unit.files, file.Lowerable 0) ∧
        ∃ after, (ModuleBody.perFile filePhases).run config state = (.ok (), after) ∧
          after.unit = { state.unit with files := state.unit.files.map (File.lowered 0) } ∧
          Scoped state after) ∨
      ((∃ file ∈ state.unit.files, ¬ file.Lowerable 0) ∧
        ∃ failure after,
          (ModuleBody.perFile filePhases).run config state = (.error (.error failure), after)) := by
  have inRange : ∀ i ∈ List.range state.unit.files.length, i < state.unit.files.length :=
    fun i member => List.mem_range.mp member
  have run : (ModuleBody.perFile filePhases).run config state =
      (filePhases.runFiles config (List.range state.unit.files.length) >>= fun errors =>
        unless errors.isEmpty do Run.fail (.inFiles errors)) state := rfl
  rw [run]
  rcases runFiles_run enabled failFast List.nodup_range inRange going with
    ⟨passes, after, ran, name, kept, files⟩ | ⟨⟨i, _, file, found, not⟩, failure, after, ran⟩
  · rw [Run.bind_of_ok ran]
    refine .inl ⟨fun file member => ?_, after, rfl, ?_, kept⟩
    · obtain ⟨i, here, rfl⟩ := List.getElem_of_mem member
      exact passes i (List.mem_range.mpr here) _ (List.getElem?_eq_getElem here)
    · have mapped : after.unit.files = state.unit.files.map (File.lowered 0) := by
        refine List.ext_getElem? fun i => ?_
        rw [files, List.getElem?_map]
        cases found : state.unit.files[i]? with
        | none => rfl
        | some file =>
          have here := (List.getElem?_eq_some_iff.mp found).1
          simp [here]
      rcases after with ⟨outer, trace, context, ⟨afterName, afterFiles⟩⟩
      exact Module.mk.injEq .. |>.mpr ⟨name, mapped⟩
  · rw [Run.bind_of_error ran]
    exact .inr ⟨⟨file, List.mem_of_getElem? found, not⟩, failure, after, rfl⟩

end files

end StagedLowering
