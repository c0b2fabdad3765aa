import Mathlib
import StagedLowering.Proofs.Census
import StagedLowering.Proofs.Introducing
import StagedLowering.Proofs.Readiness

/-!
# Names of temporaries

A run of the file phases leaves the temporaries that are there and adds some that are named from
`tmp0` on, since every scope starts to count anew. Names that were distinct stay so exactly if none of
the new ones is taken (`filePhases_temporaryNames`), and a file that was lowered before and has a new
call is lowered to one in which a name stands twice (`filePhases_not_always_distinct`).
-/

namespace StagedLowering

def NodeKind.temporaryName? : NodeKind → Option String
  | temporary name => some name
  | _ => none

def File.temporaryNames (file : File) : List String :=
  file.kinds.filterMap NodeKind.temporaryName?

def numberedNames (number count : Nat) : List String :=
  (List.range' number count).map fun i => s!"tmp{i}"

theorem numberedName_inj {i j : Nat} (same : s!"tmp{i}" = s!"tmp{j}") : i = j := by
  have lists := congrArg String.toList (same : "tmp" ++ i.repr = "tmp" ++ j.repr)
  rw [String.toList_append, String.toList_append] at lists
  exact Nat.repr_injective (String.toList_inj.mp (List.append_cancel_left lists))

theorem nodup_numberedNames (number count : Nat) : (numberedNames number count).Nodup :=
  List.Nodup.map (fun _ _ => numberedName_inj) List.nodup_range'

theorem mem_numberedNames {name : String} {count : Nat} :
    name ∈ numberedNames 0 count ↔ ∃ i < count, s!"tmp{i}" = name := by
  simp [numberedNames]

namespace File

variable {file : File} {below : Forest}

/-! ### What passes do to the names -/

theorem filterMap_temporaries (number count : Nat) :
    (temporaries number count).filterMap NodeKind.temporaryName? = numberedNames number count := by
  rw [temporaries, List.filterMap_map, numberedNames, ← List.filterMap_eq_map]
  rfl

/-- Only what is no block has a name to give. -/
theorem temporaryNames_eq (file : File) : file.temporaryNames =
    (file.preorder.filter (!file.isBlock ·)).filterMap fun id =>
      (file.kind? id).bind NodeKind.temporaryName? := by
  rw [temporaryNames, kinds, List.filterMap_filterMap, List.filterMap_filter]
  refine List.filterMap_congr fun id _ => ?_
  cases isBlock : file.isBlock id with
  | false => rfl
  | true => rw [isBlock_iff.mp isBlock]; rfl

theorem temporaryNames_flatten (file : File) :
    file.flatten.1.temporaryNames.Perm file.temporaryNames := by
  have blocks : file.flatten.1.isBlock = file.isBlock :=
    funext fun id => isBlock_congr (kind?_flatten file id)
  rw [temporaryNames_eq, temporaryNames_eq, blocks]
  simp only [kind?_flatten]
  refine List.Perm.filterMap _ ((List.perm_ext_iff_of_nodup (file.flatten.1.preorder_nodup.filter _)
    (file.preorder_nodup.filter _)).mpr fun id => ?_)
  simp only [List.mem_filter, mem_preorder, Bool.not_eq_true']
  exact and_congr_left fun plain =>
    ⟨reachable_of_flatten, fun reachable => reachable_flatten_of_plain reachable plain⟩

theorem temporaryNames_patchLinks (file : File) :
    file.patchLinks.1.temporaryNames = file.temporaryNames := by
  rw [temporaryNames, kinds_patchLinks, temporaryNames]

theorem IsTree.temporaryNames_wrapCalls (tree : file.IsTree below) (number : Nat) :
    (file.wrapCalls number).temporaryNames.Perm
      (numberedNames number file.exposedCalls.length ++ file.temporaryNames) := by
  have names := (tree.kinds_wrapEdges tree.exposed number).filterMap NodeKind.temporaryName?
  rwa [List.filterMap_append, filterMap_temporaries] at names

end File

/-! ### The file phases -/

variable {σ : Type} {config : Config} {label : String}

structure SameNames (before after : State σ File) : Prop where
  size : after.unit.size = before.unit.size
  names : after.unit.temporaryNames.Perm before.unit.temporaryNames
  number : after.context.nextTemporary = before.context.nextTemporary

theorem frame_sameNames : Frame (SameNames : State σ File → State σ File → Prop) where
  trans first second :=
    ⟨second.size.trans first.size, second.names.trans first.names, second.number.trans first.number⟩
  noted noted := ⟨by rw [noted.unit], by rw [noted.unit], noted.nextTemporary⟩

theorem sameNames_flattenBlocks : (flattenBlocks : Run σ File Failure Unit).Keeps SameNames := by
  intro state
  obtain ⟨trace, ran⟩ := flattenBlocks_apply state
  rw [ran]
  exact ⟨File.size_flatten _, File.temporaryNames_flatten _, rfl⟩

theorem sameNames_patchParents : (patchParents : Run σ File Failure Unit).Keeps SameNames :=
  fun _ => ⟨File.size_patchLinks _, .of_eq (File.temporaryNames_patchLinks _), rfl⟩

theorem sameNames_check (holds : Context → File → Except Violation Unit) :
    ((Body.check holds).run config : Run σ File Failure Unit).Keeps SameNames := by
  intro state
  rw [Body.check_state]
  exact frame_sameNames.refl state

theorem Phase.sameNames_of_attend {phase : Phase (Body σ File)} {state last : State σ File}
    (body : (Executable.run phase.body config : Run σ File Failure Unit).Keeps SameNames)
    (ran : phase.attend config label state = (.ok (), last)) : SameNames state last := by
  rcases Phase.attend_ok ran with ⟨-, noted⟩ | ⟨-, after, did, noted⟩
  · exact frame_sameNames.noted noted
  · have kept : SameNames _ after := body.of_eq did
    exact frame_sameNames.trans (frame_sameNames.noted (Phase.noted_begin state))
      (frame_sameNames.trans kept (frame_sameNames.noted noted))

/-- An enabled check that lets a run pass has accepted the unit. -/
theorem Phase.holds_of_attend {phase : Phase (Body σ File)}
    {holds : Context → File → Except Violation Unit} {state last : State σ File}
    (body : Executable.run phase.body config = ((Body.check holds).run config : Run σ File Failure Unit))
    (enabled : config.isEnabled phase.id = true)
    (ran : phase.attend config label state = (.ok (), last)) :
    holds state.context last.unit = .ok () := by
  rcases Phase.attend_ok ran with ⟨disabled, -⟩ | ⟨-, after, did, noted⟩
  · rw [enabled] at disabled
    cases disabled
  · rw [body] at did
    rw [noted.unit, Body.eq_of_check did]
    exact Body.holds_of_check did

/-- Wrapping comes after the check of links. -/
theorem filePhases_requires {flatten patch links wrap temporaries : Phase (Body σ File)}
    (phases : filePhases.phases = [flatten, patch, links, wrap, temporaries]) :
    links.id ∈ wrap.prerequisites := by
  simp only [filePhases, List.cons.injEq, and_true] at phases
  obtain ⟨-, -, rfl, rfl, -⟩ := phases
  exact List.mem_singleton_self _

/-- In a scope in which nothing is done yet calls are wrapped only in a file that has passed the check
of links. -/
theorem filePhases_names {state last : State σ File} (fresh : state.context.scope.executed = [])
    (ran : filePhases.run config state = (.ok (), last)) :
    ∃ count, last.unit.size = state.unit.size + count ∧ last.unit.temporaryNames.Perm
      (numberedNames state.context.nextTemporary count ++ state.unit.temporaryNames) := by
  rw [PhaseList.run_eq_attend (fun phase member state after _ going body =>
    (filePhases_steady config phase member going body).executed) fresh] at ran
  generalize WorkUnit.label state.unit = label at ran
  obtain ⟨flatten, patch, links, wrap, temporaries, phases, flattenRun, patchRun, linksRun, wrapRun,
    temporariesRun⟩ := @filePhases_bodies σ config
  have requires := filePhases_requires phases
  rw [phases] at ran
  rw [← funext_iff] at flattenRun patchRun linksRun wrapRun temporariesRun
  obtain ⟨first, firstRan, ran⟩ := Run.forM_ok ran
  obtain ⟨second, secondRan, ran⟩ := Run.forM_ok ran
  obtain ⟨third, thirdRan, ran⟩ := Run.forM_ok ran
  obtain ⟨fourth, fourthRan, ran⟩ := Run.forM_ok ran
  obtain ⟨fifth, fifthRan, ran⟩ := Run.forM_ok ran
  cases ran
  have before : SameNames state third :=
    frame_sameNames.trans (Phase.sameNames_of_attend (flattenRun ▸ sameNames_flattenBlocks) firstRan)
      (frame_sameNames.trans
        (Phase.sameNames_of_attend (patchRun ▸ sameNames_patchParents) secondRan)
        (Phase.sameNames_of_attend (linksRun ▸ sameNames_check _) thirdRan))
  have behind : SameNames fourth last :=
    Phase.sameNames_of_attend (temporariesRun ▸ sameNames_check _) fifthRan
  rcases Phase.attend_ok fourthRan with ⟨-, noted⟩ | ⟨enabled, after, wrapped, noted⟩
  · have all := frame_sameNames.trans before (frame_sameNames.trans (frame_sameNames.noted noted) behind)
    exact ⟨0, all.size, all.names⟩
  · have linked : third.unit.WellLinked :=
      File.checkLinks_ok_iff.mp (Phase.holds_of_attend linksRun (enabled _ requires) thirdRan)
    obtain ⟨below, tree⟩ := File.treeShaped_iff.mp linked.shaped
    have wrapRan : introduceTemporaries (wrap.begin config label third) = (.ok (), after) :=
      wrapRun ▸ wrapped
    cases (introduceTemporaries_apply _).symm.trans wrapRan
    have added : fourth.unit = third.unit.wrapCalls state.context.nextTemporary := by
      rw [noted.unit, ← before.number]
      rfl
    refine ⟨third.unit.exposedCalls.length, ?_, ?_⟩
    · rw [behind.size, added, File.wrapCalls, File.size_wrapEdges, before.size]
    · refine behind.names.trans ?_
      rw [added]
      exact (tree.temporaryNames_wrapCalls _).trans (before.names.append_left _)

/-- What a run of the file phases in a scope of its own does to the names of the temporaries that are
reachable. Distinct names stay distinct exactly if none of those is taken that the new temporaries
get. -/
theorem filePhases_temporaryNames {state after : State σ File}
    (ran : filePhases.runFile config state = (.ok (), after)) :
    ∃ count, after.unit.size = state.unit.size + count ∧
      after.unit.temporaryNames.Perm (numberedNames 0 count ++ state.unit.temporaryNames) ∧
      (after.unit.temporaryNames.Nodup ↔ state.unit.temporaryNames.Nodup ∧
        ∀ i < count, s!"tmp{i}" ∉ state.unit.temporaryNames) := by
  rw [PhaseList.runFile_apply] at ran
  rcases inner : filePhases.run config (PhaseList.enter state) with ⟨(error | _) | _, last⟩
  · rw [inner] at ran
    cases ran
  · rw [inner] at ran
    cases ran
  · rw [inner] at ran
    cases ran
    obtain ⟨count, size, names⟩ := filePhases_names rfl inner
    refine ⟨count, size, names, names.nodup_iff.trans ?_⟩
    rw [List.nodup_append']
    constructor
    · rintro ⟨-, distinct, apart⟩
      exact ⟨distinct, fun i within => apart (mem_numberedNames.mpr ⟨i, within, rfl⟩)⟩
    · rintro ⟨distinct, free⟩
      refine ⟨nodup_numberedNames 0 count, distinct, fun name new => ?_⟩
      obtain ⟨i, within, rfl⟩ := mem_numberedNames.mp new
      exact free i within

def File.relowered (name : String) : File where
  path := "main"
  nodes := #[
    { kind := .root, children := [1] },
    { kind := .function "main", parent := some 0, children := [3, 4] },
    { kind := .call "main" (some 0), parent := some 3 },
    { kind := .temporary name, parent := some 1, children := [2] },
    { kind := .call "main" none, parent := some 1 }]
  rooted := Nat.zero_lt_succ _

/-- A name further on is out of the way of a single new temporary. -/
theorem filePhases_temporaryNames_relowered :
    let state : State Unit File := ⟨(), {}, {}, File.relowered "tmp1"⟩
    ∃ after, filePhases.runFile {} state = (.ok (), after) ∧ after.unit.size = 6 ∧
      after.unit.temporaryNames.Nodup := by
  intro state
  have ran : filePhases.runFile {} state = (.ok (), (filePhases.runFile {} state).2) :=
    Prod.ext (by cbv) rfl
  have grown : (filePhases.runFile {} state).2.unit.size = 6 := by cbv
  have names : state.unit.temporaryNames = ["tmp1"] := by cbv
  obtain ⟨count, size, -, distinct⟩ := filePhases_temporaryNames ran
  have one : count = 1 := Nat.add_left_cancel (size.symm.trans grown : 5 + count = 5 + 1)
  refine ⟨_, ran, grown, distinct.mpr ?_⟩
  rw [names, one]
  refine ⟨List.nodup_singleton _, fun i within => ?_⟩
  rw [Nat.lt_one_iff.mp within]
  decide

/-- The first name is given again although the file has a temporary that is called so. -/
theorem filePhases_not_always_distinct :
    ¬ ∀ (config : Config) (state after : State Unit File), state.unit.checkLinks = .ok () →
      state.unit.temporaryNames.Nodup → filePhases.runFile config state = (.ok (), after) →
      after.unit.temporaryNames.Nodup := by
  intro distinct
  let state : State Unit File := ⟨(), {}, {}, File.relowered "tmp0"⟩
  have ran : filePhases.runFile {} state = (.ok (), (filePhases.runFile {} state).2) :=
    Prod.ext (by cbv) rfl
  have before : state.unit.temporaryNames = ["tmp0"] := by cbv
  have after : (filePhases.runFile {} state).2.unit.temporaryNames = ["tmp0", "tmp0"] := by cbv
  have still := distinct {} state _ (by cbv) (before ▸ List.nodup_singleton _) ran
  rw [after] at still
  exact absurd still (by decide)

end StagedLowering
