import StagedLowering.Tree.Edit
import StagedLowering.Proofs.Links

/-!
# Built files

A step of a build makes its node before the parent is looked for, so the number of that node itself
passes for a parent. The node then lists itself and nothing leads to it. `build_cases` shows that
this is all that can go wrong: a built file is well linked, and it is one tree of all its nodes
exactly if no step names its own node.
-/

namespace StagedLowering.File

variable {file next : File} {steps : List BuildStep} {parent child : NodeId} {kind : NodeKind}

/-! ### One step -/

theorem addChild_eq_some :
    file.addChild parent kind = some next ↔ parent ≤ file.size ∧
      (file.push { kind, parent := some parent }).modify parent (fun node =>
        { node with children := node.children ++ [file.size] }) = next := by
  rw [addChild, size_push]
  by_cases within : parent < file.size + 1
  · rw [if_pos within, Option.some_inj]
    exact (and_iff_right (Nat.le_of_lt_succ within)).symm
  · rw [if_neg within]
    exact ⟨nofun, fun both => absurd (Nat.lt_succ_of_le both.1) within⟩

theorem exists_addChild (kind : NodeKind) (within : parent ≤ file.size) :
    ∃ next, file.addChild parent kind = some next :=
  ⟨_, addChild_eq_some.mpr ⟨within, rfl⟩⟩

section addChild

variable (added : file.addChild parent kind = some next)

include added

theorem size_addChild : next.size = file.size + 1 := by
  obtain ⟨_, rfl⟩ := addChild_eq_some.mp added
  rw [size_modify, size_push]

theorem parent?_addChild (id : NodeId) :
    next.parent? id = if id = file.size then some parent else file.parent? id := by
  obtain ⟨_, rfl⟩ := addChild_eq_some.mp added
  refine (parent?_modify ?_).trans (parent?_push ..)
  exact fun _ => rfl

theorem children_addChild (id : NodeId) :
    next.children id = file.children id ++ if id = parent then [file.size] else [] := by
  obtain ⟨within, rfl⟩ := addChild_eq_some.mp added
  have unmade : file.children file.size = [] := by
    rw [children, node?_eq_none.mpr (Nat.le_refl _), Option.elim_none]
  have pushed : (file.push { kind, parent := some parent }).children id = file.children id := by
    rw [children_push]
    by_cases new : id = file.size
    · rw [if_pos new, new, unmade]
    · rw [if_neg new]
  rw [children, node?_modify]
  by_cases here : parent = id
  · have exists_ : id < (file.push { kind, parent := some parent }).size := by
      rw [size_push, ← here]
      exact Nat.lt_succ_of_le within
    obtain ⟨node, found⟩ := exists_node? exists_
    rw [if_pos here, if_pos here.symm, found, Option.map_some, Option.elim_some, ← pushed,
      children_of_node? found]
  · rw [if_neg here, if_neg (Ne.symm here), List.append_nil]
    exact pushed

end addChild

/-! ### All steps -/

/-- A file after these steps: node `i + 1` was made by step `i`, and a node is listed once by the
parent that it was given and by no other. -/
structure BuiltBy (file : File) (steps : List BuildStep) : Prop where
  size : file.size = steps.length + 1
  rootUnset : file.parent? root = none
  made : ∀ (i : Nat) (step : BuildStep), steps[i]? = some step →
    file.parent? (i + 1) = some step.parent ∧ step.parent ≤ i + 1
  listed : ∀ {parent child : NodeId},
    child ∈ file.children parent ↔ file.parent? child = some parent
  distinct : ∀ parent : NodeId, (file.children parent).Nodup

theorem builtBy_nil (path : String) : ({ path } : File).BuiltBy [] where
  size := rfl
  rootUnset := rfl
  made _ _ made := nomatch made
  listed {parent child} := by
    cases parent <;> cases child <;> simp [children, parent?, node?]
  distinct parent := by
    cases parent <;> simp [children, node?]

theorem BuiltBy.addChild {step : BuildStep} (builtBy : file.BuiltBy steps)
    (added : file.addChild step.parent step.kind = some next) : next.BuiltBy (steps ++ [step]) := by
  obtain ⟨size, rootUnset, made, listed, distinct⟩ := builtBy
  have within := (addChild_eq_some.mp added).1
  have unmade : file.parent? file.size = none := by
    rw [parent?, node?_eq_none.mpr (Nat.le_refl _), Option.bind_none]
  have unlisted (id : NodeId) : file.size ∉ file.children id := by
    rw [listed, unmade]
    exact (Option.some_ne_none id).symm
  refine ⟨?_, ?_, ?_, ?_, ?_⟩
  · rw [size_addChild added, size, List.length_append, List.length_singleton]
  · rw [parent?_addChild added, if_neg (Nat.ne_of_lt (root_lt file))]
    exact rootUnset
  · intro i other found
    rw [parent?_addChild added]
    rcases Nat.lt_or_ge i steps.length with earlier | last
    · have old : i + 1 ≠ file.size := by omega
      rw [List.getElem?_append_left earlier] at found
      rw [if_neg old]
      exact made i other found
    · have inRange := (List.getElem?_eq_some_iff.mp found).1
      rw [List.length_append, List.length_singleton] at inRange
      have isLast : i = steps.length := by omega
      rw [isLast, List.getElem?_concat_length] at found
      cases found
      rw [isLast, ← size, if_pos rfl]
      exact ⟨rfl, within⟩
  · intro parent child
    rw [children_addChild added, parent?_addChild added, List.mem_append, listed]
    by_cases new : child = file.size
    · rw [if_pos new, new, unmade]
      by_cases here : parent = step.parent <;> simp [here, eq_comm]
    · rw [if_neg new]
      by_cases here : parent = step.parent <;> simp [here, new]
  · intro parent
    rw [children_addChild added]
    by_cases here : parent = step.parent
    · rw [if_pos here]
      refine List.nodup_append.mpr ⟨distinct parent, List.nodup_singleton _, ?_⟩
      rintro child old _ new rfl
      rw [List.mem_singleton.mp new] at old
      exact unlisted parent old
    · rw [if_neg here, List.append_nil]
      exact distinct parent

/-- A build ends at the first step whose parent lies beyond its own node. -/
theorem BuiltBy.build (builtBy : file.BuiltBy steps) (more : List BuildStep) :
    match file.build more with
    | none =>
      ∃ (i : Nat) (step : BuildStep), more[i]? = some step ∧ steps.length + i + 1 < step.parent
    | some last => last.BuiltBy (steps ++ more) := by
  induction more generalizing file steps with
  | nil =>
    show file.BuiltBy (steps ++ [])
    rwa [List.append_nil]
  | cons step rest ih =>
    rw [File.build, List.foldlM_cons]
    cases added : file.addChild step.parent step.kind with
    | none =>
      refine ⟨0, step, rfl, Nat.lt_of_not_le fun within => ?_⟩
      obtain ⟨next, made⟩ := exists_addChild step.kind (builtBy.size ▸ within)
      rw [added] at made
      cases made
    | some next =>
      have later := ih (builtBy.addChild added)
      rw [List.append_assoc, List.singleton_append] at later
      show match next.build rest with
        | none => _
        | some last => _
      cases built : next.build rest with
      | some last =>
        rw [built] at later
        exact later
      | none =>
        rw [built] at later
        obtain ⟨i, other, found, beyond⟩ := later
        refine ⟨i + 1, other, found, ?_⟩
        rw [List.length_append, List.length_singleton] at beyond
        rwa [show steps.length + (i + 1) + 1 = steps.length + 1 + i + 1 by omega]

/-! ### What was built -/

theorem BuiltBy.wellLinked (builtBy : file.BuiltBy steps) : file.WellLinked where
  rootUnset := by
    rw [← parent?_root]
    exact builtBy.rootUnset
  shaped := {
    inRange := fun _ listed => by
      obtain ⟨node, found, _⟩ := parent?_some (builtBy.listed.mp listed)
      exact lt_of_node? found
    distinct := fun _ => builtBy.distinct _
    single := fun _ _ listed listedAgain => by
      have same := (builtBy.listed.mp listed).symm.trans (builtBy.listed.mp listedAgain)
      exact Option.some.inj same
    rootUnlisted := fun _ listed => by
      have linked := builtBy.listed.mp listed
      rw [builtBy.rootUnset] at linked
      cases linked }
  links _ listed := builtBy.listed.mp listed

/-- Nothing leads to a node that is its own parent. -/
theorem BuiltBy.not_own_parent (builtBy : file.BuiltBy steps) {id : NodeId}
    (reachable : file.Reachable id) : file.parent? id ≠ some id := by
  induction reachable with
  | root =>
    rw [builtBy.rootUnset]
    exact nofun
  | child _ listed _ ih =>
    intro own
    have linked := builtBy.listed.mp listed
    rw [own] at linked
    cases linked
    exact ih own

theorem BuiltBy.reachable_iff (builtBy : file.BuiltBy steps) :
    (∀ id < file.size, file.Reachable id) ↔
      ∀ (i : Nat) (step : BuildStep), steps[i]? = some step → step.parent ≤ i := by
  constructor
  · intro reachable i step found
    obtain ⟨linked, within⟩ := builtBy.made i step found
    have exists_ : i + 1 < file.size := by
      rw [builtBy.size]
      exact Nat.succ_lt_succ (List.getElem?_eq_some_iff.mp found).1
    have foreign : step.parent ≠ i + 1 := fun own =>
      builtBy.not_own_parent (reachable _ exists_) (own ▸ linked)
    exact Nat.le_of_lt_succ (Nat.lt_of_le_of_ne within foreign)
  · intro before id
    induction id using Nat.strongRecOn with
    | ind id ih =>
      intro exists_
      cases id with
      | zero => exact .root
      | succ i =>
        have inSteps : i < steps.length := by
          rw [builtBy.size] at exists_
          exact Nat.lt_of_succ_lt_succ exists_
        have found := List.getElem?_eq_getElem inSteps
        have earlier := Nat.lt_succ_of_le (before i _ found)
        have above := ih steps[i].parent earlier (Nat.lt_trans earlier exists_)
        exact .child above (builtBy.listed.mpr (builtBy.made i _ found).1) exists_

/-- A build fails exactly at a step that names a node beyond its own, and what it makes is well
linked. All its nodes are on the walk exactly if every step names a node before its own. -/
theorem build_cases (path : String) (steps : List BuildStep) :
    match ({ path } : File).build steps with
    | none => ∃ (i : Nat) (step : BuildStep), steps[i]? = some step ∧ i + 1 < step.parent
    | some file =>
      file.checkLinks = .ok () ∧
        (file.preorder.Perm (List.range file.size) ↔
          ∀ (i : Nat) (step : BuildStep), steps[i]? = some step → step.parent ≤ i) := by
  have built := (builtBy_nil path).build steps
  cases result : ({ path } : File).build steps with
  | none =>
    rw [result] at built
    simpa using built
  | some file =>
    rw [result] at built
    have builtBy : file.BuiltBy steps := built
    refine ⟨checkLinks_ok_iff.mpr builtBy.wellLinked, Iff.trans ?_ builtBy.reachable_iff⟩
    rw [List.perm_ext_iff_of_nodup (preorder_nodup file) List.nodup_range]
    simp only [mem_preorder, List.mem_range]
    exact ⟨fun all id exists_ => (all id).mpr exists_,
      fun all id => ⟨Reachable.lt, all id⟩⟩

def ownParent : File where
  path := "main"
  nodes := #[{ kind := .root }, { kind := .function "f", parent := some 1, children := [1] }]

/-- The build succeeds and nothing leads to the function. -/
theorem not_always_reachable :
    ¬ ∀ (path : String) (steps : List BuildStep) (file : File),
      ({ path } : File).build steps = some file →
        file.checkLinks = .ok () ∧ ∀ id < file.size, file.preorder.count id = 1 := by
  intro always
  have built : ({ path := "main" } : File).build [.function 1 "f"] = some ownParent := by decide
  have walk : ownParent.preorder = [0] := by cbv
  have once := (always _ _ _ built).2 1 (by decide)
  rw [walk] at once
  cases once

end StagedLowering.File
