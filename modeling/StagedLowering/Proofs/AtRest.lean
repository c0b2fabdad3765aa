import StagedLowering.Proofs.Echoes
import StagedLowering.Proofs.Preservation

/-!
# Files at rest

A pass that finds nothing to do leaves the file as it is: no block to open (`flatten_of_flat`), no
link to repair (`patchLinks_of_linked`), no call to wrap (`wrapCalls_of_none`). What one pass has
done to a tree, wrapping calls leaves done (`TreeShaped.stays_wrapCalls`).
-/

namespace StagedLowering

namespace File

variable {file : File} {id : NodeId} {fresh pending : List NodeId}

def Flat (file : File) : Prop := ∀ ⦃id : NodeId⦄, file.Reachable id → file.isBlock id = false

/-! ### Nothing to do -/

theorem setChildren_self (file : File) (id : NodeId) :
    file.setChildren id (file.children id) = file := by
  refine ext_of_views rfl (kind?_setChildren file id · _) (fun other => ?_)
    (parent?_setChildren file id · _)
  by_cases exists_ : id < file.size
  · rw [children_setChildren exists_]
    split
    · next same => rw [same]
    · rfl
  · rw [children, setChildren, node?_modify]
    split
    · next same =>
      have missing : file.node? other = none :=
        node?_eq_none.mpr (Nat.not_lt.mp (same ▸ exists_))
      simp [children, missing]
    · rw [children]

theorem splice_of_plain (plain : ∀ id ∈ pending, file.isBlock id = false) :
    file.splice fresh pending = (pending, fresh) := by
  induction pending with
  | nil => rw [splice]
  | cons id pending ih =>
    rw [List.forall_mem_cons] at plain
    rw [splice, plain.1, ih plain.2]
    rfl

theorem Flat.flattenAt (flat : file.Flat) (reachable : file.Reachable id) :
    flattenAt id (file, fresh) = (file, fresh) := by
  have plain : ∀ child ∈ file.children id, file.isBlock child = false := by
    intro child listed
    by_cases exists_ : child < file.size
    · exact flat (.child reachable listed exists_)
    · rw [isBlock, kind?, node?_eq_none.mpr (Nat.not_lt.mp exists_)]
      rfl
  rw [flattenAt_of_not_isBlock _ (flat reachable), splice_of_plain plain, setChildren_self]

theorem Flat.flattenEach (flat : file.Flat) {ids : List NodeId}
    (reachable : ∀ id ∈ ids, file.Reachable id) :
    flattenEach (file, fresh) ids = (file, fresh) := by
  induction ids with
  | nil => rfl
  | cons id ids ih =>
    rw [List.forall_mem_cons] at reachable
    rw [flattenEach_cons, flat.flattenAt reachable.1, ih reachable.2]

theorem flatten_of_flat (flat : file.Flat) : file.flatten = (file, 0) := by
  have unchanged (fresh : List NodeId) :
      file.preorder.foldl (fun state id => File.flattenAt id state) (file, fresh) = (file, fresh) :=
    flat.flattenEach fun _ member => mem_preorder.mp member
  simp only [flatten, unchanged, Nat.sub_self]

theorem patchEdges_of_linked {edges : List (NodeId × NodeId)} (count : Nat)
    (linked : ∀ edge ∈ edges, file.parent? edge.2 = some edge.1) :
    edges.foldl patchEdge (file, count) = (file, count) := by
  induction edges with
  | nil => rfl
  | cons edge edges ih =>
    rw [List.forall_mem_cons] at linked
    obtain ⟨node, found, link⟩ := parent?_some linked.1
    have here : patchEdge (file, count) edge = (file, count) := by
      simp [patchEdge, found, link]
    rw [List.foldl_cons, here, ih linked.2]

theorem patchLinks_of_linked (linked : file.Linked) : file.patchLinks = (file, 0) :=
  patchEdges_of_linked 0 fun _ member =>
    linked (mem_edges.mp member).1 (mem_edges.mp member).2.1

theorem wrapCalls_of_none (none : file.exposedCalls = []) (number : Nat) :
    file.wrapCalls number = file := by
  rw [wrapCalls, none, wrapEdges]

/-! ### What stays done -/

theorem Flat.patchLinks (flat : file.Flat) : file.patchLinks.1.Flat := fun id reachable => by
  rw [isBlock_congr (kind?_patchLinks file id)]
  exact flat (reachable_patchLinks.mp reachable)

theorem flat_flatten (rootPlain : file.isBlock root = false) : file.flatten.1.Flat :=
  fun id reachable => by
    rw [isBlock_congr (kind?_flatten file id)]
    exact isBlock_of_reachable_flatten rootPlain reachable

structure Stays (file other : File) : Prop where
  flat : file.Flat → other.Flat
  linked : file.Linked → other.Linked
  wellLinked : file.WellLinked → other.WellLinked

/-- Wrapping adds temporaries to a tree and moves calls, nothing else. -/
theorem TreeShaped.stays_wrapCalls (shaped : file.TreeShaped) (number : Nat) :
    file.Stays (file.wrapCalls number) := by
  obtain ⟨below, tree⟩ := treeShaped_iff.mp shaped
  obtain ⟨⟨grown, wrapped⟩, -⟩ := tree.wrapCalls number
  refine ⟨fun flat id reachable => ?_, fun linked => linked.wrapEdges tree tree.exposed number,
    fun linked => linked.wrapCalls number⟩
  by_cases old : id < file.size
  · rw [isBlock_congr (wrapped.kinds id old)]
    exact flat (wrapped.old id old reachable)
  · have temporary := wrapped.added id (Nat.not_lt.mp old) reachable.lt
    obtain ⟨name, kind⟩ := isTemporary_iff.mp temporary
    rw [isBlock, kind]
    rfl

end File

/-! ### Passes with nothing to do -/

variable {σ : Type} {config : Config}

theorem flattenBlocks_of_flat {state : State σ File} (flat : state.unit.Flat) :
    flattenBlocks state =
      (.ok (), { state with context := state.context.bump "blocks_flattened" 0 }) := by
  unfold flattenBlocks
  rw [Run.bind_of_ok (Run.getUnit_apply state), File.flatten_of_flat flat]
  rfl

section passes

variable {first : Context} {t : State σ File} (echoes : first.Echoes t.context)

include echoes

theorem flattenBlocks_repeats (flat : t.unit.Flat) (count : Nat) :
    flattenBlocks.Repeats t (first.bump "blocks_flattened" count) :=
  ⟨_, flattenBlocks_of_flat flat, rfl, echoes.bump _ count fun _ => rfl⟩

theorem patchParents_repeats (linked : t.unit.Linked) (count : Nat) :
    patchParents.Repeats t (first.bump "parents_patched" count) := by
  have ran := patchParents_apply t
  rw [File.patchLinks_of_linked linked] at ran
  exact ⟨_, ran, rfl, echoes.bump _ count fun _ => rfl⟩

theorem introduceTemporaries_repeats (none : t.unit.exposedCalls = []) (count : Nat) :
    introduceTemporaries.Repeats t (first.countTemporaries count) := by
  have ran := introduceTemporaries_apply t
  rw [File.wrapCalls_of_none none, none] at ran
  have bumped : (first.bump "temporaries" count).Echoes (t.context.bump "temporaries" 0) :=
    echoes.bump _ count fun _ => rfl
  obtain ⟨symbols, history, cancelled, executed, depth, unchanging⟩ := bumped
  refine ⟨_, ran, rfl, ?_⟩
  unfold Context.countTemporaries
  split
  · exact ⟨symbols, history, cancelled, executed, depth, unchanging⟩
  · exact ⟨symbols, history, cancelled, executed, depth, unchanging⟩

end passes

/-! ### The file phases -/

namespace Phase

variable {phase : Phase (Body σ File)} {label : String} {s last : State σ File}

theorem flatten_repeats (body : Executable.run phase.body config = flattenBlocks)
    (tree : s.unit.PlainTree) (ran : phase.run config label s = (.ok (), last)) :
    last.unit.PlainTree ∧ ∀ t : State σ File, s.context.Echoes t.context →
      (last.unit.Flat → t.unit.Flat) → (phase.run config label).Repeats t last.context := by
  rcases repeats_cases ran with ⟨same, again⟩ | ⟨after, did, made, again⟩
  · exact ⟨same ▸ tree, fun t echoes _ => again t echoes⟩
  · obtain ⟨trace, flattened⟩ := flattenBlocks_apply (phase.begin config label s)
    rw [body, flattened] at did
    cases did
    have flat : last.unit.Flat := made ▸ File.flat_flatten (File.isBlock_root tree.plain)
    refine ⟨made ▸ (File.preserves_flatten s.unit).plainTree tree, fun t echoes stays => ?_⟩
    refine again t echoes ?_
    rw [body]
    exact flattenBlocks_repeats (echoes_begin echoes) (stays flat) _

theorem patch_repeats (body : Executable.run phase.body config = patchParents)
    (tree : s.unit.PlainTree) (ran : phase.run config label s = (.ok (), last)) :
    last.unit.PlainTree ∧ (s.unit.Flat → last.unit.Flat) ∧
      ∀ t : State σ File, s.context.Echoes t.context → (last.unit.Linked → t.unit.Linked) →
        (phase.run config label).Repeats t last.context := by
  rcases repeats_cases ran with ⟨same, again⟩ | ⟨after, did, made, again⟩
  · exact ⟨same ▸ tree, fun flat => same ▸ flat, fun t echoes _ => again t echoes⟩
  · rw [body, patchParents_apply] at did
    cases did
    have linked : last.unit.Linked := made ▸ tree.shaped.linked_patchLinks
    refine ⟨made ▸ (File.preserves_patchLinks s.unit).plainTree tree,
      fun flat => made ▸ flat.patchLinks, fun t echoes stays => again t echoes ?_⟩
    rw [body]
    exact patchParents_repeats (echoes_begin echoes) (stays linked) _

theorem wrap_repeats (body : Executable.run phase.body config = introduceTemporaries)
    (tree : s.unit.PlainTree) (ran : phase.run config label s = (.ok (), last)) :
    s.unit.Stays last.unit ∧ ∀ t : State σ File, s.context.Echoes t.context →
      (last.unit.exposedCalls = [] → t.unit.exposedCalls = []) →
        (phase.run config label).Repeats t last.context := by
  rcases repeats_cases ran with ⟨same, again⟩ | ⟨after, did, made, again⟩
  · rw [same]
    exact ⟨⟨fun flat => flat, fun linked => linked, fun linked => linked⟩,
      fun t echoes _ => again t echoes⟩
  · rw [body, introduceTemporaries_apply] at did
    cases did
    obtain ⟨below, isTree⟩ := File.treeShaped_iff.mp tree.shaped
    have none : last.unit.exposedCalls = [] := made ▸ (isTree.wrapCalls _).2
    refine ⟨made ▸ tree.shaped.stays_wrapCalls _, fun t echoes stays => again t echoes ?_⟩
    rw [body]
    exact introduceTemporaries_repeats (echoes_begin echoes) (stays none) _

end Phase

/-- A file that the file phases have lowered has nothing left for them to do: what a phase has done
the later ones leave done, and what a check has accepted it accepts again. -/
theorem filePhases_repeats {s last t : State σ File} (tree : s.unit.PlainTree)
    (ran : filePhases.run config s = (.ok (), last)) (unit : t.unit = last.unit)
    (echoes : s.context.Echoes t.context) : (filePhases.run config).Repeats t last.context := by
  have label : WorkUnit.label t.unit = WorkUnit.label s.unit := by
    have address : last.unit.address = s.unit.address := (filePhases_address config).of_eq ran
    show s!"file `{t.unit.path}`" = s!"file `{s.unit.path}`"
    rw [unit, show last.unit.path = s.unit.path from congrArg Prod.snd address]
  refine PhaseList.repeats_of_label label ?_
  rw [PhaseList.run_apply] at ran
  generalize WorkUnit.label s.unit = label at ran ⊢
  obtain ⟨flatten, patch, links, wrap, temporaries, phases, flattenRun, patchRun, linksRun, wrapRun,
    temporariesRun⟩ := @filePhases_bodies σ config
  rw [phases] at ran ⊢
  rw [← funext_iff] at flattenRun patchRun linksRun wrapRun temporariesRun
  obtain ⟨flat, flatRan, ran⟩ := Run.forM_ok ran
  obtain ⟨patched, patchRan, ran⟩ := Run.forM_ok ran
  obtain ⟨linked, linksRan, ran⟩ := Run.forM_ok ran
  obtain ⟨wrapped, wrapRan, ran⟩ := Run.forM_ok ran
  obtain ⟨checked, checkRan, ran⟩ := Run.forM_ok ran
  cases ran
  obtain ⟨flatTree, flattenAgain⟩ := Phase.flatten_repeats flattenRun tree flatRan
  obtain ⟨patchedTree, staysFlat, patchAgain⟩ := Phase.patch_repeats patchRun flatTree patchRan
  obtain ⟨read, linksAgain⟩ := Phase.check_repeats linksRun linksRan
  obtain ⟨stays, wrapAgain⟩ := Phase.wrap_repeats wrapRun (read ▸ patchedTree) wrapRan
  obtain ⟨readAgain, temporariesAgain⟩ := Phase.check_repeats temporariesRun checkRan
  rw [read] at stays
  rw [readAgain] at unit
  refine Run.repeats_forM_cons (flattenAgain t echoes fun isFlat => ?_) fun t sameUnit echoes => ?_
  · rw [unit]
    exact stays.flat (staysFlat isFlat)
  have unit := sameUnit.trans unit
  refine Run.repeats_forM_cons (patchAgain t echoes fun isLinked => ?_) fun t sameUnit echoes => ?_
  · rw [unit]
    exact stays.linked isLinked
  have unit := sameUnit.trans unit
  refine Run.repeats_forM_cons (linksAgain t echoes fun accepted => ?_) fun t sameUnit echoes => ?_
  · rw [unit]
    exact File.checkLinks_ok_iff.mpr (stays.wellLinked (File.checkLinks_ok_iff.mp accepted))
  have unit := sameUnit.trans unit
  refine Run.repeats_forM_cons (wrapAgain t echoes fun none => ?_) fun t sameUnit echoes => ?_
  · rw [unit, none]
  have unit := sameUnit.trans unit
  refine Run.repeats_forM_cons (temporariesAgain t echoes fun accepted => ?_)
    fun t _ echoes => ⟨t, rfl, rfl, echoes⟩
  rw [unit]
  exact accepted

end StagedLowering
