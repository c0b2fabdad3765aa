import Mathlib
import StagedLowering.Proofs.Links
import StagedLowering.Proofs.Printing

/-!
# Rendering

The text of a module is one line after another, and the lines of a file are those up to the next
line without a blank in front. The lines of a file give its nodes in the order of a walk with their
links, which is enough to find the lists again: a node lists those that link to it, in that order
(`WellLinked.children_eq`). So well linked modules with one text are the same as far as they can be
reached, but for what their roots are (`render_inj`).
-/

namespace StagedLowering

/-! ### Lines -/

def Text.lined (lines : List (List Char)) : List Char := lines.flatMap (· ++ ['\n'])

theorem Text.lined_inj {lines others : List (List Char)} (plain : ∀ line ∈ lines, '\n' ∉ line)
    (plainToo : ∀ line ∈ others, '\n' ∉ line) (same : lined lines = lined others) :
    lines = others := by
  induction lines generalizing others with
  | nil =>
    cases others with
    | nil => rfl
    | cons line others => exact absurd same.symm (by simp [lined])
  | cons line rest ih =>
    cases others with
    | nil => exact absurd same (by simp [lined])
    | cons other others =>
      simp only [lined, List.flatMap_cons, List.append_assoc, List.singleton_append] at same
      rw [List.forall_mem_cons] at plain plainToo
      obtain ⟨here, behind⟩ := cut_first plain.1 plainToo.1 same
      rw [here, ih plain.2 plainToo.2 behind]

/-- Lines with a blank in front end at the first line without one. -/
theorem Text.cut_body {body more rest others : List (List Char)}
    (inner : ∀ line ∈ body, line.head? = some ' ') (innerToo : ∀ line ∈ more, line.head? = some ' ')
    (outer : ∀ line, rest.head? = some line → line.head? ≠ some ' ')
    (outerToo : ∀ line, others.head? = some line → line.head? ≠ some ' ')
    (same : body ++ rest = more ++ others) : body = more ∧ rest = others := by
  rcases List.append_eq_append_iff.mp same with ⟨middle, rfl, rfl⟩ | ⟨middle, rfl, rfl⟩
  · cases middle with
    | nil => exact ⟨(List.append_nil _).symm, rfl⟩
    | cons line middle =>
      exact absurd (innerToo line (List.mem_append_right _ List.mem_cons_self)) (outer line rfl)
  · cases middle with
    | nil => exact ⟨List.append_nil _, rfl⟩
    | cons line middle =>
      exact absurd (inner line (List.mem_append_right _ List.mem_cons_self)) (outerToo line rfl)

/-! ### Forests -/

theorem Forest.roots_sublist (forest : Forest) : forest.roots.Sublist forest.ids := by
  induction forest with
  | nil => exact .slnil
  | cons id below beside _ ih => exact (ih.trans (List.sublist_append_right ..)).cons_cons id

namespace File

variable {file other : File} {entry : Shown} {parent child id : NodeId} {forest : Forest}

def shown? (file : File) : NodeId × Nat → Option Shown
  | (id, depth) => (file.node? id).map fun node => ⟨id, depth, node.kind, node.parent⟩

def shown (file : File) : List Shown := file.walk.tail.filterMap file.shown?

def heading (file : File) : List Char := "file ".toList ++ file.path.toList

def lines (file : File) : List (List Char) := file.heading :: file.shown.map Shown.chars

theorem toList_renderNodes (file : File) (walked : List (NodeId × Nat)) :
    (String.join (walked.map fun (id, depth) =>
      ((file.node? id).map (renderNode id depth)).getD "")).toList =
    Text.lined ((walked.filterMap file.shown?).map Shown.chars) := by
  rw [String.toList_join]
  induction walked with
  | nil => rfl
  | cons entry walked ih =>
    obtain ⟨id, depth⟩ := entry
    rw [List.map_cons, List.flatMap_cons, ih]
    cases found : file.node? id with
    | none => simp [shown?, found]
    | some node => simp [shown?, found, Shown.toList_renderNode, Text.lined]

theorem toList_render (file : File) : file.render.toList = Text.lined file.lines := by
  have printed : file.render = "file " ++ file.path ++ "\n" ++ String.join (file.walk.tail.map
    fun (id, depth) => ((file.node? id).map (renderNode id depth)).getD "") := rfl
  rw [printed, String.toList_append, toList_renderNodes, String.toList_append, String.toList_append]
  rfl

/-! ### Shown nodes -/

theorem le_depth_walkFrom (unseen : List NodeId) (pending : List (NodeId × Nat)) {least : Nat}
    (deep : ∀ entry ∈ pending, least ≤ entry.2) :
    ∀ entry ∈ file.walkFrom unseen pending, least ≤ entry.2 := by
  fun_induction walkFrom file unseen pending with
  | case1 => exact deep
  | case2 unseen id depth pending fresh ih =>
    rw [List.forall_mem_cons] at deep ⊢
    refine ⟨deep.1, ih fun entry member => ?_⟩
    rcases List.mem_append.mp member with new | old
    · obtain ⟨child, -, rfl⟩ := List.mem_map.mp new
      exact Nat.le_succ_of_le deep.1
    · exact deep.2 entry old
  | case3 unseen id depth pending seen ih => exact ih (List.forall_mem_cons.mp deep).2

theorem walk_eq (file : File) :
    file.walk = (root, 0) :: file.walkFrom ((List.range file.size).erase root)
      ((file.children root).map (·, 1)) := by
  rw [walk, walkFrom, if_pos (List.mem_range.mpr (root_lt file)), List.append_nil]

theorem mem_tail_walk {entry : NodeId × Nat} (member : entry ∈ file.walk.tail) :
    file.Reachable entry.1 ∧ entry.1 ≠ root ∧ 0 < entry.2 := by
  have nodup := preorder_nodup file
  have walked : entry.1 ∈ file.preorder := List.mem_map_of_mem (List.mem_of_mem_tail member)
  have deep : ∀ entry ∈ file.walk.tail, 1 ≤ entry.2 := by
    rw [walk_eq]
    refine le_depth_walkFrom _ _ fun entry member => ?_
    obtain ⟨child, -, rfl⟩ := List.mem_map.mp member
    exact Nat.le_refl 1
  refine ⟨mem_preorder.mp walked, ?_, deep entry member⟩
  intro isRoot
  have again : root ∈ file.walk.tail.map (·.1) := isRoot ▸ List.mem_map_of_mem member
  rw [preorder, walk_eq, List.map_cons, List.nodup_cons] at nodup
  rw [walk_eq] at again
  exact nodup.1 again

/-- What is shown of a node is so, and it is reachable and not the root. -/
theorem of_mem_shown (member : entry ∈ file.shown) :
    (file.Reachable entry.id ∧ entry.id ≠ root ∧ 0 < entry.depth) ∧
      file.kind? entry.id = some entry.kind ∧ file.parent? entry.id = entry.parent := by
  obtain ⟨⟨id, depth⟩, walked, printed⟩ := List.mem_filterMap.mp member
  obtain ⟨node, found, rfl⟩ := Option.map_eq_some_iff.mp printed
  refine ⟨mem_tail_walk walked, ?_, ?_⟩
  · rw [kind?, found, Option.map_some]
  · rw [parent?, found, Option.bind_some]

/-- Every node that is walked through is shown, but for the root. -/
theorem walk_eq_shown (file : File) :
    file.walk = (root, 0) :: file.shown.map fun entry => (entry.id, entry.depth) := by
  have entries : file.shown.map (fun entry => (entry.id, entry.depth)) = file.walk.tail := by
    rw [shown, List.map_filterMap]
    refine (List.filterMap_congr fun entry member => ?_).trans List.filterMap_some
    obtain ⟨id, depth⟩ := entry
    obtain ⟨node, found⟩ := exists_node? (mem_tail_walk member).1.lt
    simp only [shown?, found, Option.map_some]
  rw [entries, walk_eq]
  rfl

theorem preorder_eq_shown (file : File) : file.preorder = root :: file.shown.map (·.id) := by
  rw [preorder, walk_eq_shown, List.map_cons, List.map_map]
  rfl

theorem exists_shown (reachable : file.Reachable id) (below : id ≠ root) :
    ∃ entry ∈ file.shown, entry.id = id := by
  have walked := mem_preorder.mpr reachable
  rw [preorder_eq_shown, List.mem_cons] at walked
  exact List.mem_map.mp (walked.resolve_left below)

/-! ### Lists -/

theorem Spells.children_sublist (spells : file.Spells forest) (member : id ∈ forest.ids) :
    (file.children id).Sublist forest.ids := by
  induction forest with
  | nil => cases member
  | cons head below beside belowIh besideIh =>
    obtain ⟨lists, belowSpells, besideSpells⟩ := spells
    have toBelow : below.ids.Sublist (head :: (below.ids ++ beside.ids)) :=
      (List.sublist_append_left ..).cons head
    have toBeside : beside.ids.Sublist (head :: (below.ids ++ beside.ids)) :=
      (List.sublist_append_right ..).cons head
    rcases List.mem_cons.mp member with rfl | later
    · rw [lists]
      exact below.roots_sublist.trans toBelow
    · rcases List.mem_append.mp later with inBelow | inBeside
      · exact (belowIh belowSpells inBelow).trans toBelow
      · exact (besideIh besideSpells inBeside).trans toBeside

theorem WellLinked.mem_children (linked : file.WellLinked) (reachable : file.Reachable parent) :
    child ∈ file.children parent ↔ file.Reachable child ∧ file.parent? child = some parent := by
  constructor
  · intro listed
    exact ⟨.child reachable listed (linked.shaped.inRange reachable listed),
      linked.links reachable listed⟩
  · rintro ⟨isReachable, link⟩
    cases isReachable with
    | root =>
      rw [parent?_root, linked.rootUnset] at link
      cases link
    | child above listed _ =>
      have same := Option.some.inj ((linked.links above listed).symm.trans link)
      exact same ▸ listed

/-- A node lists those that link to it, in the order of a walk. -/
theorem WellLinked.children_eq (linked : file.WellLinked) (reachable : file.Reachable parent) :
    file.children parent = file.preorder.filter (file.parent? · = some parent) := by
  obtain ⟨below, tree⟩ := treeShaped_iff.mp linked.shaped
  have walked : (Forest.cons root below .nil).ids = file.preorder := by
    rw [tree.preorder_eq, Forest.ids, Forest.ids, List.append_nil]
  have sublist : (file.children parent).Sublist file.preorder :=
    walked ▸ tree.spells.children_sublist (walked ▸ mem_preorder.mpr reachable)
  have links : (file.children parent).filter (file.parent? · = some parent) =
      file.children parent :=
    List.filter_eq_self.mpr fun child listed =>
      decide_eq_true ((linked.mem_children reachable).mp listed).2
  have within := links ▸ sublist.filter (file.parent? · = some parent)
  have perm : (file.children parent).Perm
      (file.preorder.filter (file.parent? · = some parent)) := by
    refine (List.perm_ext_iff_of_nodup (linked.shaped.distinct reachable)
      ((preorder_nodup file).filter _)).mpr fun child => ?_
    rw [linked.mem_children reachable, List.mem_filter, mem_preorder, decide_eq_true_eq]
  exact within.eq_of_length perm.length_eq

/-! ### Reading a file back -/

/-- Nothing that is printed of the file goes over the end of a line, and no alias has an equals sign
in its name. -/
structure Legible (file : File) : Prop where
  path : '\n' ∉ file.path.toList
  kinds : ∀ (id : NodeId) (kind : NodeKind), file.Reachable id → id ≠ root →
    file.kind? id = some kind → kind.Legible

/-- Files with the same path and the same tree, but for what their roots are and what cannot be
reached. -/
structure Resembles (file other : File) : Prop where
  path : file.path = other.path
  reachable : ∀ id : NodeId, file.Reachable id ↔ other.Reachable id
  kind : ∀ id : NodeId, file.Reachable id → id ≠ root → file.kind? id = other.kind? id
  parent : ∀ id : NodeId, file.Reachable id → file.parent? id = other.parent? id
  children : ∀ id : NodeId, file.Reachable id → file.children id = other.children id

theorem legible_of_nodes (path : '\n' ∉ file.path.toList)
    (kinds : ∀ node ∈ file.nodes.toList, node.kind.Legible) : file.Legible where
  path := path
  kinds id kind _ _ found := by
    obtain ⟨node, entry, rfl⟩ := Option.map_eq_some_iff.mp found
    exact kinds node (Array.mem_toList_iff.mpr (Array.mem_of_getElem? entry))

theorem Legible.of_mem_shown (legible : file.Legible) (member : entry ∈ file.shown) :
    entry.kind.Legible := by
  obtain ⟨⟨reachable, below, -⟩, found, -⟩ := File.of_mem_shown member
  exact legible.kinds entry.id entry.kind reachable below found

theorem Legible.plain (legible : file.Legible) : ∀ line ∈ file.lines, '\n' ∉ line := by
  refine List.forall_mem_cons.mpr ⟨?_, ?_⟩
  · exact List.not_mem_append (by decide) legible.path
  · intro line member
    obtain ⟨entry, printed, rfl⟩ := List.mem_map.mp member
    exact Shown.newline_not_mem_chars (legible.of_mem_shown printed)

/-- Well linked files with the same path that show the same resemble each other. -/
theorem WellLinked.resembles (linked : file.WellLinked) (otherLinked : other.WellLinked)
    (path : file.path = other.path) (same : file.shown = other.shown) : file.Resembles other := by
  have walks : file.preorder = other.preorder := by
    rw [preorder_eq_shown, preorder_eq_shown, same]
  have reachable (id : NodeId) : file.Reachable id ↔ other.Reachable id := by
    rw [← mem_preorder, ← mem_preorder, walks]
  have parents (id : NodeId) (inFile : file.Reachable id) : file.parent? id = other.parent? id := by
    by_cases isRoot : id = root
    · rw [isRoot, parent?_root, parent?_root, linked.rootUnset, otherLinked.rootUnset]
    · obtain ⟨entry, member, rfl⟩ := exists_shown inFile isRoot
      rw [(of_mem_shown member).2.2, (of_mem_shown (same ▸ member)).2.2]
  refine ⟨path, reachable, fun id inFile below => ?_, parents, fun id inFile => ?_⟩
  · obtain ⟨entry, member, rfl⟩ := exists_shown inFile below
    rw [(of_mem_shown member).2.1, (of_mem_shown (same ▸ member)).2.1]
  · rw [linked.children_eq inFile, otherLinked.children_eq ((reachable id).mp inFile), ← walks]
    refine List.filter_congr fun child walked => ?_
    rw [parents child (mem_preorder.mp walked)]

end File

namespace Module

def lines (m : Module) : List (List Char) :=
  ("module ".toList ++ m.name.toList) :: m.files.flatMap File.lines

structure Legible (m : Module) : Prop where
  name : '\n' ∉ m.name.toList
  files : ∀ file ∈ m.files, file.Legible

variable {m other : Module}

theorem toList_render (m : Module) : m.render.toList = Text.lined m.lines := by
  have printed : m.render = "module " ++ m.name ++ "\n" ++ String.join (m.files.map File.render) :=
    rfl
  have files : (String.join (m.files.map File.render)).toList =
      Text.lined (m.files.flatMap File.lines) := by
    rw [String.toList_join, List.flatMap_map]
    simp only [File.toList_render, Text.lined, List.flatMap_assoc]
  rw [printed, String.toList_append, files, String.toList_append, String.toList_append]
  rfl

/-- The lines of a file end where those of the next begin. -/
theorem forall₂_of_lines {files others : List File}
    (same : files.flatMap File.lines = others.flatMap File.lines) :
    List.Forall₂ (fun file other => file.lines = other.lines) files others := by
  have inner (file : File) : ∀ line ∈ file.shown.map Shown.chars, line.head? = some ' ' := by
    intro line member
    obtain ⟨entry, printed, rfl⟩ := List.mem_map.mp member
    exact Shown.head?_chars (File.of_mem_shown printed).1.2.2
  have outer (files : List File) :
      ∀ line, (files.flatMap File.lines).head? = some line → line.head? ≠ some ' ' := by
    intro line first
    cases files with
    | nil => cases first
    | cons file rest =>
      cases first
      exact fun blank => absurd (Option.some.inj blank) (by decide)
  induction files generalizing others with
  | nil =>
    cases others with
    | nil => exact .nil
    | cons other others => cases same
  | cons file files ih =>
    cases others with
    | nil => cases same
    | cons other others =>
      obtain ⟨headings, behind⟩ := List.cons.inj same
      obtain ⟨bodies, rest⟩ := Text.cut_body (inner file) (inner other) (outer files) (outer others)
        behind
      refine .cons ?_ (ih rest)
      rw [File.lines, File.lines, headings, bodies]

theorem Legible.plain (legible : m.Legible) : ∀ line ∈ m.lines, '\n' ∉ line := by
  refine List.forall_mem_cons.mpr ⟨?_, ?_⟩
  · exact List.not_mem_append (by decide) legible.name
  · intro line member
    obtain ⟨file, inModule, printed⟩ := List.mem_flatMap.mp member
    exact (legible.files file inModule).plain line printed

/-- Well linked modules that render to the same text have the same name, and their files have the
same paths and trees, one after the other. -/
theorem render_inj (legible : m.Legible) (otherLegible : other.Legible)
    (linked : m.checkLinks = .ok ()) (otherLinked : other.checkLinks = .ok ())
    (same : m.render = other.render) :
    m.name = other.name ∧ List.Forall₂ File.Resembles m.files other.files := by
  have texts := congrArg String.toList same
  rw [toList_render, toList_render] at texts
  obtain ⟨names, files⟩ := List.cons.inj (Text.lined_inj legible.plain otherLegible.plain texts)
  refine ⟨String.toList_inj.mp (List.append_cancel_left names), ?_⟩
  obtain ⟨lengths, lines⟩ := List.forall₂_iff_get.mp (forall₂_of_lines files)
  refine List.forall₂_iff_get.mpr ⟨lengths, fun i within otherWithin => ?_⟩
  obtain ⟨headings, printed⟩ := List.cons.inj (lines i within otherWithin)
  have inModule := List.get_mem m.files ⟨i, within⟩
  have inOther := List.get_mem other.files ⟨i, otherWithin⟩
  have path := String.toList_inj.mp (List.append_cancel_left headings)
  have shown := Shown.map_chars_inj (fun _ => (legible.files _ inModule).of_mem_shown)
    (fun _ => (otherLegible.files _ inOther).of_mem_shown) printed
  exact (checkLinks_ok_iff.mp linked _ inModule).resembles
    (checkLinks_ok_iff.mp otherLinked _ inOther) path shown

def disguised : Module where
  name := "program"
  files := [{
    path := "main (parent #0)"
    nodes := #[{ kind := .root, children := [1, 3] },
      { kind := .function "f (parent #0)", parent := some 0, children := [2] },
      { kind := .call "g -> $1" none, parent := some 1 },
      { kind := .synonym "a -> ?" "b = c -> $2" (some 1), parent := some 0 }] }]

def disguisedAgain : Module :=
  { disguised with
    files := disguised.files.map fun file =>
      (file.setKind File.root .block).push { kind := .literal 1 } }

theorem render_inj_disguised :
    disguised ≠ disguisedAgain ∧ disguised.render = disguisedAgain.render ∧
      disguised.name = disguisedAgain.name ∧
        List.Forall₂ File.Resembles disguised.files disguisedAgain.files := by
  have legible : disguised.Legible :=
    ⟨by decide, List.forall_mem_singleton.mpr (File.legible_of_nodes (by decide) (by decide))⟩
  have legibleAgain : disguisedAgain.Legible :=
    ⟨by decide, List.forall_mem_singleton.mpr (File.legible_of_nodes (by decide) (by decide))⟩
  have linked : disguised.checkLinks = .ok () := by cbv
  have linkedAgain : disguisedAgain.checkLinks = .ok () := by cbv
  have same : disguised.render = disguisedAgain.render := by cbv
  exact ⟨by decide, same, render_inj legible legibleAgain linked linkedAgain same⟩

end Module

end StagedLowering
