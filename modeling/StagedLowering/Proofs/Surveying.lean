import Mathlib
import StagedLowering.Proofs.Charting
import StagedLowering.Proofs.Rendering
import StagedLowering.Pass.Standard

/-!
# Surveys of a list

The walk, the graph and the listing of nested lists are made apart from each other. They show the
same sites in the same order (`PhaseList.views_agree`).
-/

namespace StagedLowering

namespace Outline

def afterText : List PhaseId → String
  | [] => ""
  | prerequisites => " (after " ++ String.intercalate ", " prerequisites ++ ")"

def entry (outline : Outline) : String :=
  Text.padRight 24 outline.id ++ " [" ++ outline.granularity.text ++ " " ++ outline.kind.text ++
    "] " ++ outline.description ++ afterText outline.prerequisites

theorem line_eq (depth : Nat) (outline : Outline) :
    outline.line depth = Text.indent depth ++ outline.entry ++ "\n" := by
  have printed : outline.line depth = Text.indent depth ++ Text.padRight 24 outline.id ++ " " ++
      ("[" ++ outline.granularity.text ++ " " ++ outline.kind.text ++ "] " ++
        outline.description ++ afterText outline.prerequisites ++ "\n") := by
    rw [line, afterText.eq_def]
    rfl
  have bracket : " [" = " " ++ "[" := rfl
  rw [printed, entry, bracket]
  simp only [String.append_assoc]

theorem listAll_cons (depth : Nat) (outline : Outline) (rest : List Outline) :
    listAll depth (outline :: rest) =
      outline.line depth ++ listAll (depth + 1) outline.children ++ listAll depth rest := by
  cases outline
  rfl

end Outline

/-- Two blanks for each phase above, and what is listed of the phase. -/
def Site.line (site : Site) : List Char :=
  List.replicate (2 * site.depth) ' ' ++ site.phase.entry.toList

namespace Outline

variable {outline : Outline}

/-- The listing has a line for each site. -/
theorem toList_listAll (above : List PhaseId) (outlines : List Outline) :
    (listAll above.length outlines).toList = Text.lined ((sites above outlines).map Site.line) := by
  fun_induction sites above outlines with
  | case1 => rfl
  | case2 above outline rest below beside =>
    rw [List.length_append, List.length_singleton] at below
    rw [listAll_cons, line_eq]
    simp [Text.lined, below, beside, Site.line, Site.depth, Shown.toList_indent, Nat.mul_comm]

theorem not_mem_intercalate {c : Char} {gap : String} {names : List String}
    (inGap : c ∉ gap.toList) (plain : ∀ name ∈ names, c ∉ name.toList) :
    c ∉ (String.intercalate gap names).toList := by
  induction names with
  | nil => exact List.not_mem_nil
  | cons name rest ih =>
    rw [List.forall_mem_cons] at plain
    cases rest with
    | nil => rw [String.intercalate_singleton]; exact plain.1
    | cons next rest =>
      rw [String.intercalate_cons_cons, String.toList_append, String.toList_append]
      exact List.not_mem_append (List.not_mem_append plain.1 inGap) (ih plain.2)

theorem newline_not_mem_afterText {prerequisites : List PhaseId}
    (plain : ∀ id ∈ prerequisites, '\n' ∉ id.toList) :
    '\n' ∉ (afterText prerequisites).toList := by
  cases prerequisites with
  | nil => exact List.not_mem_nil
  | cons id rest =>
    have names : '\n' ∉ (String.intercalate ", " (id :: rest)).toList :=
      not_mem_intercalate (by decide) plain
    rw [afterText, String.toList_append, String.toList_append]
    · exact List.not_mem_append (List.not_mem_append (by decide) names) (by decide)
    · exact List.cons_ne_nil _ _

theorem newline_not_mem_entry (id : '\n' ∉ outline.id.toList)
    (description : '\n' ∉ outline.description.toList)
    (prerequisites : ∀ id ∈ outline.prerequisites, '\n' ∉ id.toList) :
    '\n' ∉ outline.entry.toList := by
  have padded : '\n' ∉ (Text.padRight 24 outline.id).toList := by
    rw [Text.padRight, String.toList_append, Text.blanks, String.toList_ofList]
    exact List.not_mem_append id fun blank => absurd (List.eq_of_mem_replicate blank) (by decide)
  have granularity : '\n' ∉ outline.granularity.text.toList := by
    cases outline.granularity <;> decide
  have kind : '\n' ∉ outline.kind.text.toList := by
    cases outline.kind <;> decide
  have after := newline_not_mem_afterText prerequisites
  simp [entry, padded, granularity, kind, description, after]

end Outline

namespace PhaseList

variable {σ : Type}

/-- The graph and the listing of a list show the phases of its walk, in that order. The graph names
each by its path, and its edges all go forward. The listing has a line for each, which the depth
indents. -/
theorem views_agree (list : PhaseList (ModuleBody σ)) :
    let sites := Outline.sites [] list.outlines
    Outline.Surveyed list.outlines sites ∧ list.graph.Charts sites ∧
    (∀ i : Nat, ¬Relation.TransGen (fun i j => ∃ kind, (i, j, kind) ∈ list.graph.edges) i i) ∧
    ((∀ outline ∈ Outline.walkAll list.outlines, '/' ∉ outline.id.toList) →
      list.graph.nodes.Nodup) ∧
    ((∀ outline ∈ Outline.walkAll list.outlines,
        '\n' ∉ outline.id.toList ∧ '\n' ∉ outline.description.toList) →
      list.listing.toList = Text.lined (sites.map Site.line) ∧
        ∀ site ∈ sites, '\n' ∉ site.line) := by
  intro sites
  have ordered := list.ordered_moduleOutlines
  have surveyed : Outline.Surveyed list.outlines sites := ordered.surveyed
  have charts : list.graph.Charts sites := ordered.charts
  have inWalk : ∀ site ∈ sites, site.phase ∈ Outline.walkAll list.outlines := fun site member =>
    surveyed.walked ▸ List.mem_map_of_mem member
  refine ⟨surveyed, charts, charts.acyclic, fun plain => ?_,
    fun plain => ⟨Outline.toList_listAll [] list.outlines, fun site member => ?_⟩⟩
  · rw [charts.names]
    refine Graph.nodup_names surveyed.distinct fun site member id listed => ?_
    rcases Outline.mem_path member listed with outer | inner
    · cases outer
    · obtain ⟨outline, inList, rfl⟩ := List.mem_map.mp inner
      exact plain outline inList
  · obtain ⟨id, description⟩ := plain site.phase (inWalk site member)
    have entry : '\n' ∉ site.phase.entry.toList := by
      refine Outline.newline_not_mem_entry id description fun name required => ?_
      obtain ⟨other, otherIn, -, rfl⟩ := surveyed.beside site member name required
      exact (plain other.phase (inWalk other otherIn)).1
    exact List.not_mem_append (fun blank => absurd (List.eq_of_mem_replicate blank) (by decide))
      entry

/-- The standard list has a line and a node for each of its eleven phases. -/
theorem views_agree_standard :
    let list : PhaseList (ModuleBody Unit) := modulePhases
    (Outline.walkAll list.outlines).length = 11 ∧
    ((∀ outline ∈ Outline.walkAll list.outlines, '/' ∉ outline.id.toList) ∧
      list.graph.nodes.Nodup) ∧
    (∀ outline ∈ Outline.walkAll list.outlines,
      '\n' ∉ outline.id.toList ∧ '\n' ∉ outline.description.toList) ∧
    list.listing.toList = Text.lined ((Outline.sites [] list.outlines).map Site.line) ∧
    ∀ site ∈ Outline.sites [] list.outlines, '\n' ∉ site.line := by
  intro list
  have slashes : ∀ outline ∈ Outline.walkAll list.outlines, '/' ∉ outline.id.toList := by decide
  have newlines : ∀ outline ∈ Outline.walkAll list.outlines,
      '\n' ∉ outline.id.toList ∧ '\n' ∉ outline.description.toList := by decide
  obtain ⟨-, -, -, named, listed⟩ := views_agree list
  exact ⟨by decide, ⟨slashes, named slashes⟩, newlines, listed newlines⟩

end PhaseList
end StagedLowering
