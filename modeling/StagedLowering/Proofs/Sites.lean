import Mathlib.Data.List.Nodup
import StagedLowering.Run.PerFile
import StagedLowering.Proofs.Schedule

/-!
# Where phases stand

In nested lists a phase stands at a site: underneath other phases, named by their ids from the top.
The sites in the order of a walk have paths of their own (`Ordered.nodup_paths`), and every phase
comes after the one it runs underneath and after its prerequisites, which are in its own list
(`Ordered.grounded`). All of it comes from how lists are checked, level by level (`Ordered`), and
`Ordered.surveyed` says what it comes to.
-/

namespace StagedLowering

structure Site where
  above : List PhaseId
  phase : Outline

namespace Site

def path (site : Site) : List PhaseId := site.above ++ [site.phase.id]

def depth (site : Site) : Nat := site.above.length

theorem path_eq_append_iff {site : Site} {above : List PhaseId} {id : PhaseId} :
    site.path = above ++ [id] ↔ site.above = above ∧ site.phase.id = id := by
  simp [path]

end Site

namespace Outline

theorem sizeOf_children_lt (outline : Outline) : sizeOf outline.children < sizeOf outline := by
  rcases outline with ⟨_, _, _, _, _, children⟩
  show sizeOf children < _
  rw [Outline.mk.sizeOf_spec]
  omega

def sites (above : List PhaseId) : List Outline → List Site
  | [] => []
  | outline :: rest =>
    ⟨above, outline⟩ :: (sites (above ++ [outline.id]) outline.children ++ sites above rest)
termination_by outlines => sizeOf outlines
decreasing_by
  · have within := outline.sizeOf_children_lt
    rw [List.cons.sizeOf_spec]
    omega
  · rw [List.cons.sizeOf_spec]
    omega

/-- Nested lists that were checked, when `before` are the ids that come earlier in the list. Only a
phase over every file has others underneath. -/
inductive Ordered : (before : List PhaseId) → List Outline → Prop
  | nil {before : List PhaseId} : Ordered before []
  | cons {before : List PhaseId} {outline : Outline} {rest : List Outline}
    (fresh : outline.id ∉ before) (ready : outline.prerequisites ⊆ before)
    (distinct : outline.prerequisites.Nodup)
    (nested : outline.children ≠ [] → outline.kind = .perFile)
    (below : Ordered [] outline.children) (beside : Ordered (before ++ [outline.id]) rest) :
    Ordered before (outline :: rest)

variable {above before : List PhaseId} {outlines : List Outline} {site : Site}

theorem walkAll_cons (outline : Outline) (rest : List Outline) :
    walkAll (outline :: rest) = outline :: (walkAll outline.children ++ walkAll rest) := by
  cases outline
  rfl

theorem map_phase_sites (above : List PhaseId) (outlines : List Outline) :
    (sites above outlines).map (·.phase) = walkAll outlines := by
  fun_induction sites above outlines with
  | case1 => rfl
  | case2 above outline rest below beside =>
    rw [List.map_cons, List.map_append, below, beside, walkAll_cons]

theorem mem_sites_of_mem {outline : Outline} (listed : outline ∈ outlines) :
    ⟨above, outline⟩ ∈ sites above outlines := by
  induction outlines with
  | nil => cases listed
  | cons first rest ih =>
    rw [sites]
    rcases List.mem_cons.mp listed with rfl | later
    · exact List.mem_cons_self
    · exact List.mem_cons_of_mem _ (List.mem_append_right _ (ih later))

/-- What a phase has underneath stands below its site. -/
theorem mem_sites_of_mem_children {child : Outline} (member : site ∈ sites above outlines)
    (listed : child ∈ site.phase.children) : ⟨site.path, child⟩ ∈ sites above outlines := by
  fun_induction sites above outlines with
  | case1 => cases member
  | case2 above outline rest below beside =>
    rw [List.mem_cons, List.mem_append] at member ⊢
    rcases member with rfl | inBelow | inBeside
    · exact .inr (.inl (mem_sites_of_mem listed))
    · exact .inr (.inl (below inBelow))
    · exact .inr (.inr (beside inBeside))

/-! ### Paths -/

theorem prefix_path (member : site ∈ sites above outlines) :
    ∃ outline ∈ outlines, above ++ [outline.id] <+: site.path := by
  fun_induction sites above outlines with
  | case1 => cases member
  | case2 above outline rest below beside =>
    rw [List.mem_cons, List.mem_append] at member
    rcases member with rfl | inBelow | inBeside
    · exact ⟨outline, List.mem_cons_self, List.prefix_rfl⟩
    · obtain ⟨child, -, nested⟩ := below inBelow
      exact ⟨outline, List.mem_cons_self, (List.prefix_append _ _).trans nested⟩
    · obtain ⟨other, listed, starts⟩ := beside inBeside
      exact ⟨other, List.mem_cons_of_mem _ listed, starts⟩

theorem mem_path {id : PhaseId} (member : site ∈ sites above outlines) (listed : id ∈ site.path) :
    id ∈ above ∨ id ∈ (walkAll outlines).map (·.id) := by
  fun_induction sites above outlines with
  | case1 => cases member
  | case2 above outline rest below beside =>
    rw [walkAll_cons, List.map_cons, List.map_append, List.mem_cons, List.mem_append]
    rw [List.mem_cons, List.mem_append] at member
    rcases member with rfl | inBelow | inBeside
    · exact (List.mem_append.mp listed).imp_right fun here => .inl (List.mem_singleton.mp here)
    · rcases below inBelow with outer | inner
      · exact (List.mem_append.mp outer).imp_right fun here => .inl (List.mem_singleton.mp here)
      · exact .inr (.inr (.inl inner))
    · exact (beside inBeside).imp_right fun later => .inr (.inr later)

theorem Ordered.fresh (ordered : Ordered before outlines) :
    ∀ outline ∈ outlines, outline.id ∉ before := by
  induction ordered with
  | nil => simp
  | cons fresh _ _ _ _ _ _ ih =>
    refine List.forall_mem_cons.mpr ⟨fresh, fun outline member early => ?_⟩
    exact ih outline member (List.mem_append_left _ early)

/-- No two sites have the same path. -/
theorem Ordered.nodup_paths (ordered : Ordered before outlines) (above : List PhaseId) :
    ((sites above outlines).map Site.path).Nodup := by
  induction ordered generalizing above with
  | nil => rw [sites]; exact .nil
  | @cons before outline rest _ _ _ _ _ beside belowIh besideIh =>
    have inBelow : ∀ path ∈ (sites (above ++ [outline.id]) outline.children).map Site.path,
        above ++ [outline.id] <+: path ∧ above ++ [outline.id] ≠ path := by
      intro path member
      obtain ⟨site, inSites, rfl⟩ := List.mem_map.mp member
      obtain ⟨child, -, more, same⟩ := prefix_path inSites
      rw [← same, List.append_assoc]
      exact ⟨List.prefix_append _ _, by simp⟩
    have inBeside : ∀ path ∈ (sites above rest).map Site.path,
        ¬above ++ [outline.id] <+: path := by
      intro path member here
      obtain ⟨site, inSites, rfl⟩ := List.mem_map.mp member
      obtain ⟨other, listed, there⟩ := prefix_path inSites
      have same := (List.prefix_of_prefix_length_le here there (by simp)).eq_of_length (by simp)
      have ids : outline.id = other.id := by simpa using same
      exact beside.fresh other listed (by simp [ids])
    rw [sites, List.map_cons, List.map_append, List.nodup_cons, List.nodup_append]
    refine ⟨fun again => ?_, belowIh _, besideIh _, fun path below other besides same => ?_⟩
    · rcases List.mem_append.mp again with again | again
      · exact (inBelow _ again).2 rfl
      · exact inBeside _ again List.prefix_rfl
    · exact inBeside other besides (same ▸ (inBelow path below).1)

/-! ### What a phase comes after -/

/-- Each of these sites is at the top or underneath one known by then, and so are those of the
prerequisites, which stand beside it. -/
def Grounded (known : List (List PhaseId)) : List Site → Prop
  | [] => True
  | site :: rest =>
    (site.above = [] ∨ site.above ∈ known) ∧
    (∀ id ∈ site.phase.prerequisites, site.above ++ [id] ∈ known) ∧
    Grounded (known ++ [site.path]) rest

variable {known more : List (List PhaseId)} {sites front back : List Site}

theorem grounded_append : Grounded known (front ++ back) ↔
    Grounded known front ∧ Grounded (known ++ front.map Site.path) back := by
  induction front generalizing known with
  | nil => simp [Grounded]
  | cons site front ih => simp [Grounded, ih, and_assoc]

theorem Ordered.grounded (ordered : Ordered before outlines)
    (top : above = [] ∨ above ∈ known) (earlier : ∀ id ∈ before, above ++ [id] ∈ known) :
    Grounded known (Outline.sites above outlines) := by
  induction ordered generalizing above known with
  | nil => rw [Outline.sites]; trivial
  | @cons before outline rest _ ready _ _ _ _ belowIh besideIh =>
    rw [Outline.sites]
    refine ⟨top, fun id member => earlier id (ready member), grounded_append.mpr ⟨?_, ?_⟩⟩
    · exact belowIh (.inr (by simp [Site.path])) (by simp)
    · refine besideIh (top.imp_right fun member => by simp [member]) fun id member => ?_
      rcases List.mem_append.mp member with early | here
      · simp [earlier id early]
      · rw [List.mem_singleton.mp here]
        simp [Site.path]

/-- What a site is grounded on has a place before it. -/
theorem Grounded.of_getElem? {j : Nat} (grounded : Grounded [] sites)
    (at_ : sites[j]? = some site) :
    (site.above = [] ∨ ∃ i < j, ∃ outer, sites[i]? = some outer ∧ outer.path = site.above) ∧
      ∀ id ∈ site.phase.prerequisites,
        ∃ i < j, ∃ other, sites[i]? = some other ∧ other.path = site.above ++ [id] := by
  obtain ⟨within, here⟩ := List.getElem?_eq_some_iff.mp at_
  have split : sites = sites.take j ++ site :: sites.drop (j + 1) := by
    rw [← here, List.getElem_cons_drop, List.take_append_drop]
  have earlier {path : List PhaseId} (known : path ∈ [] ++ (sites.take j).map Site.path) :
      ∃ i < j, ∃ other, sites[i]? = some other ∧ other.path = path := by
    obtain ⟨other, member, rfl⟩ := List.mem_map.mp known
    obtain ⟨i, early, rfl⟩ := List.mem_take_iff_getElem.mp member
    rw [Nat.lt_min] at early
    exact ⟨i, early.1, _, List.getElem?_eq_getElem early.2, rfl⟩
  rw [split, grounded_append] at grounded
  exact ⟨grounded.2.1.imp_right earlier, fun id required => earlier (grounded.2.2.1 id required)⟩

theorem Ordered.distinct_prerequisites (ordered : Ordered before outlines)
    (member : site ∈ Outline.sites above outlines) : site.phase.prerequisites.Nodup := by
  induction ordered generalizing above with
  | nil =>
    rw [Outline.sites] at member
    cases member
  | cons _ _ distinct _ _ _ belowIh besideIh =>
    rw [Outline.sites, List.mem_cons, List.mem_append] at member
    rcases member with rfl | inBelow | inBeside
    · exact distinct
    · exact belowIh inBelow
    · exact besideIh inBeside

/-- A site below the top is that of a phase over every file that has the phase in its list. -/
theorem Ordered.nested (ordered : Ordered before outlines)
    (member : site ∈ Outline.sites above outlines) :
    (site.above = above ∧ site.phase ∈ outlines) ∨
      ∃ outer ∈ Outline.sites above outlines, site.above = outer.path ∧
        site.phase ∈ outer.phase.children ∧ outer.phase.kind = .perFile := by
  induction ordered generalizing above with
  | nil =>
    rw [Outline.sites] at member
    cases member
  | @cons before outline rest _ _ _ kind _ _ belowIh besideIh =>
    rw [Outline.sites, List.mem_cons, List.mem_append] at member
    rw [Outline.sites]
    rcases member with rfl | inBelow | inBeside
    · exact .inl ⟨rfl, List.mem_cons_self⟩
    · rcases belowIh inBelow with ⟨here, listed⟩ | ⟨outer, outerIn, found⟩
      · exact .inr ⟨_, List.mem_cons_self, here, listed, kind (List.ne_nil_of_mem listed)⟩
      · exact .inr ⟨outer, List.mem_cons_of_mem _ (List.mem_append_left _ outerIn), found⟩
    · rcases besideIh inBeside with ⟨here, listed⟩ | ⟨outer, outerIn, found⟩
      · exact .inl ⟨here, List.mem_cons_of_mem _ listed⟩
      · exact .inr ⟨outer, List.mem_cons_of_mem _ (List.mem_append_right _ outerIn), found⟩

/-- The sites of these lists, in the order of their walk. A phase stands at the top, or below the
phase over every file that has it in its list, and its prerequisites stand beside it. -/
structure Surveyed (outlines : List Outline) (sites : List Site) : Prop where
  walked : sites.map (·.phase) = walkAll outlines
  distinct : (sites.map Site.path).Nodup
  top : ∀ phase : Outline, ⟨[], phase⟩ ∈ sites ↔ phase ∈ outlines
  below : ∀ outer ∈ sites, ∀ phase : Outline,
    ⟨outer.path, phase⟩ ∈ sites ↔ phase ∈ outer.phase.children
  nested : ∀ site ∈ sites, site.above ≠ [] →
    ∃ outer ∈ sites, site.above = outer.path ∧ outer.phase.kind = .perFile
  beside : ∀ site ∈ sites, ∀ id ∈ site.phase.prerequisites,
    ∃ other ∈ sites, other.above = site.above ∧ other.phase.id = id

theorem Ordered.surveyed (ordered : Ordered [] outlines) :
    Surveyed outlines (Outline.sites [] outlines) where
  walked := map_phase_sites [] outlines
  distinct := ordered.nodup_paths []
  top phase := by
    refine ⟨fun member => ?_, mem_sites_of_mem⟩
    obtain ⟨-, listed⟩ | ⟨outer, -, above, -⟩ := ordered.nested member
    · exact listed
    · exact absurd above.symm (List.concat_ne_nil _ _)
  below outer outerIn phase := by
    refine ⟨fun member => ?_, mem_sites_of_mem_children outerIn⟩
    obtain ⟨above, -⟩ | ⟨other, otherIn, same, listed, -⟩ := ordered.nested member
    · exact absurd above (List.concat_ne_nil _ _)
    · rwa [List.inj_on_of_nodup_map (ordered.nodup_paths []) outerIn otherIn same]
  nested site member lower := by
    obtain ⟨above, -⟩ | ⟨outer, outerIn, above, -, kind⟩ := ordered.nested member
    · exact absurd above lower
    · exact ⟨outer, outerIn, above, kind⟩
  beside site member id required := by
    obtain ⟨j, at_⟩ := List.mem_iff_getElem?.mp member
    obtain ⟨i, -, other, otherAt, same⟩ :=
      ((ordered.grounded (.inl rfl) nofun).of_getElem? at_).2 id required
    exact ⟨other, List.mem_of_getElem? otherAt, Site.path_eq_append_iff.mp same⟩

end Outline

namespace PhaseList

open Outline

variable {β σ υ : Type} [Executable β σ υ] [WorkUnit υ]

/-- The outlines of a list are ordered if those underneath its phases are. -/
theorem ordered_outlines (list : PhaseList β)
    (below : ∀ phase ∈ list.phases, Ordered [] (Executable.children phase.body))
    (kinds : ∀ phase ∈ list.phases, Executable.children phase.body ≠ [] →
      Executable.kind phase.body = .perFile) : Ordered [] list.outlines := by
  suffices ∀ (all before : List PhaseId) (phases : List (Phase β)),
      checkOrderFrom all before (phases.map Phase.requirement) = .ok () →
      (∀ phase ∈ phases, phase ∈ list.phases) →
      Ordered before (phases.map Phase.outline) from
    this _ _ _ list.ordered fun _ member => member
  intro all before phases ordered listed
  induction phases generalizing before with
  | nil => exact .nil
  | cons phase rest ih =>
    obtain ⟨fresh, ready, ordered⟩ := checkOrderFrom_cons ordered
    rw [List.forall_mem_cons] at listed
    exact .cons fresh ready phase.distinct (kinds phase listed.1) (below phase listed.1)
      (ih _ ordered listed.2)

theorem ordered_fileOutlines (list : PhaseList (Body σ File)) : Ordered [] list.outlines :=
  list.ordered_outlines (fun _ _ => .nil) fun _ _ some => absurd rfl some

theorem ordered_moduleOutlines (list : PhaseList (ModuleBody σ)) : Ordered [] list.outlines := by
  refine list.ordered_outlines (fun phase _ => ?_) fun phase _ some => ?_
  · show Ordered [] phase.body.children
    cases phase.body with
    | plain body => exact .nil
    | perFile phases => exact phases.ordered_fileOutlines
  · show phase.body.kind = .perFile
    change phase.body.children ≠ [] at some
    cases body : phase.body with
    | plain plain =>
      rw [body] at some
      exact absurd rfl some
    | perFile phases => rfl

end PhaseList
end StagedLowering
