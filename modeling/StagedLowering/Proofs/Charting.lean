import Mathlib
import StagedLowering.Proofs.Sites

/-!
# The drawn graph

Adding nested lists to a graph, level by level, adds a node for every site and the edges into it:
one from the phase it runs underneath and one from each prerequisite, all found by their paths
(`Outline.Ordered.addAll_eq`). No lookup fails, because a prerequisite comes earlier in its own
list. So the edges are told by the sites alone (`Outline.Ordered.charts`).
-/

namespace StagedLowering

namespace Site

def name (site : Site) : String := String.intercalate "/" site.path

/-- The edge into a site, which is this node, from the phase it runs underneath. It is found by its
path among those of all nodes. -/
def fromOuter (paths : List (List PhaseId)) (node : Nat) (site : Site) :
    List (Nat × Nat × Dependency) :=
  if site.above = [] then [] else [(paths.idxOf site.above, node, .contains)]

def fromPrerequisites (paths : List (List PhaseId)) (node : Nat) (site : Site) :
    List (Nat × Nat × Dependency) :=
  site.phase.prerequisites.map fun id => (paths.idxOf (site.above ++ [id]), node, .requires)

def incoming (paths : List (List PhaseId)) (node : Nat) (site : Site) :
    List (Nat × Nat × Dependency) :=
  site.fromOuter paths node ++ site.fromPrerequisites paths node

variable {paths : List (List PhaseId)} {node : Nat} {site : Site}
  {edge : Nat × Nat × Dependency}

theorem mem_fromOuter : edge ∈ site.fromOuter paths node ↔
    site.above ≠ [] ∧ edge = (paths.idxOf site.above, node, .contains) := by
  unfold fromOuter
  split <;> simp_all

theorem mem_fromPrerequisites : edge ∈ site.fromPrerequisites paths node ↔
    ∃ id ∈ site.phase.prerequisites,
      edge = (paths.idxOf (site.above ++ [id]), node, .requires) := by
  simp only [fromPrerequisites, List.mem_map, eq_comm]

theorem mem_incoming : edge ∈ site.incoming paths node ↔
    (site.above ≠ [] ∧ edge = (paths.idxOf site.above, node, .contains)) ∨
      ∃ id ∈ site.phase.prerequisites,
        edge = (paths.idxOf (site.above ++ [id]), node, .requires) := by
  rw [incoming, List.mem_append, mem_fromOuter, mem_fromPrerequisites]

theorem target_of_mem_incoming (into : edge ∈ site.incoming paths node) : edge.2.1 = node := by
  obtain ⟨-, rfl⟩ | ⟨id, -, rfl⟩ := mem_incoming.mp into
  · rfl
  · rfl

/-- Prerequisites that are named once have an edge each. -/
theorem nodup_incoming (node : Nat) (prerequisites : site.phase.prerequisites.Nodup)
    (known : ∀ id ∈ site.phase.prerequisites, site.above ++ [id] ∈ paths) :
    (site.incoming paths node).Nodup := by
  refine List.nodup_append.mpr ⟨?_, ?_, ?_⟩
  · unfold fromOuter
    split <;> simp
  · refine prerequisites.map_on fun id required other _ same => ?_
    have paths := (List.idxOf_inj (known id required)).mp (Prod.mk.inj same).1
    exact (List.append_singleton_inj.mp paths).2
  · rintro outer inOuter _ inInner rfl
    obtain ⟨-, rfl⟩ := mem_fromOuter.mp inOuter
    obtain ⟨id, -, same⟩ := mem_fromPrerequisites.mp inInner
    exact absurd (congrArg (·.2.2) same) nofun

end Site

namespace Graph

variable {graph : Graph} {paths : List (List PhaseId)} {front back : List Site}

def extend (graph : Graph) (paths : List (List PhaseId)) (sites : List Site) : Graph where
  nodes := graph.nodes ++ sites.map Site.name
  edges := graph.edges ++
    (sites.zipIdx graph.nodes.length).flatMap fun (site, node) => site.incoming paths node

theorem extend_append (graph : Graph) (front back : List Site) :
    graph.extend paths (front ++ back) = (graph.extend paths front).extend paths back := by
  simp [extend, List.zipIdx_append]

def Expects (graph : Graph) (paths : List (List PhaseId)) (sites : List Site) : Prop :=
  sites.map Site.path <+: paths.drop graph.nodes.length

theorem Expects.left (expects : graph.Expects paths (front ++ back)) :
    graph.Expects paths front := by
  rw [Expects, List.map_append] at expects
  exact (List.prefix_append _ _).trans expects

theorem Expects.right (expects : graph.Expects paths (front ++ back)) :
    (graph.extend paths front).Expects paths back := by
  obtain ⟨rest, all⟩ := expects
  refine ⟨rest, ?_⟩
  rw [extend, List.length_append, ← List.drop_drop, ← all, List.map_append, List.append_assoc,
    List.length_map, List.drop_left' (List.length_map _)]

theorem Expects.idxOf_path {site : Site} (expects : graph.Expects paths (site :: back))
    (distinct : paths.Nodup) : paths.idxOf site.path = graph.nodes.length := by
  obtain ⟨rest, all⟩ := expects
  obtain ⟨within, here⟩ : ∃ within : graph.nodes.length < paths.length,
      paths[graph.nodes.length] = site.path := by
    rw [← List.getElem?_eq_some_iff, ← List.head?_drop, ← all]
    rfl
  rw [← here, distinct.idxOf_getElem]

/-- What a list is added with is told by the paths: the phase above it, what names begin with, and
the phases of the list that were added before. -/
structure Located (paths : List (List PhaseId)) (above before : List PhaseId)
    (parent : Option Nat) (path : String) (level : List (PhaseId × Nat)) : Prop where
  outer : parent.toList = if above = [] then [] else [paths.idxOf above]
  leads : ∀ id : PhaseId, String.intercalate "/" (above ++ [id]) = path ++ id
  known : ∀ id ∈ before, level.lookup id = some (paths.idxOf (above ++ [id]))

variable {above before : List PhaseId} {parent : Option Nat} {path : String}
  {level : List (PhaseId × Nat)} {id : PhaseId}

theorem located_top (paths : List (List PhaseId)) : Located paths [] [] none "" [] where
  outer := rfl
  leads id := by simp
  known := nofun

theorem Located.enter (located : Located paths above before parent path level) (id : PhaseId) :
    Located paths (above ++ [id]) [] (some (paths.idxOf (above ++ [id]))) (path ++ id ++ "/") []
    where
  outer := by simp
  leads inner := by
    rw [String.intercalate_append_of_ne_nil (by simp) (by simp), located.leads,
      String.intercalate_singleton]
  known := nofun

theorem Located.pass (located : Located paths above before parent path level)
    (fresh : id ∉ before) :
    Located paths above (before ++ [id]) parent path
      ((id, paths.idxOf (above ++ [id])) :: level) where
  outer := located.outer
  leads := located.leads
  known other member := by
    rw [List.lookup_cons]
    rcases List.mem_append.mp member with early | last
    · rw [beq_eq_false_iff_ne.mpr (ne_of_mem_of_not_mem early fresh), located.known other early]
    · rw [List.mem_singleton.mp last, beq_self_eq_true]

/-- What is looked up is found: the edges into a node are those that the paths tell. -/
theorem Located.incoming_eq {outline : Outline}
    (located : Located paths above before parent path level)
    (ready : outline.prerequisites ⊆ before) (node : Nat) :
    incoming parent level outline.prerequisites node =
      Site.incoming paths node ⟨above, outline⟩ := by
  have found : outline.prerequisites.filterMap (level.lookup ·) =
      outline.prerequisites.map fun id => paths.idxOf (above ++ [id]) :=
    (List.filterMap_congr fun id required => located.known id (ready required)).trans
      (congrFun List.filterMap_eq_map _)
  rw [incoming, located.outer, found, List.map_map]
  unfold Site.incoming Site.fromOuter
  split <;> rfl

theorem addAll_cons (graph : Graph) (parent : Option Nat) (path : String)
    (level : List (PhaseId × Nat)) (outline : Outline) (rest : List Outline) :
    graph.addAll parent path level (outline :: rest) =
      let node := graph.nodes.length
      let level := (outline.id, node) :: level
      let grown : Graph := {
        nodes := graph.nodes ++ [path ++ outline.id]
        edges := graph.edges ++ incoming parent level outline.prerequisites node }
      (grown.addAll (some node) (path ++ outline.id ++ "/") [] outline.children).addAll
        parent path level rest := by
  cases outline
  rfl

end Graph

namespace Outline

variable {above before : List PhaseId} {outlines : List Outline} {paths : List (List PhaseId)}
  {graph : Graph} {parent : Option Nat} {path : String} {level : List (PhaseId × Nat)}

/-- Adding ordered lists adds their sites. -/
theorem Ordered.addAll_eq (distinct : paths.Nodup) (ordered : Ordered before outlines)
    (expects : graph.Expects paths (sites above outlines))
    (located : Graph.Located paths above before parent path level) :
    graph.addAll parent path level outlines = graph.extend paths (sites above outlines) := by
  induction ordered generalizing above graph parent path level with
  | nil => simp [Graph.addAll, Graph.extend, sites]
  | @cons before outline rest fresh ready _ _ _ _ belowIh besideIh =>
    rw [sites] at expects ⊢
    have here : paths.idxOf (above ++ [outline.id]) = graph.nodes.length :=
      expects.idxOf_path distinct
    have entered := located.enter outline.id
    have passed := located.pass fresh
    rw [here] at entered passed
    have grown : Graph.mk (graph.nodes ++ [path ++ outline.id]) (graph.edges ++
        Graph.incoming parent ((outline.id, graph.nodes.length) :: level) outline.prerequisites
          graph.nodes.length) = graph.extend paths [⟨above, outline⟩] := by
      rw [passed.incoming_eq (List.subset_append_of_subset_left _ ready)]
      simp [Graph.extend, Site.name, Site.path, located.leads]
    -- What comes next goes underneath the phase; only then the list goes on.
    have expects : (graph.extend paths [⟨above, outline⟩]).Expects paths
        (sites (above ++ [outline.id]) outline.children ++ sites above rest) := expects.right
    rw [Graph.addAll_cons]
    dsimp only
    rw [grown, belowIh expects.left entered, besideIh expects.right passed, ← Graph.extend_append,
      ← Graph.extend_append]
    rfl

/-- The graph of ordered lists has a node for each site and the edges into it. -/
theorem Ordered.ofOutlines_eq (ordered : Ordered [] outlines) :
    Graph.ofOutlines outlines =
      ({} : Graph).extend ((sites [] outlines).map Site.path) (sites [] outlines) :=
  ordered.addAll_eq (ordered.nodup_paths []) List.prefix_rfl (Graph.located_top _)

end Outline

namespace Graph

/-- What a graph is that shows these sites: a node for each, in order; one edge from each
prerequisite, which is in the same list, and one from the phase whose list it is. -/
structure Charts (graph : Graph) (sites : List Site) : Prop where
  names : graph.nodes = sites.map Site.name
  requires : ∀ i j : Nat, (i, j, .requires) ∈ graph.edges ↔
    ∃ phase prerequisite : Site, sites[j]? = some phase ∧ sites[i]? = some prerequisite ∧
      prerequisite.above = phase.above ∧
      prerequisite.phase.id ∈ phase.phase.prerequisites
  contains : ∀ i j : Nat, (i, j, .contains) ∈ graph.edges ↔
    ∃ phase outer : Site, sites[j]? = some phase ∧ sites[i]? = some outer ∧
      phase.above = outer.path
  once : graph.edges.Nodup
  forward : ∀ (i j : Nat) (kind : Dependency), (i, j, kind) ∈ graph.edges → i < j

variable {sites : List Site} {site : Site} {i j : Nat} {kind : Dependency}
  {edge : Nat × Nat × Dependency}

theorem mem_extend_edges {paths : List (List PhaseId)} :
    edge ∈ (({} : Graph).extend paths sites).edges ↔
      ∃ (site : Site) (j : Nat), sites[j]? = some site ∧ edge ∈ site.incoming paths j := by
  simp [extend, List.mem_flatMap, List.mem_zipIdx_iff_getElem?]

theorem idxOf_path (distinct : (sites.map Site.path).Nodup) (at_ : sites[i]? = some site) :
    (sites.map Site.path).idxOf site.path = i := by
  obtain ⟨within, rfl⟩ := List.getElem?_eq_some_iff.mp at_
  have here := distinct.idxOf_getElem i (by simpa using within)
  rwa [List.getElem_map] at here

/-- An edge into a site comes from one before it: the phase it runs underneath, or a prerequisite. -/
theorem exists_source (distinct : (sites.map Site.path).Nodup)
    (grounded : Outline.Grounded [] sites) (at_ : sites[j]? = some site)
    (into : edge ∈ site.incoming (sites.map Site.path) j) :
    ∃ i < j, ∃ source : Site, sites[i]? = some source ∧
      ((site.above = source.path ∧ edge = (i, j, .contains)) ∨
        (source.above = site.above ∧ source.phase.id ∈ site.phase.prerequisites ∧
          edge = (i, j, .requires))) := by
  obtain ⟨outermost, known⟩ := grounded.of_getElem? at_
  obtain ⟨below, rfl⟩ | ⟨id, required, rfl⟩ := Site.mem_incoming.mp into
  · obtain ⟨i, early, outer, outerAt, same⟩ := outermost.resolve_left below
    rw [← same, idxOf_path distinct outerAt]
    exact ⟨i, early, outer, outerAt, .inl ⟨rfl, rfl⟩⟩
  · obtain ⟨i, early, other, otherAt, same⟩ := known id required
    obtain ⟨above, rfl⟩ := Site.path_eq_append_iff.mp same
    rw [← same, idxOf_path distinct otherAt]
    exact ⟨i, early, other, otherAt, .inr ⟨above, required, rfl⟩⟩

theorem charts_extend (distinct : (sites.map Site.path).Nodup)
    (grounded : Outline.Grounded [] sites)
    (prerequisites : ∀ site ∈ sites, site.phase.prerequisites.Nodup) :
    (({} : Graph).extend (sites.map Site.path) sites).Charts sites where
  names := List.nil_append _
  requires i j := by
    rw [mem_extend_edges]
    constructor
    · rintro ⟨phase, node, at_, into⟩
      obtain ⟨i, -, other, otherAt, ⟨-, ⟨⟩⟩ | ⟨above, required, ⟨⟩⟩⟩ :=
        exists_source distinct grounded at_ into
      exact ⟨phase, other, at_, otherAt, above, required⟩
    · rintro ⟨phase, other, at_, otherAt, above, required⟩
      have found : (sites.map Site.path).idxOf (phase.above ++ [other.phase.id]) = i :=
        above ▸ idxOf_path distinct otherAt
      exact ⟨phase, j, at_, Site.mem_incoming.mpr (.inr ⟨_, required, by rw [found]⟩)⟩
  contains i j := by
    rw [mem_extend_edges]
    constructor
    · rintro ⟨phase, node, at_, into⟩
      obtain ⟨i, -, outer, outerAt, ⟨above, ⟨⟩⟩ | ⟨-, -, ⟨⟩⟩⟩ :=
        exists_source distinct grounded at_ into
      exact ⟨phase, outer, at_, outerAt, above⟩
    · rintro ⟨phase, outer, at_, outerAt, above⟩
      have below : phase.above ≠ [] := above ▸ List.concat_ne_nil _ _
      refine ⟨phase, j, at_, Site.mem_incoming.mpr (.inl ⟨below, ?_⟩)⟩
      rw [above, idxOf_path distinct outerAt]
  once := by
    refine List.nodup_flatMap.mpr ⟨?_, ?_⟩
    · rintro ⟨site, node⟩ member
      have at_ := List.mem_zipIdx_iff_getElem?.mp member
      refine Site.nodup_incoming node (prerequisites site (List.mem_of_getElem? at_)) ?_
      intro id required
      obtain ⟨i, -, other, otherAt, same⟩ := (grounded.of_getElem? at_).2 id required
      exact List.mem_map.mpr ⟨other, List.mem_of_getElem? otherAt, same⟩
    · refine (List.pairwise_map.mp (List.nodup_zipIdx_map_snd sites)).imp ?_
      rintro ⟨site, node⟩ ⟨other, otherNode⟩ apart edge into intoOther
      exact apart ((Site.target_of_mem_incoming into).symm.trans
        (Site.target_of_mem_incoming intoOther))
  forward i j kind inEdges := by
    obtain ⟨phase, node, at_, into⟩ := mem_extend_edges.mp inEdges
    obtain ⟨i, early, source, -, ⟨-, ⟨⟩⟩ | ⟨-, -, ⟨⟩⟩⟩ :=
      exists_source distinct grounded at_ into
    · exact early
    · exact early

theorem Charts.acyclic {graph : Graph} (charts : graph.Charts sites) (i : Nat) :
    ¬Relation.TransGen (fun i j => ∃ kind, (i, j, kind) ∈ graph.edges) i i := by
  intro circle
  have rises : Relation.TransGen (· < ·) i i :=
    Relation.TransGen.mono (fun i j ⟨kind, inEdges⟩ => charts.forward i j kind inEdges) i i circle
  rw [Relation.transGen_eq_self] at rises
  exact Nat.lt_irrefl i rises

/-- Names without slashes of their own tell sites apart. -/
theorem nodup_names (distinct : (sites.map Site.path).Nodup)
    (plain : ∀ site ∈ sites, ∀ id ∈ site.path, '/' ∉ id.toList) :
    (sites.map Site.name).Nodup := by
  have parts (site : Site) (member : site ∈ sites) :
      site.name.toList.splitOn '/' = site.path.map String.toList := by
    rw [Site.name, String.toList_intercalate]
    refine List.splitOn_intercalate '/' ?_ ?_
    · intro part inPath
      obtain ⟨id, listed, rfl⟩ := List.mem_map.mp inPath
      exact plain site member id listed
    · simp [Site.path]
  refine (List.Nodup.of_map _ distinct).map_on fun site member other otherMember same => ?_
  have paths : site.path = other.path := by
    have parted : site.path.map String.toList = other.path.map String.toList := by
      rw [← parts site member, same, parts other otherMember]
    exact List.map_injective_iff.mpr (fun _ _ => String.toList_injective) parted
  exact List.inj_on_of_nodup_map distinct member otherMember paths

end Graph

/-- The graph of ordered lists shows their sites. -/
theorem Outline.Ordered.charts {outlines : List Outline} (ordered : Ordered [] outlines) :
    (Graph.ofOutlines outlines).Charts (sites [] outlines) := by
  rw [ordered.ofOutlines_eq]
  exact Graph.charts_extend (ordered.nodup_paths []) (ordered.grounded (.inl rfl) nofun)
    fun _ member => ordered.distinct_prerequisites member

end StagedLowering
