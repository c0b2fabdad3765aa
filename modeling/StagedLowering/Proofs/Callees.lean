import Mathlib
import StagedLowering.Proofs.Entries
import StagedLowering.Proofs.Places
import StagedLowering.Proofs.Remains
import StagedLowering.Proofs.Tallies

/-!
# Callees

What the binding of calls does to a module, whatever the table knows (`bindCalls_exact`). The open
calls that a walk comes to are bound in order, up to the first whose callee has no function.
-/

namespace StagedLowering

def File.openAmong (file : File) (ids : List NodeId) : List NodeId :=
  ids.filter fun id => (file.kind? id).any (·.isOpen)

/-- The reachable calls without a target, in the order of a walk. -/
def File.openCalls (file : File) : List NodeId := file.openAmong file.preorder

namespace Module

structure Names (symbols : SymbolTable) (m : Module) (spot : FileId × NodeId) (callee : String)
    (f : SymbolId) : Prop where
  open_ : m.kindAt? spot = some (.call callee none)
  known : symbols.functionFor callee = some f

/-- The calls at some places, all without a target, are bound to what their callees stand for. Nothing
else has changed. -/
structure BoundAt (symbols : SymbolTable) (spots : List (FileId × NodeId)) (m other : Module) :
    Prop where
  kept : m.SameBut spots other
  bound : ∀ spot ∈ spots, ∃ callee f, m.Names symbols spot callee f ∧
    other.kindAt? spot = some (.call callee (some f))

end Module

variable {σ : Type} {symbols : SymbolTable} {file last : File} {m other : Module}
  {spot : FileId × NodeId} {id : NodeId}

namespace File

theorem isOpen_iff :
    (file.kind? id).any (·.isOpen) = true ↔ ∃ callee, file.kind? id = some (.call callee none) := by
  rcases file.kind? id with _ | kind
  · simp
  · rcases kind with _ | _ | _ | ⟨callee, _ | target⟩ | _ | _ | _ <;> simp [NodeKind.isOpen]

theorem mem_openAmong {ids : List NodeId} :
    id ∈ file.openAmong ids ↔ id ∈ ids ∧ ∃ callee, file.kind? id = some (.call callee none) := by
  rw [openAmong, List.mem_filter, isOpen_iff]

theorem openAmong_append_cons {callee : String} {before after : List NodeId}
    (open_ : file.kind? id = some (.call callee none)) :
    file.openAmong (before ++ id :: after) = file.openAmong before ++ id :: file.openAmong after := by
  rw [openAmong, List.filter_append, List.filter_cons, if_pos (isOpen_iff.mpr ⟨callee, open_⟩)]
  rfl

end File

/-! ### Files and the part of each that was walked -/

def walkedCalls (walks : List (File × List NodeId)) : List (FileId × NodeId) :=
  Module.placesIn (fun walk => walk.1.openAmong walk.2) walks

/-- Some files are walked as a whole, the next one in part and the rest not at all. -/
def walksUpTo (passed : List File) (file : File) (before : List NodeId) (rest : List File) :
    List (File × List NodeId) :=
  passed.map (fun file => (file, file.preorder)) ++ (file, before) :: rest.map fun file => (file, [])

theorem mem_walkedCalls {walks : List (File × List NodeId)} {i : FileId} :
    (i, id) ∈ walkedCalls walks ↔ ∃ walk callee, walks[i]? = some walk ∧ id ∈ walk.2 ∧
      walk.1.kind? id = some (.call callee none) := by
  simp only [walkedCalls, Module.mem_placesIn, File.mem_openAmong]
  constructor
  · rintro ⟨walk, found, walked, callee, kind⟩
    exact ⟨walk, callee, found, walked, kind⟩
  · rintro ⟨walk, callee, found, walked, kind⟩
    exact ⟨walk, found, walked, callee, kind⟩

/-- Files in which the walked part is bound make a module in which its open calls are. -/
theorem Module.boundAt_walkedCalls {walks : List (File × List NodeId)}
    (name : other.name = m.name) (files : m.files = walks.map Prod.fst)
    (bindable : ∀ walk ∈ walks, ∀ id ∈ walk.2, walk.1.Bindable symbols id)
    (bound : List.Forall₂ (fun walk last => walk.1.BoundAmong symbols walk.2 last) walks other.files) :
    m.BoundAt symbols (walkedCalls walks) other := by
  have rebound : m.Rebound NodeKind.isCall other := by
    refine ⟨name, ?_⟩
    rw [files, List.forall₂_map_left_iff]
    exact bound.imp fun _ _ among => among.rebound
  have kindAt : ∀ i walk, walks[i]? = some walk → ∀ id, m.kindAt? (i, id) = walk.1.kind? id ∧
      other.kindAt? (i, id) =
        if id ∈ walk.2 then (walk.1.kind? id).map symbols.bind else walk.1.kind? id := by
    intro i walk found id
    obtain ⟨last, lastFound, among⟩ := exists_of_forall₂ bound.flip found
    rw [kindAt?, kindAt?, lastFound, files, List.getElem?_map, found]
    exact ⟨rfl, among.kinds id⟩
  refine ⟨rebound.sameBut fun spot apart => ?_, fun spot member => ?_⟩
  · obtain ⟨i, id⟩ := spot
    cases found : walks[i]? with
    | none =>
      have gone : m.files[i]? = none := by rw [files, List.getElem?_map, found, Option.map_none]
      have goneOther : other.files[i]? = none := by
        rw [List.getElem?_eq_none_iff] at gone ⊢
        rwa [← rebound.2.length_eq]
      rw [kindAt?, kindAt?, gone, goneOther]
    | some walk =>
      obtain ⟨old, new⟩ := kindAt i walk found id
      rw [old, new]
      split
      · next walked =>
        refine File.map_bind_of_not_open fun callee kind => apart ?_
        exact mem_walkedCalls.mpr ⟨walk, callee, found, walked, kind⟩
      · rfl
  · obtain ⟨i, id⟩ := spot
    obtain ⟨walk, callee, found, walked, kind⟩ := mem_walkedCalls.mp member
    obtain ⟨f, known⟩ := bindable walk (List.mem_of_getElem? found) id walked callee kind
    obtain ⟨old, new⟩ := kindAt i walk found id
    refine ⟨callee, f, ⟨old.trans kind, known⟩, ?_⟩
    rw [new, if_pos walked, kind, Option.map_some, SymbolTable.bind, known]

theorem Module.places_openCalls (m : Module) :
    m.places File.openCalls = walkedCalls (m.files.map fun file => (file, file.preorder)) := by
  rw [walkedCalls, placesIn_map]
  rfl

theorem map_fst_walksUpTo (passed : List File) (file : File) (before : List NodeId)
    (rest : List File) :
    (walksUpTo passed file before rest).map Prod.fst = passed ++ file :: rest := by
  simp [walksUpTo, Function.comp_def]

theorem walkedCalls_walksUpTo (passed : List File) (file : File) (before : List NodeId)
    (rest : List File) : walkedCalls (walksUpTo passed file before rest) =
      Module.placesIn File.openCalls passed ++ (file.openAmong before).map (passed.length, ·) := by
  obtain ⟨nothing, all, none⟩ := Module.placesIn_append_cons
    (fun walk : File × List NodeId => walk.1.openAmong walk.2)
    (passed.map fun file => (file, file.preorder)) (file, before) (rest.map fun file => (file, []))
  rw [walkedCalls, walksUpTo, all, none (List.forall_mem_map.mpr fun _ _ => List.filter_nil),
    List.append_nil, Module.placesIn_map, List.length_map]
  rfl

/-- The open calls of a module go on with the first one that was not walked. -/
theorem Module.places_openCalls_split {passed rest : List File} {before after : List NodeId}
    {callee : String} (files : m.files = passed ++ file :: rest)
    (first : file.preorder = before ++ id :: after)
    (open_ : file.kind? id = some (.call callee none)) :
    ∃ later, m.places File.openCalls =
      walkedCalls (walksUpTo passed file before rest) ++ (passed.length, id) :: later := by
  obtain ⟨later, all, -⟩ := placesIn_append_cons File.openCalls passed file rest
  rw [places, files, all, walkedCalls_walksUpTo, File.openCalls, first,
    File.openAmong_append_cons open_, List.map_append, List.map_cons, ← List.append_assoc,
    List.append_assoc]
  exact ⟨_, rfl⟩

/-! ### What is bound -/

section files

variable {files passed others rest : List File} {before : List NodeId} {callee : String}

theorem Module.boundAt_openCalls
    (bindable : ∀ file ∈ m.files, ∀ id, file.Reachable id → file.Bindable symbols id)
    (bound : List.Forall₂ (fun file other => file.BoundAmong symbols file.preorder other) m.files files) :
    m.BoundAt symbols (m.places File.openCalls) { m with files } := by
  rw [places_openCalls]
  refine boundAt_walkedCalls rfl ?_ ?_ (List.forall₂_map_left_iff.mpr bound)
  · rw [List.map_map]
    exact (List.map_id _).symm
  · rw [List.forall_mem_map]
    exact fun file member id walked => bindable file member id (File.mem_preorder.mp walked)

/-- Binding that stops in a file has bound what it walked there, and the files before as a whole. -/
theorem Module.boundAt_walksUpTo (split : m.files = passed ++ file :: rest)
    (bindable : ∀ file ∈ passed, ∀ id, file.Reachable id → file.Bindable symbols id)
    (stuck : file.FirstUnknown symbols file.preorder before id callee)
    (bound : List.Forall₂ (fun file other => file.BoundAmong symbols file.preorder other) passed others)
    (partly : file.BoundAmong symbols before last) :
    m.BoundAt symbols (walkedCalls (walksUpTo passed file before rest))
      { m with files := others ++ last :: rest } := by
  refine boundAt_walkedCalls rfl ?_ ?_ ?_
  · rw [split, map_fst_walksUpTo]
  · simp only [walksUpTo, List.forall_mem_append, List.forall_mem_cons, List.forall_mem_map]
    exact ⟨fun file member id walked => bindable file member id (File.mem_preorder.mp walked),
      stuck.passed, fun _ _ _ none => absurd none List.not_mem_nil⟩
  · refine List.rel_append (List.forall₂_map_left_iff.mpr bound) (.cons partly ?_)
    refine List.forall₂_map_left_iff.mpr (List.forall₂_same.mpr fun file _ => ?_)
    exact file.boundAmong_nil symbols

end files

theorem Module.length_placesIn {α : Type} (selected : α → List NodeId) (entries : List α) :
    (placesIn selected entries).length = (entries.map fun entry => (selected entry).length).sum := by
  conv_rhs => rw [← List.zipIdx_map_fst 0 entries, List.map_map]
  rw [placesIn, List.length_flatMap]
  congr 1
  exact List.map_congr_left fun _ _ => List.length_map _

theorem Module.length_openCalls (m : Module) :
    (m.places File.openCalls).length = (m.files.map (·.kinds.countP (·.isOpen))).sum := by
  rw [places, length_placesIn]
  congr 1
  refine List.map_congr_left fun file _ => ?_
  rw [File.countP_kinds, File.openCalls, File.openAmong, List.countP_eq_length_filter]

/-! ### The pass -/

/-- Calls that were bound are left alone by another run, which counts none. -/
theorem bindCalls_again {state after : State σ Module} (ran : bindCalls state = (.ok (), after)) :
    bindCalls after = (.ok (), after) := by
  have bound := allBound_of_bindCalls ran
  rw [bindCalls_apply] at ran ⊢
  rw [bindFiles_of_bound bound]
  rcases ended : bindFiles state.context.symbols state.unit.files with ⟨files, failure | count⟩
  · rw [ended] at ran
    cases ran
  · rw [ended] at ran
    cases ran
    dsimp only
    rw [Context.bump_zero_bump]

/-- If each open call names a function, all of them are bound and counted, and another run changes
nothing. Else the pass fails at the first that names none, with those before it bound. -/
theorem bindCalls_exact (state : State σ Module) :
    let symbols := state.context.symbols
    let calls := state.unit.places File.openCalls
    ((∀ spot ∈ calls, ∃ callee f, state.unit.Names symbols spot callee f) → ∃ m,
        state.unit.BoundAt symbols calls m ∧
          let last := { state with unit := m, context := state.context.bump "calls_bound" calls.length }
          bindCalls state = (.ok (), last) ∧ bindCalls last = (.ok (), last)) ∧
      ((¬ ∀ spot ∈ calls, ∃ callee f, state.unit.Names symbols spot callee f) →
        ∃ before i id after file callee m, calls = before ++ (i, id) :: after ∧
          state.unit.files[i]? = some file ∧ file.kind? id = some (.call callee none) ∧
          symbols.functionFor callee = none ∧ state.unit.BoundAt symbols before m ∧
          bindCalls state = (.error (.error
            (.reported (.unknownCallee callee) (file.locate id))), { state with unit := m })) := by
  intro symbols calls
  have ran := bindCalls_apply state
  rcases bindFiles_cases symbols state.unit.files with
    ⟨bindable, files, count, ended, bound⟩ |
      ⟨passed, file, rest, split, bindable, before, id, callee, stuck, others, last, ended, bound, partly⟩
  · rw [ended, bindFiles_count ended, ← state.unit.length_openCalls] at ran
    have boundAt := Module.boundAt_openCalls bindable bound
    refine ⟨fun _ => ⟨_, boundAt, ran, bindCalls_again ran⟩, fun unknown => absurd ?_ unknown⟩
    intro spot member
    obtain ⟨callee, f, names, -⟩ := boundAt.bound spot member
    exact ⟨callee, f, names⟩
  · rw [ended] at ran
    obtain ⟨after, first⟩ := stuck.first
    obtain ⟨later, all⟩ := Module.places_openCalls_split split first stuck.open_
    have found : state.unit.files[passed.length]? = some file := by
      rw [split, List.getElem?_append_right (Nat.le_refl _), Nat.sub_self, List.getElem?_cons_zero]
    refine ⟨fun known => ?_, fun _ => ⟨_, _, _, _, _, _, _, all, found, stuck.open_, stuck.unknown,
      Module.boundAt_walksUpTo split bindable stuck bound partly, ran⟩⟩
    have member : (passed.length, id) ∈ calls := by
      rw [show calls = _ from all]
      exact List.mem_append_right _ List.mem_cons_self
    obtain ⟨again, f, open_, names⟩ := known _ member
    rw [Module.kindAt?, found] at open_
    cases stuck.open_.symm.trans open_
    rw [stuck.unknown] at names
    cases names

def File.calling : File where
  path := "calling"
  nodes := #[
    { kind := .root, children := [1, 2, 3] },
    { kind := .function "main", parent := some 0 },
    { kind := .call "main" none, parent := some 0 },
    { kind := .call "gone" none, parent := some 0 }]

/-- The first call is bound, and the second is complained about. -/
theorem bindCalls_exact_calling :
    let main : Symbol := ⟨"main", .function, ⟨0, "calling", 1⟩⟩
    let symbols := SymbolTable.changed {} [.declare main]
    let state : State Unit Module := ⟨(), {}, { symbols }, { name := "m", files := [.calling] }⟩
    ∃ m, state.unit.BoundAt symbols [(0, 2)] m ∧ bindCalls state = (.error (.error
      (.reported (.unknownCallee "gone") (File.calling.locate 3))), { state with unit := m }) := by
  intro main symbols state
  have calls : state.unit.places File.openCalls = [(0, 2), (0, 3)] := by cbv
  have known : symbols.functionFor "main" = some 0 := by cbv
  have failed : ∃ stop, (bindCalls state).1 = .error stop := ⟨_, by cbv⟩
  obtain ⟨succeeds, fails⟩ := bindCalls_exact state
  obtain ⟨before, i, id, after, file, callee, m, split, found, open_, unknown, boundAt, ran⟩ :=
    fails fun all => by
      obtain ⟨m, -, ran, -⟩ := succeeds all
      obtain ⟨stop, error⟩ := failed
      rw [ran] at error
      cases error
  rw [calls] at split
  rcases before with _ | ⟨first, _ | ⟨second, more⟩⟩
  · cases split
    cases found
    cases open_
    cases known.symm.trans unknown
  · cases split
    cases found
    cases open_
    exact ⟨m, boundAt, ran⟩
  · simp at split

end StagedLowering
