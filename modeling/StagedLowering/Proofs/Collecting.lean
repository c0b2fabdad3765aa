import Mathlib
import StagedLowering.Proofs.Entries
import StagedLowering.Proofs.Places

/-!
# Collected declarations

What collecting the declarations of a module adds to a table that may have symbols already
(`collectDeclarations_exact`). Each reachable node that declares something enters one symbol, up to the
first whose name is taken.
-/

namespace StagedLowering

def File.declaring (file : File) : List NodeId :=
  file.preorder.filter fun id => (file.kind? id).any (·.declaredName?.isSome)

/-- The symbol that the node at a place declares. An alias enters it unresolved, whatever the node
says. -/
structure Module.Enters (m : Module) (spot : FileId × NodeId) (symbol : Symbol) : Prop where
  place : ∃ file, m.files[spot.1]? = some file ∧ symbol.declaredAt = ⟨spot.1, file.path, spot.2⟩
  kind : (m.kindAt? spot = some (.function symbol.name) ∧ symbol.kind = .function) ∨
    ∃ target resolved, m.kindAt? spot = some (.synonym symbol.name target resolved) ∧
      symbol.kind = .synonym target none

def SymbolTable.Admits (table : SymbolTable) (symbols : List Symbol) : Prop :=
  (symbols.map (·.name)).Nodup ∧ ∀ symbol ∈ symbols, symbol.name ∉ table.names

variable {σ : Type} {table : SymbolTable} {file : File} {m : Module}

theorem SymbolTable.Indexed.admits_iff (indexed : table.Indexed) {symbols : List Symbol} :
    table.Admits symbols ↔ (table.names ++ symbols.map (·.name)).Nodup := by
  rw [List.nodup_append', and_iff_right indexed.nodup_names, SymbolTable.Admits]
  refine and_congr_right fun _ => ⟨fun free name taken new => ?_, fun apart symbol member taken => ?_⟩
  · obtain ⟨symbol, member, rfl⟩ := List.mem_map.mp new
    exact free symbol member taken
  · exact apart taken (List.mem_map_of_mem member)

/-! ### The symbols of a module -/

theorem forall₂_filterMap {α β : Type} (f : α → Option β) (list : List α) :
    List.Forall₂ (fun a b => f a = some b) (list.filter (f · |>.isSome)) (list.filterMap f) := by
  induction list with
  | nil => exact .nil
  | cons a rest ih =>
    cases found : f a with
    | none =>
      rw [List.filter_cons_of_neg (by simp [found]), List.filterMap_cons_none found]
      exact ih
    | some b =>
      rw [List.filter_cons_of_pos (by simp [found]), List.filterMap_cons_some found]
      exact .cons found ih

theorem forall₂_flatMap {α β γ : Type} {R : β → γ → Prop} {f : α → List β} {g : α → List γ}
    {list : List α} (each : ∀ a ∈ list, List.Forall₂ R (f a) (g a)) :
    List.Forall₂ R (list.flatMap f) (list.flatMap g) := by
  induction list with
  | nil => exact .nil
  | cons a rest ih =>
    rw [List.forall_mem_cons] at each
    rw [List.flatMap_cons, List.flatMap_cons]
    exact List.rel_append each.1 (ih each.2)

theorem File.declaring_eq (file : File) :
    file.declaring = file.preorder.filter (file.declaration? · |>.isSome) := by
  unfold declaring declaration?
  refine List.filter_congr fun id _ => ?_
  cases file.kind? id with
  | none => rfl
  | some kind => cases kind <;> rfl

theorem Module.enters_of_declaration? {i : FileId} {id : NodeId} {symbol : Symbol}
    (numbered : m.Numbered) (found : m.files[i]? = some file)
    (declared : file.declaration? id = some symbol) : m.Enters (i, id) symbol := by
  have kindAt : m.kindAt? (i, id) = file.kind? id := by rw [kindAt?, found]; rfl
  have place : file.locate id = ⟨i, file.path, id⟩ := by rw [File.locate, numbered i file found]
  unfold File.declaration? at declared
  split at declared
  · next name kind =>
    cases declared
    exact ⟨⟨file, found, place⟩, .inl ⟨kindAt.trans kind, rfl⟩⟩
  · next name target resolved kind =>
    cases declared
    exact ⟨⟨file, found, place⟩, .inr ⟨target, resolved, kindAt.trans kind, rfl⟩⟩
  · cases declared

theorem Module.enters_declarations (numbered : m.Numbered) :
    List.Forall₂ m.Enters (m.places File.declaring) m.declarations := by
  have files : m.declarations = m.files.zipIdx.flatMap fun entry => entry.1.declarations := by
    conv_lhs => rw [declarations, ← List.zipIdx_map_fst 0 m.files, List.flatMap_map]
  rw [files, places]
  refine forall₂_flatMap fun entry member => ?_
  obtain ⟨file, i⟩ := entry
  have found := List.mem_zipIdx_iff_getElem?.mp member
  dsimp only
  rw [List.forall₂_map_left_iff, File.declaring_eq]
  refine (forall₂_filterMap file.declaration? file.preorder).imp fun id symbol declared => ?_
  exact enters_of_declaration? numbered found declared

/-! ### The pass -/

/-- Collecting the declarations of a module whose files carry their positions enters one symbol for
each node that declares something, behind those of a table that was in use before. It succeeds exactly
if their names are different and free, and else fails at the first whose name is taken, after entering
those before it. -/
theorem collectDeclarations_exact {state : State σ Module} {changes : List SymbolTable.Change}
    (numbered : state.unit.Numbered)
    (made : state.context.symbols = SymbolTable.changed {} changes) :
    ∃ symbols, List.Forall₂ state.unit.Enters (state.unit.places File.declaring) symbols ∧
      (collectDeclarations state).2.unit = state.unit ∧
      ((∃ last, collectDeclarations state = (.ok (), last)) ↔
        state.context.symbols.Admits symbols) ∧
      (state.context.symbols.Admits symbols → ∃ table : SymbolTable,
        table.Extends state.context.symbols symbols ∧
        collectDeclarations state = (.ok (), { state with
          context := { state.context with symbols := table }.setStatistic "symbols" table.size })) ∧
      (¬ state.context.symbols.Admits symbols → ∃ before symbol after holder, ∃ table : SymbolTable,
        symbols = before ++ symbol :: after ∧ state.context.symbols.Admits before ∧
        holder ∈ state.context.symbols.entries.toList ++ before ∧ holder.name = symbol.name ∧
        table.Extends state.context.symbols before ∧
        collectDeclarations state = (.error (.error
            (.reported (.alreadyDeclared symbol.name holder.declaredAt) symbol.declaredAt)),
          { state with context := { state.context with symbols := table } }) ∧
        Complaint.message (.alreadyDeclared symbol.name holder.declaredAt) =
          s!"`{symbol.name}` is already declared at {holder.declaredAt.text}") := by
  have indexed : state.context.symbols.Indexed :=
    made ▸ (SymbolTable.indexed_empty.changed changes).1
  refine ⟨state.unit.declarations, state.unit.enters_declarations numbered,
    collectDeclarations_unit state, ?_⟩
  rw [indexed.admits_iff]
  have ran := collectDeclarations_apply state
  rcases SymbolTable.declareAll_cases indexed state.unit.declarations with
    ⟨distinct, table, declared, all⟩ | ⟨table, before, symbol, earlier, declared, clash⟩
  · rw [declared] at ran
    exact ⟨iff_of_true ⟨_, ran⟩ distinct, fun _ => ⟨table, all, ran⟩,
      fun clash => absurd distinct clash⟩
  · obtain ⟨holder, held, name⟩ := clash.taken
    obtain ⟨after, first⟩ := clash.first
    rw [declared] at ran
    dsimp only at ran
    rw [held] at ran
    refine ⟨iff_of_false ?_ clash.not_nodup, fun distinct => absurd distinct clash.not_nodup,
      fun _ => ⟨before, symbol, after, holder, table, first, indexed.admits_iff.mpr clash.distinct,
        ?_, name, clash.grown, ran, rfl⟩⟩
    · rintro ⟨last, succeeded⟩
      cases ran.symm.trans succeeded
    · rw [← clash.grown.entries]
      exact List.mem_of_getElem? ((SymbolTable.get?_eq table earlier).symm.trans held)

def File.settled : File where
  path := "settled"
  nodes := #[
    { kind := .root, children := [1, 2] },
    { kind := .synonym "short" "long" (some 4), parent := some 0 },
    { kind := .function "main", parent := some 0 }]

/-- The alias is entered without what it says. The function has a name that the table has already. -/
theorem collectDeclarations_exact_settled :
    let main : Symbol := ⟨"main", .function, ⟨0, "other", 1⟩⟩
    let state : State Unit Module :=
      ⟨(), {}, { symbols := SymbolTable.changed {} [.declare main] }, { name := "m", files := [.settled] }⟩
    state.unit.Numbered ∧
      ∃ before symbol after holder, ∃ table : SymbolTable,
        List.Forall₂ state.unit.Enters [(0, 1), (0, 2)] (before ++ symbol :: after) ∧
        table.Extends state.context.symbols before ∧
        holder ∈ state.context.symbols.entries.toList ++ before ∧ holder.name = symbol.name ∧
        collectDeclarations state = (.error (.error
            (.reported (.alreadyDeclared symbol.name holder.declaredAt) symbol.declaredAt)),
          { state with context := { state.context with symbols := table } }) := by
  intro main state
  have numbered : state.unit.Numbered := Module.numbered_singleton rfl
  have places : state.unit.places File.declaring = [(0, 1), (0, 2)] := by cbv
  have failed : ∃ stop, (collectDeclarations state).1 = .error stop := ⟨_, by cbv⟩
  obtain ⟨symbols, entered, -, succeeds, -, clashes⟩ := collectDeclarations_exact numbered rfl
  refine ⟨numbered, ?_⟩
  obtain ⟨before, symbol, after, holder, table, rfl, -, member, name, grown, ran, -⟩ :=
    clashes fun admits => by
      obtain ⟨last, ran⟩ := succeeds.mpr admits
      obtain ⟨stop, error⟩ := failed
      rw [ran] at error
      cases error
  exact ⟨before, symbol, after, holder, table, places ▸ entered, grown, member, name, ran⟩

end StagedLowering
