import Mathlib
import StagedLowering.Proofs.Places
import StagedLowering.Proofs.Settling

/-!
# Table and tree in step

A resolved alias is written down twice, in the table and at the node that declares it. Whatever rounds
have been run, and however they ended, both say the same of each alias: nothing, or the function at the
end of its chain (`afterRounds_onlyResolved`). Each turn of a round keeps this
(`Resolving.resolveAlias`), so every part of a round does.
-/

namespace StagedLowering

open Aliases

def Module.AliasesOpen (m : Module) : Prop :=
  ∀ file ∈ m.files, ∀ id, file.Reachable id → ∀ name target resolved,
    file.kind? id = some (.synonym name target resolved) → resolved = none

theorem Module.aliasesOpen_of_unbound {m : Module}
    (fresh : ∀ file ∈ m.files, ∀ id < file.size,
      (file.kind? id).map NodeKind.unbound = file.kind? id) : m.AliasesOpen := by
  intro file member id reachable name target resolved kind
  have same := fresh file member id reachable.lt
  rw [kind] at same
  cases same
  rfl

def aliasSpots (symbols : List Symbol) : List (FileId × NodeId) :=
  (symbols.filter (·.target?.isSome)).map Symbol.spot

variable {σ : Type}

/-- The state after some rounds, however each of them ended. -/
def State.afterRounds (state : State σ Module) : Nat → State σ Module
  | 0 => state
  | rounds + 1 => (resolveRound (state.afterRounds rounds)).2

/-- Since `start`, where no alias was resolved, nothing has changed but the functions of aliases, and
they have changed in the table and at the nodes that declare them alike. -/
structure State.OnlyResolved (start reached : State σ Module) : Prop where
  agree : ∀ i name target resolved place,
    reached.context.symbols.get? i = some ⟨name, .synonym target resolved, place⟩ →
      reached.unit.kindAt? (place.file, place.node) = some (.synonym name target resolved)
  ends : ∀ i name target f place,
    reached.context.symbols.get? i = some ⟨name, .synonym target (some f), place⟩ →
      reached.context.symbols.isFunction f = true ∧
        ∃ k, Chain start.context.symbols.entries.toList i k f
  index : reached.context.symbols.index = start.context.symbols.index
  entries : ∀ i,
    (reached.context.symbols.get? i).map (·.resolve none) = start.context.symbols.get? i
  places : start.unit.SameBut (aliasSpots start.context.symbols.entries.toList) reached.unit
  rest : reached = { start with
    unit := reached.unit, context := { start.context with symbols := reached.context.symbols } }

def Lasts (resolved later : SymbolId → Option SymbolId) : Prop :=
  ∀ i f, resolved i = some f → later i = some f

theorem Lasts.refl (resolved : SymbolId → Option SymbolId) : Lasts resolved resolved :=
  fun _ _ found => found

theorem Lasts.trans {first middle last : SymbolId → Option SymbolId} (left : Lasts first middle)
    (right : Lasts middle last) : Lasts first last :=
  fun i f found => right i f (left i f found)

/-- The functions of aliases that `resolved` gives are those in the table and in the tree, and each is
the end of a chain. -/
structure Resolving (symbols : List Symbol) (original : Module) (table : SymbolTable) (m : Module)
    (resolved : SymbolId → Option SymbolId) : Prop where
  records : table.Records symbols resolved
  written : ∀ i symbol target, symbols[i]? = some symbol → symbol.target? = some target →
    m.kindAt? symbol.spot = some (.synonym symbol.name target (resolved i))
  elsewhere : ∀ spot, spot ∉ aliasSpots symbols → m.kindAt? spot = original.kindAt? spot
  ends : ∀ i f, resolved i = some f → ∃ k, Chain symbols i k f

variable {symbols : List Symbol} {original m : Module} {table : SymbolTable}
  {resolved : SymbolId → Option SymbolId} {i j f k : Nat} {spot : FileId × NodeId}

theorem mem_aliasSpots {symbol : Symbol} {target : String} (entry : symbols[i]? = some symbol)
    (aims : symbol.target? = some target) : symbol.spot ∈ aliasSpots symbols := by
  refine List.mem_map_of_mem (List.mem_filter.mpr ⟨List.mem_of_getElem? entry, ?_⟩)
  rw [aims]
  rfl

/-- An alias leads where the alias that it refers to leads. -/
theorem Aliases.RefersTo.chain (refers : RefersTo symbols i j) (rest : Chain symbols j k f) :
    ∃ k, Chain symbols i k f := by
  rcases Nat.lt_trichotomy j i with before | rfl | after
  · exact ⟨k, .earlier refers before rest⟩
  · exact ⟨k, rest⟩
  · exact ⟨k + 1, .later refers after rest⟩

namespace Resolving

/-- The function behind what an alias refers to is the end of the alias's own chain. -/
theorem exists_chain (resolving : Resolving symbols original table m resolved)
    (refers : RefersTo symbols i j) (known : table.functionOf j = some f) :
    ∃ k, Chain symbols i k f := by
  obtain ⟨_, referent, _, found, _⟩ := id refers
  cases target : referent.target? with
  | none =>
    have isFunction : IsFunction symbols j := ⟨referent, found, target⟩
    cases (resolving.records.functionOf_function isFunction).symm.trans known
    exact ⟨0, .function refers isFunction⟩
  | some next =>
    have isAlias : IsAlias symbols j := ⟨referent, next, found, target⟩
    rw [resolving.records.functionOf_alias isAlias] at known
    obtain ⟨k, chain⟩ := resolving.ends j f known
    exact refers.chain chain

section distinct

variable (distinct : (symbols.map (·.name)).Nodup) (spots : (symbols.map Symbol.spot).Nodup)

include distinct spots

/-- An alias takes a function over in the table and at its node. -/
theorem take (resolving : Resolving symbols original table m resolved) {symbol : Symbol}
    {target : String} (entry : symbols[i]? = some symbol) (aims : symbol.target? = some target)
    (chain : Chain symbols i k f) :
    ∃ changed, m.resolveAt symbol.declaredAt f = some changed ∧ ∃ later,
      Resolving symbols original (table.resolve i (some f)) changed later ∧ Lasts resolved later := by
  obtain ⟨changed, done, kinds⟩ :=
    Module.resolveAt_spec (resolving.written i symbol target entry aims) f
  refine ⟨changed, done, fun i' => if i' = i then some f else resolved i',
    ⟨resolving.records.resolve i f, fun i' other target' otherEntry otherAims => ?_,
      fun spot apart => ?_, fun i' f' found => ?_⟩, fun i' f' found => ?_⟩
  · rw [kinds]
    by_cases same : i' = i
    · subst same
      cases entry.symm.trans otherEntry
      cases aims.symm.trans otherAims
      rw [if_pos rfl]
      exact if_pos rfl
    · rw [if_neg same, ← resolving.written i' other target' otherEntry otherAims]
      exact if_neg (Symbol.spot_ne spots entry otherEntry same)
  · rw [kinds, if_neg, resolving.elsewhere spot apart]
    rintro rfl
    exact apart (mem_aliasSpots entry aims)
  · by_cases same : i' = i
    · subst same
      rw [if_pos rfl] at found
      cases found
      exact ⟨k, chain⟩
    · rw [if_neg same] at found
      exact resolving.ends i' f' found
  · dsimp only
    by_cases same : i' = i
    · -- A chain has one end, so an alias that was resolved before gets the function it has.
      subst same
      obtain ⟨k', chain'⟩ := resolving.ends i' f' found
      rw [if_pos rfl, (chain.unique distinct chain').2]
    · rw [if_neg same, found]

/-- A turn fails, leaves the alias open, or writes its function down. -/
theorem resolveAlias (resolving : Resolving symbols original table m resolved) (i : SymbolId) :
    (∃ failure, resolveAlias table m i = .error (.error failure)) ∨
      resolveAlias table m i = .ok none ∨
      ∃ changed again later, resolveAlias table m i = .ok (some (changed, again)) ∧
        Resolving symbols original changed again later ∧ Lasts resolved later := by
  unfold StagedLowering.resolveAlias
  split
  · next name target old place found =>
    obtain ⟨symbol, entry, aims, rfl, rfl, rfl⟩ := resolving.records.exists_of_alias found
    cases referred : table.lookup target with
    | none => exact .inl ⟨_, rfl⟩
    | some j =>
      obtain ⟨referent, referentFound, name⟩ := resolving.records.lookup_iff.mp referred
      have refers : RefersTo symbols i j := ⟨symbol, referent, entry, referentFound, name ▸ aims⟩
      dsimp only
      cases known : table.functionOf j with
      | none => exact .inr (.inl rfl)
      | some f =>
        obtain ⟨k, chain⟩ := resolving.exists_chain refers known
        obtain ⟨changed, done, later, onward, lasts⟩ := resolving.take distinct spots entry aims chain
        dsimp only
        rw [done]
        exact .inr (.inr ⟨_, _, later, rfl, onward, lasts⟩)
  · exact .inr (.inr ⟨table, m, resolved, rfl, resolving, .refl _⟩)

/-- A round, or the part of it before it fails, keeps table and tree in step. -/
theorem resolveAliases (resolving : Resolving symbols original table m resolved) (residual : Nat)
    (ids : List SymbolId) : ∃ changed again result later,
      resolveAliases table m residual ids = (changed, again, result) ∧ result ≠ .error .fault ∧
      Resolving symbols original changed again later ∧ Lasts resolved later := by
  induction ids generalizing table m resolved residual with
  | nil => exact ⟨table, m, _, resolved, rfl, by simp, resolving, .refl _⟩
  | cons i rest ih =>
    rw [StagedLowering.resolveAliases]
    rcases resolving.resolveAlias distinct spots i with
      ⟨failure, failed⟩ | waits | ⟨changed, again, later, taken, onward, lasts⟩
    · rw [failed]
      exact ⟨table, m, _, resolved, rfl, by simp, resolving, .refl _⟩
    · rw [waits]
      exact ih resolving (residual + 1)
    · rw [taken]
      obtain ⟨last, final, result, latest, ran, noFault, ends, further⟩ := ih onward residual
      exact ⟨last, final, result, latest, ran, noFault, ends, lasts.trans further⟩

variable {state : State σ Module}

theorem resolveRound (resolving : Resolving symbols original state.context.symbols state.unit resolved) :
    (resolveRound state).1 ≠ .error .fault ∧ ∃ later,
      Resolving symbols original (StagedLowering.resolveRound state).2.context.symbols
        (StagedLowering.resolveRound state).2.unit later ∧ Lasts resolved later := by
  obtain ⟨changed, again, result, later, ran, noFault, onward, lasts⟩ :=
    resolving.resolveAliases distinct spots 0 state.context.symbols.pending
  rw [resolveRound_apply, ran]
  refine ⟨?_, later, onward, lasts⟩
  rcases result with (failure | _) | left
  · exact nofun
  · exact absurd rfl noFault
  · exact nofun

theorem afterRounds (resolving : Resolving symbols original state.context.symbols state.unit resolved)
    (rounds : Nat) : ∃ later,
      Resolving symbols original (state.afterRounds rounds).context.symbols
        (state.afterRounds rounds).unit later ∧ Lasts resolved later := by
  induction rounds with
  | zero => exact ⟨resolved, resolving, .refl _⟩
  | succ rounds ih =>
    obtain ⟨later, onward, lasts⟩ := ih
    obtain ⟨-, latest, ends, further⟩ := onward.resolveRound distinct spots
    exact ⟨latest, ends, lasts.trans further⟩

end distinct
end Resolving

/-! ### What stays -/

theorem resolveAlias_index {changed : SymbolTable} {again : Module}
    (done : resolveAlias table m i = .ok (some (changed, again))) : changed.index = table.index := by
  unfold resolveAlias at done
  split at done
  · split at done
    · cases done
    · split at done
      · cases done
      · split at done
        · cases done
        · cases done
          rfl
  · cases done
    rfl

theorem resolveAliases_index (table : SymbolTable) (m : Module) (residual : Nat)
    (ids : List SymbolId) : (resolveAliases table m residual ids).1.index = table.index := by
  fun_induction resolveAliases table m residual ids with
  | case1 table m residual => rfl
  | case2 table m residual id rest stop failed => rfl
  | case3 table m residual id rest pending ih => exact ih
  | case4 table m residual id rest changed again done ih => exact ih.trans (resolveAlias_index done)

namespace State

variable (state : State σ Module)

theorem afterRounds_add (rounds more : Nat) :
    state.afterRounds (rounds + more) = (state.afterRounds rounds).afterRounds more := by
  induction more with
  | zero => rfl
  | succ more ih => rw [← Nat.add_assoc, afterRounds, ih, afterRounds]

/-- Rounds write to the table and the module alone, and not to the index. -/
theorem afterRounds_frame (rounds : Nat) :
    let reached := state.afterRounds rounds
    reached = { state with
        unit := reached.unit, context := { state.context with symbols := reached.context.symbols } } ∧
      reached.context.symbols.index = state.context.symbols.index ∧
      state.unit.Rebound NodeKind.isSynonym reached.unit := by
  induction rounds with
  | zero => exact ⟨rfl, rfl, (Module.carried_rebound _).refl _⟩
  | succ rounds ih =>
    obtain ⟨rest, index, rebound⟩ := ih
    rw [afterRounds]
    generalize state.afterRounds rounds = reached at rest index rebound
    have tables := resolveAliases_index reached.context.symbols reached.unit 0
      reached.context.symbols.pending
    have kinds := Module.rebound_resolveAliases reached.context.symbols reached.unit 0
      reached.context.symbols.pending
    rw [resolveRound_apply]
    refine ⟨?_, tables.trans index, (Module.carried_rebound _).trans rebound kinds⟩
    rw [rest]

/-- Rounds from where no alias is resolved have kept table and tree in step, if all that was resolved
is in both. -/
theorem onlyResolved_of_resolving {start : State σ Module} {rounds : Nat}
    (opened : start.context.symbols.Records start.context.symbols.entries.toList fun _ => none)
    (resolving : Resolving start.context.symbols.entries.toList start.unit
      (start.afterRounds rounds).context.symbols (start.afterRounds rounds).unit resolved) :
    start.OnlyResolved (start.afterRounds rounds) := by
  obtain ⟨rest, index, rebound⟩ := start.afterRounds_frame rounds
  refine ⟨fun i name target old place found => ?_, fun i name target f place found => ?_, index,
    fun i => ?_, rebound.sameBut resolving.elsewhere, rest⟩
  · obtain ⟨symbol, entry, aims, rfl, rfl, rfl⟩ := resolving.records.exists_of_alias found
    exact resolving.written i symbol target entry aims
  · obtain ⟨symbol, entry, aims, -, -, known⟩ := resolving.records.exists_of_alias found
    obtain ⟨k, chain⟩ := resolving.ends i f known
    exact ⟨resolving.records.isFunction_iff.mpr chain.isFunction, k, chain⟩
  · rw [resolving.records.entries, opened.entries, Option.map_map]
    exact Option.map_congr fun symbol _ => symbol.resolve_resolve _ _

end State

theorem Module.AliasesOpen.kindAt?_spot (opened : m.AliasesOpen) (numbered : m.Numbered)
    {symbol : Symbol} {target : String} (member : symbol ∈ m.declarations)
    (aims : symbol.target? = some target) :
    m.kindAt? symbol.spot = some (.synonym symbol.name target none) := by
  obtain ⟨file, fileMember, member⟩ := mem_declarations.mp member
  obtain ⟨id, reachable, declared⟩ := File.mem_declarations.mp member
  obtain ⟨spot, kind, -⟩ := File.declaration?_some declared
  obtain ⟨i, found⟩ := List.getElem?_of_mem fileMember
  rw [Symbol.nodeKind_of_target aims, Option.map_eq_some_iff] at kind
  obtain ⟨kind', present, unbound⟩ := kind
  obtain ⟨old, rfl⟩ := NodeKind.unbound_eq_synonym unbound
  obtain rfl := opened file fileMember id reachable _ _ _ present
  rw [spot, numbered i file found, kindAt?, found]
  exact present

/-- Collecting the declarations puts nothing but open aliases into table and tree. -/
theorem collectDeclarations_resolving {state start : State σ Module} (numbered : state.unit.Numbered)
    (fresh : state.context.symbols = {}) (opened : state.unit.AliasesOpen)
    (collected : collectDeclarations state = (.ok (), start)) :
    (state.unit.declarations.map (·.name)).Nodup ∧ start.unit = state.unit ∧
      start.context.symbols.entries.toList = state.unit.declarations ∧
      Resolving state.unit.declarations start.unit start.context.symbols start.unit fun _ => none := by
  obtain ⟨distinct, stage⟩ := collectDeclarations_stage numbered fresh collected
  rcases collectDeclarations_cases fresh with ⟨-, table, statistics, ran, -, entries⟩ | ⟨-, _, _, ran⟩
  · cases ran.symm.trans collected
    refine ⟨distinct, rfl, entries, stage.records, fun i symbol target entry aims => ?_,
      fun _ _ => rfl, nofun⟩
    exact opened.kindAt?_spot numbered (List.mem_of_getElem? entry) aims
  · cases ran.symm.trans collected

/-- After the declarations of a module were collected, whose aliases have no functions yet, any number
of rounds keeps table and tree in step. What is resolved stays as it is, and no round comes to a
fault. -/
theorem afterRounds_onlyResolved {state start : State σ Module} (numbered : state.unit.Numbered)
    (fresh : state.context.symbols = {}) (opened : state.unit.AliasesOpen)
    (collected : collectDeclarations state = (.ok (), start)) (rounds : Nat) :
    let reached := start.afterRounds rounds
    start.unit = state.unit ∧ start.context.symbols.entries.toList = state.unit.declarations ∧
      start.OnlyResolved reached ∧ (resolveRound reached).1 ≠ .error .fault ∧
      ∀ more i name target f place,
        reached.context.symbols.get? i = some ⟨name, .synonym target (some f), place⟩ →
          (start.afterRounds (rounds + more)).context.symbols.get? i =
            some ⟨name, .synonym target (some f), place⟩ := by
  intro reached
  obtain ⟨distinct, unit, entries, opening⟩ :=
    collectDeclarations_resolving numbered fresh opened collected
  have spots := Module.nodup_spots numbered
  obtain ⟨resolved, resolving, -⟩ := opening.afterRounds distinct spots rounds
  refine ⟨unit, entries, ?_, (resolving.resolveRound distinct spots).1,
    fun more i name target f place found => ?_⟩
  · rw [← entries] at opening resolving
    exact State.onlyResolved_of_resolving opening.records resolving
  · obtain ⟨symbol, entry, aims, rfl, rfl, known⟩ := resolving.records.exists_of_alias found
    obtain ⟨later, onward, lasts⟩ := resolving.afterRounds distinct spots more
    rw [State.afterRounds_add, onward.records.get?_alias entry aims, lasts i f known]

/-- The table and the node of an alias part in a file that carries the number of another. -/
theorem afterRounds_astray :
    let state : State Unit Module := ⟨(), {}, {}, .behindFunction .nearAlias⟩
    let start := (collectDeclarations state).2
    ¬ state.unit.Numbered ∧ state.context.symbols = {} ∧ state.unit.AliasesOpen ∧
      collectDeclarations state = (.ok (), start) ∧ ¬ start.OnlyResolved (start.afterRounds 1) := by
  intro state start
  refine ⟨Module.not_numbered_behindFunction rfl, rfl, Module.aliasesOpen_of_unbound (by decide),
    Prod.ext (by cbv) rfl, fun only => ?_⟩
  have entry : (start.afterRounds 1).context.symbols.get? 1 =
      some ⟨"alias", .synonym "f" (some 0), ⟨0, "b", 1⟩⟩ := by
    dsimp only [start, state]
    cbv
  have here : (start.afterRounds 1).unit.kindAt? (0, 1) = some (.function "f") := by
    dsimp only [start, state]
    cbv
  cases here.symm.trans (only.agree 1 _ _ _ _ entry)

def File.halfway : File where
  path := "halfway"
  nodes := #[
    { kind := .root, children := [1, 2, 3] },
    { kind := .synonym "short" "main" none, parent := some 0 },
    { kind := .synonym "astray" "nowhere" none, parent := some 0 },
    { kind := .function "main", parent := some 0 }]

/-- The first alias is resolved before the round fails at the second. -/
theorem afterRounds_onlyResolved_halfway :
    let state : State Unit Module := ⟨(), {}, {}, { name := "m", files := [.halfway] }⟩
    let start := (collectDeclarations state).2
    let reached := start.afterRounds 1
    (state.unit.Numbered ∧ state.context.symbols = {} ∧ state.unit.AliasesOpen ∧
      collectDeclarations state = (.ok (), start)) ∧
    start.OnlyResolved reached ∧ (∃ failure, (resolveRound start).1 = .error (.error failure)) ∧
      reached.unit.kindAt? (0, 1) = some (.synonym "short" "main" (some 2)) ∧
      reached.unit.kindAt? (0, 2) = some (.synonym "astray" "nowhere" none) := by
  intro state start reached
  have numbered : state.unit.Numbered := Module.numbered_singleton rfl
  have opened : state.unit.AliasesOpen := Module.aliasesOpen_of_unbound (by decide)
  have collected : collectDeclarations state = (.ok (), start) := Prod.ext (by cbv) rfl
  obtain ⟨-, -, onlyResolved, -, -⟩ := afterRounds_onlyResolved numbered rfl opened collected 1
  refine ⟨⟨numbered, rfl, opened, collected⟩, onlyResolved, ?_⟩
  dsimp only [reached, start, state]
  exact ⟨⟨_, by cbv⟩, by cbv, by cbv⟩

end StagedLowering
