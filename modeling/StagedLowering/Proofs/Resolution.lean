import StagedLowering.Proofs.Aliases
import StagedLowering.Proofs.Declaring

/-!
# One round of alias resolution

After `r` rounds exactly the aliases are resolved whose chain takes fewer than `r` steps to aliases
declared later, each to the function at the end of its chain, in the table and in the tree alike
(`Stage`). In the next round every open alias has its turn (`resolveAliases_cases`).
-/

namespace StagedLowering

open Aliases

theorem Symbol.resolve_of_target {symbol : Symbol} {target : String} {function : Option SymbolId}
    (some : symbol.target? = some target) :
    symbol.resolve function = ⟨symbol.name, .synonym target function, symbol.declaredAt⟩ := by
  obtain ⟨name, kind, place⟩ := symbol
  cases kind
  · cases some
  · cases some
    rfl

theorem Module.resolveAt_spec {m : Module} {place : Location} {name target : String}
    {old : Option SymbolId}
    (found : m.kindAt? (place.file, place.node) = some (.synonym name target old))
    (function : SymbolId) :
    ∃ resolved, m.resolveAt place function = some resolved ∧
      ∀ spot, resolved.kindAt? spot =
        if spot = (place.file, place.node) then some (.synonym name target (some function))
        else m.kindAt? spot := by
  obtain ⟨file, fileFound, kind⟩ := Option.bind_eq_some_iff.mp found
  refine ⟨m.setFile place.file (file.setKind place.node (.synonym name target (some function))),
    ?_, fun spot => ?_⟩
  · unfold resolveAt
    rw [fileFound]
    dsimp only at kind
    simp [kind]
  · obtain ⟨number, node⟩ := spot
    have inRange := (List.getElem?_eq_some_iff.mp fileFound).1
    unfold kindAt? setFile
    dsimp only at kind inRange ⊢
    by_cases sameFile : number = place.file
    · subst sameFile
      rw [List.getElem?_set_self inRange, fileFound, Option.bind_some, Option.bind_some,
        File.kind?_setKind (File.lt_of_kind? kind)]
      by_cases sameNode : place.node = node
      · rw [if_pos sameNode, if_pos (by rw [sameNode])]
      · rw [if_neg sameNode, if_neg fun same => sameNode (Prod.mk.inj same).2.symm]
    · rw [List.getElem?_set_ne (Ne.symm sameFile), if_neg fun same => sameFile (Prod.mk.inj same).1]

theorem Module.not_declared_detached (name target : String) :
    ¬ Declared (⟨name, [.detached]⟩ : Module).declarations target := by
  rintro ⟨symbol, member, _⟩
  obtain ⟨file, inFiles, member⟩ := mem_declarations.mp member
  rw [List.mem_singleton.mp inFiles, File.declarations_detached] at member
  cases member

/-! ### Tables with some functions known -/

/-- The table has the symbols of a list in their order, the aliases with the functions that `resolved`
gives them. -/
structure SymbolTable.Records (symbols : List Symbol) (resolved : SymbolId → Option SymbolId)
    (table : SymbolTable) : Prop where
  indexed : table.Indexed
  entries : ∀ i, table.get? i = (symbols[i]?).map (·.resolve (resolved i))

namespace SymbolTable.Records

variable {symbols : List Symbol} {table : SymbolTable} {resolved : SymbolId → Option SymbolId}
  {i j f : Nat} {name : String}

theorem lookup_iff (records : table.Records symbols resolved) :
    table.lookup name = some j ↔ ∃ symbol, symbols[j]? = some symbol ∧ symbol.name = name := by
  rw [records.indexed, records.entries]
  cases symbols[j]? with
  | none => simp
  | some symbol => simp

theorem functionOf_function (records : table.Records symbols resolved)
    (isFunction : IsFunction symbols j) : table.functionOf j = some j := by
  obtain ⟨symbol, entry, none⟩ := isFunction
  have found := records.entries j
  rw [entry] at found
  unfold SymbolTable.functionOf
  rw [found]
  obtain ⟨name, kind, place⟩ := symbol
  cases kind
  · rfl
  · cases none

theorem get?_alias (records : table.Records symbols resolved) {symbol : Symbol} {target : String}
    (entry : symbols[i]? = some symbol) (aims : symbol.target? = some target) :
    table.get? i = some ⟨symbol.name, .synonym target (resolved i), symbol.declaredAt⟩ := by
  rw [records.entries, entry, Option.map_some, Symbol.resolve_of_target aims]

theorem functionOf_alias (records : table.Records symbols resolved)
    (isAlias : IsAlias symbols j) : table.functionOf j = resolved j := by
  obtain ⟨symbol, target, entry, some⟩ := isAlias
  unfold SymbolTable.functionOf
  rw [records.get?_alias entry some]

/-- An alias in the table is one of the symbols. -/
theorem exists_of_alias (records : table.Records symbols resolved) {target : String}
    {function : Option SymbolId} {place : Location}
    (found : table.get? i = some ⟨name, .synonym target function, place⟩) :
    ∃ symbol, symbols[i]? = some symbol ∧ symbol.target? = some target ∧ symbol.name = name ∧
      symbol.declaredAt = place ∧ resolved i = function := by
  rw [records.entries, Option.map_eq_some_iff] at found
  obtain ⟨symbol, entry, same⟩ := found
  cases aims : symbol.target? with
  | none =>
    rw [← Symbol.kind_resolve_eq_function, same] at aims
    cases aims
  | some aim =>
    rw [Symbol.resolve_of_target aims] at same
    cases same
    exact ⟨symbol, entry, aims, rfl, rfl, rfl⟩

theorem isFunction_iff (records : table.Records symbols resolved) :
    table.isFunction f = true ↔ IsFunction symbols f := by
  unfold SymbolTable.isFunction
  rw [records.entries, Option.any_eq_true]
  constructor
  · intro found
    obtain ⟨_, entry, isFunction⟩ := found
    obtain ⟨symbol, here, rfl⟩ := Option.map_eq_some_iff.mp entry
    exact ⟨symbol, here, Symbol.kind_resolve_eq_function.mp (of_decide_eq_true isFunction)⟩
  · intro found
    obtain ⟨symbol, here, none⟩ := found
    refine ⟨symbol.resolve (resolved f), ?_,
      decide_eq_true (Symbol.kind_resolve_eq_function.mpr none)⟩
    rw [here, Option.map_some]

theorem resolve (records : table.Records symbols resolved) (i : SymbolId) (f : SymbolId) :
    (table.resolve i (some f)).Records symbols fun i' => if i' = i then some f else resolved i' where
  indexed := records.indexed.resolve _ _
  entries i' := by
    rw [SymbolTable.get?_resolve, records.entries]
    by_cases same : i = i'
    · subst same
      rw [if_pos rfl, if_pos rfl, Option.map_map]
      exact Option.map_congr fun symbol _ => symbol.resolve_resolve _ _
    · rw [if_neg same, if_neg (Ne.symm same)]

end SymbolTable.Records

/-- Different symbols of a list are declared at different places. -/
theorem Symbol.spot_ne {symbols : List Symbol} (spots : (symbols.map spot).Nodup) {i j : Nat}
    {symbol other : Symbol} (entry : symbols[i]? = some symbol) (otherEntry : symbols[j]? = some other)
    (different : j ≠ i) : other.spot ≠ symbol.spot := by
  intro same
  have spotI : (symbols.map Symbol.spot)[i]? = some symbol.spot := by simp [entry]
  have spotJ : (symbols.map Symbol.spot)[j]? = some symbol.spot := by simp [otherEntry, same]
  have inRange := (List.getElem?_eq_some_iff.mp spotJ).1
  exact different ((List.getElem?_inj inRange spots).mp (spotJ.trans spotI.symm))

/-! ### The state between rounds -/

/-- Where resolution stands when the aliases are resolved as `resolved` says: those are the ones
whose chain takes fewer steps to later aliases than `bound` says. -/
structure Stage (symbols : List Symbol) (bound : SymbolId → Nat) (table : SymbolTable) (m : Module)
    (resolved : SymbolId → Option SymbolId) : Prop where
  indexed : table.Indexed
  entries : ∀ i, table.get? i = (symbols[i]?).map (·.resolve (resolved i))
  placed : ∀ symbol ∈ symbols, (m.kindAt? symbol.spot).map NodeKind.unbound = some symbol.nodeKind
  written : ∀ i symbol target f, symbols[i]? = some symbol → symbol.target? = some target →
    resolved i = some f → m.kindAt? symbol.spot = some (.synonym symbol.name target (some f))
  chains : ∀ i f, resolved i = some f ↔ ∃ k < bound i, Chain symbols i k f

/-- In round `r + 1` the aliases before `next` have had their turn. -/
def turn (r next i : Nat) : Nat := if i < next then r + 1 else r

theorem turn_before {r next i : Nat} (before : i < next) : turn r next i = r + 1 := if_pos before

theorem turn_after {r next i : Nat} (after : next ≤ i) : turn r next i = r :=
  if_neg (Nat.not_lt.mpr after)

theorem turn_next {r i other : Nat} (different : other ≠ i) : turn r (i + 1) other = turn r i other := by
  unfold turn
  have before : other < i + 1 ↔ other < i := by omega
  simp only [before]

variable {symbols : List Symbol} {bound : SymbolId → Nat} {table : SymbolTable} {m : Module}
  {resolved : SymbolId → Option SymbolId} {r i j f : Nat} {name : String}

namespace Stage

theorem records (stage : Stage symbols bound table m resolved) : table.Records symbols resolved :=
  ⟨stage.indexed, stage.entries⟩

/-- Aliases that are already resolved can be counted as having had their turn. -/
theorem advance (distinct : (symbols.map (·.name)).Nodup) {next later : Nat}
    (stage : Stage symbols (turn r next) table m resolved)
    (settled : ∀ i, next ≤ i → i < later → IsAlias symbols i → resolved i ≠ none)
    (order : next ≤ later) : Stage symbols (turn r later) table m resolved where
  indexed := stage.indexed
  entries := stage.entries
  placed := stage.placed
  written := stage.written
  chains i f := by
    have old := stage.chains i
    rcases Nat.lt_or_ge i next with early | late
    · rw [turn_before (Nat.lt_of_lt_of_le early order)]
      rw [turn_before early] at old
      exact old f
    · rw [turn_after late] at old
      rcases Nat.lt_or_ge i later with inside | beyond
      · rw [turn_before inside]
        constructor
        · intro found
          obtain ⟨k, short, chain⟩ := (old f).mp found
          exact ⟨k, Nat.lt_succ_of_lt short, chain⟩
        · intro found
          obtain ⟨k, _, chain⟩ := found
          obtain ⟨f', found⟩ := Option.ne_none_iff_exists'.mp
            (settled i late inside chain.isAlias)
          obtain ⟨k', _, chain'⟩ := (old f').mp found
          obtain ⟨_, rfl⟩ := chain.unique distinct chain'
          exact found
      · rw [turn_after beyond]
        exact old f

/-- An alias whose target is still open has no short chain, so its turn changes nothing. -/
theorem wait (distinct : (symbols.map (·.name)).Nodup)
    (stage : Stage symbols (turn r i) table m resolved) (unresolved : resolved i = none)
    (refers : RefersTo symbols i j) (pending : table.functionOf j = none) :
    Stage symbols (turn r (i + 1)) table m resolved where
  indexed := stage.indexed
  entries := stage.entries
  placed := stage.placed
  written := stage.written
  chains i' f := by
    by_cases same : i' = i
    · subst same
      rw [unresolved, turn_before (Nat.lt_succ_self i')]
      refine ⟨nofun, fun found => ?_⟩
      obtain ⟨k, short, chain⟩ := found
      -- The rest of the chain is short enough for the target to be resolved by now.
      cases chain with
      | function again isFunction =>
        cases refers.unique distinct again
        rw [stage.records.functionOf_function isFunction] at pending
        cases pending
      | earlier again before rest =>
        cases refers.unique distinct again
        rw [stage.records.functionOf_alias rest.isAlias] at pending
        have found := (stage.chains j f).mpr ⟨k, (turn_before before).symm ▸ short, rest⟩
        rw [pending] at found
        cases found
      | @later _ _ _ k again after rest =>
        cases refers.unique distinct again
        rw [stage.records.functionOf_alias rest.isAlias] at pending
        have shorter := Nat.lt_of_succ_lt_succ short
        have found := (stage.chains j f).mpr
          ⟨k, (turn_after (Nat.le_of_lt after)).symm ▸ shorter, rest⟩
        rw [pending] at found
        cases found
    · rw [turn_next same]
      exact stage.chains i' f

theorem exists_chain_of_known (stage : Stage symbols (turn r i) table m resolved)
    (unresolved : resolved i = none) (refers : RefersTo symbols i j)
    (known : table.functionOf j = some f) : ∃ k < r + 1, Chain symbols i k f := by
  obtain ⟨_, referent, _, found, _⟩ := id refers
  cases target : referent.target? with
  | none =>
    have isFunction : IsFunction symbols j := ⟨referent, found, target⟩
    rw [stage.records.functionOf_function isFunction] at known
    cases known
    exact ⟨0, Nat.succ_pos r, .function refers isFunction⟩
  | some next =>
    have isAlias : IsAlias symbols j := ⟨referent, next, found, target⟩
    rw [stage.records.functionOf_alias isAlias] at known
    obtain ⟨k, short, chain⟩ := (stage.chains j f).mp known
    rcases Nat.lt_trichotomy j i with before | same | after
    · rw [turn_before before] at short
      exact ⟨k, short, .earlier refers before chain⟩
    · rw [same, unresolved] at known
      cases known
    · rw [turn_after (Nat.le_of_lt after)] at short
      exact ⟨k + 1, Nat.succ_lt_succ short, .later refers after chain⟩

/-- An alias whose target is known takes its function over. -/
theorem take (distinct : (symbols.map (·.name)).Nodup) (spots : (symbols.map Symbol.spot).Nodup)
    (stage : Stage symbols (turn r i) table m resolved) (unresolved : resolved i = none)
    (refers : RefersTo symbols i j) (known : table.functionOf j = some f) {symbol : Symbol}
    {target : String} (entry : symbols[i]? = some symbol) (aims : symbol.target? = some target)
    {changed : Module}
    (kinds : ∀ spot, changed.kindAt? spot = if spot = symbol.spot then
      some (.synonym symbol.name target (some f)) else m.kindAt? spot) :
    Stage symbols (turn r (i + 1)) (table.resolve i f) changed
      fun i' => if i' = i then some f else resolved i' := by
  obtain ⟨indexed, entries⟩ := stage.records.resolve i f
  refine ⟨indexed, entries, fun other member => ?_, ?_, fun i' f' => ?_⟩
  · rw [kinds]
    obtain ⟨i', otherEntry⟩ := List.getElem?_of_mem member
    by_cases same : i' = i
    · subst same
      cases entry.symm.trans otherEntry
      rw [if_pos rfl, Symbol.nodeKind_of_target aims]
      rfl
    · rw [if_neg (Symbol.spot_ne spots entry otherEntry same)]
      exact stage.placed other member
  · intro i' other target' f' otherEntry otherAims found
    rw [kinds]
    by_cases same : i' = i
    · subst same
      cases entry.symm.trans otherEntry
      cases aims.symm.trans otherAims
      rw [if_pos rfl] at found ⊢
      rw [found]
    · rw [if_neg same] at found
      rw [if_neg (Symbol.spot_ne spots entry otherEntry same)]
      exact stage.written i' other target' f' otherEntry otherAims found
  · by_cases same : i' = i
    · subst same
      rw [if_pos rfl, turn_before (Nat.lt_succ_self i')]
      obtain ⟨k, short, chain⟩ := stage.exists_chain_of_known unresolved refers known
      constructor
      · intro found
        cases found
        exact ⟨k, short, chain⟩
      · intro found
        obtain ⟨k', _, chain'⟩ := found
        obtain ⟨_, rfl⟩ := chain.unique distinct chain'
        rfl
    · rw [if_neg same, turn_next same]
      exact stage.chains i' f'

/-- What the turn of an open alias comes to: its target is not declared, still open, or known. -/
theorem resolveAlias_cases (distinct : (symbols.map (·.name)).Nodup)
    (spots : (symbols.map Symbol.spot).Nodup) (stage : Stage symbols (turn r i) table m resolved)
    {symbol : Symbol} {target : String} (entry : symbols[i]? = some symbol)
    (aims : symbol.target? = some target) (unresolved : resolved i = none) :
    (¬ Declared symbols target ∧ resolveAlias table m i =
        .error (.error (.reported (.unknownTarget symbol.name target) symbol.declaredAt))) ∨
      Declared symbols target ∧
        ((resolveAlias table m i = .ok none ∧
          Stage symbols (turn r (i + 1)) table m resolved) ∨
        ∃ f changed,
          resolveAlias table m i = .ok (some (table.resolve i (some f), changed)) ∧
            Stage symbols (turn r (i + 1)) (table.resolve i (some f)) changed
              fun i' => if i' = i then some f else resolved i') := by
  unfold resolveAlias
  rw [stage.records.get?_alias entry aims]
  dsimp only
  cases referred : table.lookup target with
  | none =>
    refine .inl ⟨fun declared => ?_, rfl⟩
    obtain ⟨referent, member, name⟩ := declared
    obtain ⟨j, referentFound⟩ := List.getElem?_of_mem member
    have present := stage.records.lookup_iff.mpr ⟨referent, referentFound, name⟩
    rw [referred] at present
    cases present
  | some j =>
    obtain ⟨referent, referentFound, name⟩ := stage.records.lookup_iff.mp referred
    refine .inr ⟨⟨referent, List.mem_of_getElem? referentFound, name⟩, ?_⟩
    have refers : RefersTo symbols i j := ⟨symbol, referent, entry, referentFound, name ▸ aims⟩
    dsimp only
    cases known : table.functionOf j with
    | none => exact .inl ⟨rfl, stage.wait distinct unresolved refers known⟩
    | some f =>
      have placed := stage.placed symbol (List.mem_of_getElem? entry)
      rw [Symbol.nodeKind_of_target aims, Option.map_eq_some_iff] at placed
      obtain ⟨kind, kindFound, unbound⟩ := placed
      obtain ⟨old, rfl⟩ := NodeKind.unbound_eq_synonym unbound
      obtain ⟨changed, written, kinds⟩ := Module.resolveAt_spec kindFound f
      dsimp only
      rw [written]
      exact .inr ⟨f, changed, rfl,
        stage.take distinct spots unresolved refers known entry aims kinds⟩

end Stage

/-! ### A round of turns -/

/-- The aliases that are open from `next` on, in the order of their turns. -/
structure Queue (symbols : List Symbol) (resolved : SymbolId → Option SymbolId) (next : Nat)
    (ids : List SymbolId) : Prop where
  sorted : ids.Pairwise (· < ·)
  above : ∀ i ∈ ids, next ≤ i
  mem_iff : ∀ i, next ≤ i → (i ∈ ids ↔ IsAlias symbols i ∧ resolved i = none)

namespace Queue

variable {next : Nat} {ids : List SymbolId}

theorem settled (queue : Queue symbols resolved next []) (late : next ≤ i)
    (isAlias : IsAlias symbols i) : resolved i ≠ none := by
  intro unresolved
  exact List.not_mem_nil ((queue.mem_iff i late).mpr ⟨isAlias, unresolved⟩)

theorem head (queue : Queue symbols resolved next (i :: ids)) :
    next ≤ i ∧ IsAlias symbols i ∧ resolved i = none := by
  have late := queue.above i List.mem_cons_self
  exact ⟨late, (queue.mem_iff i late).mp List.mem_cons_self⟩

/-- What comes before the first open alias is settled. -/
theorem skipped (queue : Queue symbols resolved next (i :: ids)) (late : next ≤ j) (before : j < i)
    (isAlias : IsAlias symbols j) : resolved j ≠ none := by
  intro unresolved
  obtain ⟨below, _⟩ := List.pairwise_cons.mp queue.sorted
  rcases List.mem_cons.mp ((queue.mem_iff j late).mpr ⟨isAlias, unresolved⟩) with same | later
  · exact Nat.lt_irrefl i (same ▸ before)
  · exact Nat.lt_asymm before (below j later)

/-- After its turn the first alias has left the queue, whatever became of it. -/
theorem tail (queue : Queue symbols resolved next (i :: ids))
    {resolved' : SymbolId → Option SymbolId} (same : ∀ j, j ≠ i → resolved' j = resolved j) :
    Queue symbols resolved' (i + 1) ids := by
  obtain ⟨below, sorted⟩ := List.pairwise_cons.mp queue.sorted
  refine ⟨sorted, below, fun j after => ?_⟩
  have different : j ≠ i := fun same => Nat.lt_irrefl i (same ▸ after)
  have late := Nat.le_trans queue.head.1 (Nat.le_of_lt after)
  rw [same j different, ← queue.mem_iff j late, List.mem_cons]
  simp [different]

end Queue

def FirstAstrayOf (symbols : List Symbol) (ids : List SymbolId) (failure : Failure) : Prop :=
  ∃ i ∈ ids, ∃ symbol target, symbols[i]? = some symbol ∧ symbol.target? = some target ∧
    ¬ Declared symbols target ∧
    failure = .reported (.unknownTarget symbol.name target) symbol.declaredAt ∧
    ∀ j ∈ ids, j < i → NamesDeclared symbols j

/-- The aliases whose turn it is are gone through up to the first whose target is not declared. If
there is none, those are counted that are still open. -/
theorem resolveAliases_cases (distinct : (symbols.map (·.name)).Nodup)
    (spots : (symbols.map Symbol.spot).Nodup) {ids : List SymbolId} {next : Nat}
    (stage : Stage symbols (turn r next) table m resolved)
    (queue : Queue symbols resolved next ids) (residual : Nat) :
    (∃ failure changed last, FirstAstrayOf symbols ids failure ∧
        resolveAliases table m residual ids = (changed, last, .error (.error failure))) ∨
      (∀ i ∈ ids, NamesDeclared symbols i) ∧ ∃ changed last resolved',
        resolveAliases table m residual ids =
            (changed, last, .ok (residual + (ids.filter (resolved' · = none)).length)) ∧
          Stage symbols (fun _ => r + 1) changed last resolved' ∧
          ∀ i < next, resolved' i = resolved i := by
  induction ids generalizing next table m resolved residual with
  | nil =>
    have done : Stage symbols (fun _ => r + 1) table m resolved := by
      refine ⟨stage.indexed, stage.entries, stage.placed, stage.written, fun i f => ?_⟩
      have swept : Stage symbols (turn r (max next (i + 1))) table m resolved :=
        stage.advance distinct (fun i late _ isAlias => queue.settled late isAlias)
          (Nat.le_max_left ..)
      rw [← turn_before (Nat.le_max_right next (i + 1))]
      exact swept.chains i f
    exact .inr ⟨nofun, table, m, resolved, rfl, done, fun _ _ => rfl⟩
  | cons i rest ih =>
    obtain ⟨here, ⟨symbol, target, entry, aims⟩, unresolved⟩ := queue.head
    have below := (List.pairwise_cons.mp queue.sorted).1
    have advanced := stage.advance distinct (fun j late before => queue.skipped late before) here
    -- What the rest comes to, once the first of the aliases has a target that is declared.
    have onward : ∀ {failure}, Declared symbols target → FirstAstrayOf symbols rest failure →
        FirstAstrayOf symbols (i :: rest) failure := by
      intro failure declared astray
      obtain ⟨k, member, other, aim, found, otherAims, undeclared, reported, first⟩ := astray
      refine ⟨k, List.mem_cons_of_mem _ member, other, aim, found, otherAims, undeclared, reported,
        fun j listed before => ?_⟩
      rcases List.mem_cons.mp listed with rfl | listed
      · exact namesDeclared_of_target entry aims declared
      · exact first j listed before
    rw [resolveAliases]
    rcases advanced.resolveAlias_cases distinct spots entry aims unresolved with
      ⟨undeclared, ran⟩ | ⟨declared, ⟨ran, waiting⟩ | ⟨f, changed, ran, taken⟩⟩
    · rw [ran]
      refine .inl ⟨_, table, m, ⟨i, List.mem_cons_self, symbol, target, entry, aims, undeclared, rfl,
        fun j member before => ?_⟩, rfl⟩
      rcases List.mem_cons.mp member with rfl | later
      · exact absurd before (Nat.lt_irrefl j)
      · exact absurd before (Nat.lt_asymm (below j later))
    · rw [ran]
      rcases ih waiting (queue.tail fun _ _ => rfl) (residual + 1) with
        ⟨failure, changed, last, astray, stopped⟩ | ⟨all, changed, last, resolved', ended, done, same⟩
      · exact .inl ⟨failure, changed, last, onward declared astray, stopped⟩
      · have stillOpen : resolved' i = none := (same i (Nat.lt_succ_self i)).trans unresolved
        refine .inr ⟨List.forall_mem_cons.mpr ⟨namesDeclared_of_target entry aims declared, all⟩,
          changed, last, resolved', ?_, done,
          fun j early => same j (Nat.lt_succ_of_lt (Nat.lt_of_lt_of_le early here))⟩
        rw [List.filter_cons_of_pos (by simp [stillOpen]), List.length_cons]
        rw [Nat.add_assoc, Nat.add_comm 1] at ended
        exact ended
    · rw [ran]
      rcases ih taken (queue.tail fun j different => if_neg different) residual with
        ⟨failure, changed, last, astray, stopped⟩ | ⟨all, last, m', resolved', ended, done, same⟩
      · exact .inl ⟨failure, changed, last, onward declared astray, stopped⟩
      · have known : resolved' i = some f := by rw [same i (Nat.lt_succ_self i), if_pos rfl]
        refine .inr ⟨List.forall_mem_cons.mpr ⟨namesDeclared_of_target entry aims declared, all⟩,
          last, m', resolved', ?_, done, fun j before => ?_⟩
        · rw [List.filter_cons_of_neg (by simp [known])]
          exact ended
        · have early := Nat.lt_of_lt_of_le before here
          rw [same j (Nat.lt_succ_of_lt early), if_neg (Nat.ne_of_lt early)]

end StagedLowering
