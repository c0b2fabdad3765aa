import Mathlib.Data.List.Nodup
import StagedLowering.Pass.Declare

/-!
# Symbol tables

The index of a table finds exactly its entries (`Indexed`), and declaring and resolving keep it so.
`declareAll_cases` says when a list of symbols can be declared.
-/

namespace StagedLowering

namespace Symbol

variable {symbol : Symbol} {function : Option SymbolId}

def target? (symbol : Symbol) : Option String :=
  match symbol.kind with
  | .function => none
  | .synonym target _ => some target

@[simp] theorem name_resolve : (symbol.resolve function).name = symbol.name := by
  unfold resolve
  split
  · rfl
  · rfl

@[simp] theorem resolve_resolve (symbol : Symbol) (first second : Option SymbolId) :
    (symbol.resolve first).resolve second = symbol.resolve second := by
  obtain ⟨name, kind, place⟩ := symbol
  cases kind
  · rfl
  · rfl

theorem isPending_resolve :
    (symbol.resolve function).isPending = true ↔
      (∃ target, symbol.target? = some target) ∧ function = none := by
  obtain ⟨name, kind, place⟩ := symbol
  cases kind
  · exact ⟨nofun, fun ⟨⟨_, aims⟩, _⟩ => nomatch aims⟩
  · cases function
    · exact ⟨fun _ => ⟨⟨_, rfl⟩, rfl⟩, fun _ => rfl⟩
    · exact ⟨nofun, fun ⟨_, unresolved⟩ => nomatch unresolved⟩

theorem kind_resolve_eq_function :
    (symbol.resolve function).kind = .function ↔ symbol.target? = none := by
  obtain ⟨name, kind, place⟩ := symbol
  cases kind
  · exact ⟨fun _ => rfl, fun _ => rfl⟩
  · exact ⟨nofun, nofun⟩

end Symbol

namespace SymbolTable

variable {table next : SymbolTable} {symbol : Symbol} {id other : SymbolId} {name : String}

def Indexed (table : SymbolTable) : Prop :=
  ∀ name id, table.lookup name = some id ↔
    ∃ symbol, table.get? id = some symbol ∧ symbol.name = name

def names (table : SymbolTable) : List String := table.entries.toList.map (·.name)

theorem get?_eq (table : SymbolTable) (id : SymbolId) :
    table.get? id = table.entries.toList[id]? := by
  simp [get?]

theorem indexed_empty : ({} : SymbolTable).Indexed := by
  intro name id
  constructor
  · intro found
    cases found
  · intro found
    obtain ⟨symbol, entry, _⟩ := found
    cases entry

theorem Indexed.mem_names (indexed : table.Indexed) :
    name ∈ table.names ↔ ∃ id, table.lookup name = some id := by
  unfold names
  rw [List.mem_map]
  constructor
  · intro found
    obtain ⟨symbol, member, rfl⟩ := found
    obtain ⟨id, entry⟩ := List.getElem?_of_mem member
    exact ⟨id, (indexed _ _).mpr ⟨symbol, (get?_eq table id).trans entry, rfl⟩⟩
  · intro found
    obtain ⟨id, found⟩ := found
    obtain ⟨symbol, entry, rfl⟩ := (indexed _ _).mp found
    exact ⟨symbol, List.mem_of_getElem? ((get?_eq table id).symm.trans entry), rfl⟩

theorem Indexed.nodup_names (indexed : table.Indexed) : table.names.Nodup := by
  refine List.nodup_iff_getElem?_ne_getElem?.mpr fun i j before inRange same => ?_
  have entry : ∀ id : Nat, table.names[id]? = (table.get? id).map (·.name) := by
    intro id
    rw [get?_eq]
    exact List.getElem?_map
  rw [entry i, entry j] at same
  have within : j < table.entries.toList.length := by simpa [names] using inRange
  have foundJ := (get?_eq table j).trans (List.getElem?_eq_getElem within)
  rw [foundJ, Option.map_some, Option.map_eq_some_iff] at same
  obtain ⟨symbol, foundI, name⟩ := same
  have lookupJ := (indexed _ j).mpr ⟨_, foundJ, rfl⟩
  have lookupI := (indexed _ i).mpr ⟨symbol, foundI, name⟩
  rw [lookupI] at lookupJ
  cases lookupJ
  exact Nat.lt_irrefl i before

/-! ### Declaring -/

theorem get?_push (table : SymbolTable) (symbol : Symbol) (index : NameMap SymbolId)
    (id : SymbolId) :
    ({ entries := table.entries.push symbol, index } : SymbolTable).get? id =
      if id = table.size then some symbol else table.get? id := by
  simp only [get?, Array.getElem?_push]
  rfl

theorem Indexed.declare (indexed : table.Indexed) (declared : table.declare symbol = .ok next) :
    next.Indexed ∧ next.entries.toList = table.entries.toList ++ [symbol] := by
  unfold SymbolTable.declare at declared
  split at declared
  · cases declared
  · next free =>
    cases declared
    refine ⟨fun name id => ?_, by simp⟩
    rw [get?_push]
    show (table.index.insert symbol.name table.size).get? name = some id ↔ _
    rw [NameMap.get?_insert]
    have old : table.index.get? name = some id ↔
      ∃ found, table.get? id = some found ∧ found.name = name := indexed name id
    by_cases isNew : id = table.size
    · rw [if_pos isNew]
      constructor
      · intro found
        split at found
        · next same => exact ⟨symbol, rfl, same.symm⟩
        · obtain ⟨earlier, entry, _⟩ := old.mp found
          have missing : table.get? id = none := by simp [get?, isNew, size]
          rw [missing] at entry
          cases entry
      · intro found
        obtain ⟨_, entry, same⟩ := found
        cases entry
        rw [if_pos same.symm, isNew]
    · rw [if_neg isNew]
      split
      · next same =>
        constructor
        · intro found
          exact absurd (Option.some.inj found).symm isNew
        · intro found
          have taken := old.mpr found
          rw [same] at taken
          cases free.symm.trans taken
      · exact old

structure Extends (next table : SymbolTable) (added : List Symbol) : Prop where
  indexed : next.Indexed
  entries : next.entries.toList = table.entries.toList ++ added

/-- The first of some symbols whose name is taken, with the number of the one that has it. Those before
it are declared by then. -/
structure Clash (table : SymbolTable) (symbols : List Symbol) (next : SymbolTable)
    (before : List Symbol) (symbol : Symbol) (earlier : SymbolId) : Prop where
  first : ∃ after, symbols = before ++ symbol :: after
  distinct : (table.names ++ before.map (·.name)).Nodup
  grown : next.Extends table before
  taken : ∃ holder, next.get? earlier = some holder ∧ holder.name = symbol.name

theorem Extends.names {added : List Symbol} (grown : next.Extends table added) :
    next.names = table.names ++ added.map (·.name) := by
  rw [SymbolTable.names, grown.entries, List.map_append]
  rfl

theorem Clash.mem_names {symbols before : List Symbol} {earlier : SymbolId}
    (clash : table.Clash symbols next before symbol earlier) :
    symbol.name ∈ table.names ++ before.map (·.name) := by
  obtain ⟨holder, entry, name⟩ := clash.taken
  rw [← clash.grown.names, ← name]
  exact List.mem_map_of_mem (List.mem_of_getElem? ((get?_eq next earlier).symm.trans entry))

theorem Clash.not_nodup {symbols before : List Symbol} {earlier : SymbolId}
    (clash : table.Clash symbols next before symbol earlier) :
    ¬ (table.names ++ symbols.map (·.name)).Nodup := by
  intro nodup
  obtain ⟨after, rfl⟩ := clash.first
  rw [List.map_append, ← List.append_assoc] at nodup
  exact (List.nodup_append.mp nodup).2.2 symbol.name clash.mem_names symbol.name (by simp) rfl

/-- Symbols can be declared exactly if all names, those of the table among them, are different. -/
theorem declareAll_cases (indexed : table.Indexed) (symbols : List Symbol) :
    ((table.names ++ symbols.map (·.name)).Nodup ∧
        ∃ next, table.declareAll symbols = (next, none) ∧ next.Extends table symbols) ∨
      ∃ next before symbol earlier, table.declareAll symbols = (next, some (symbol, earlier)) ∧
        table.Clash symbols next before symbol earlier := by
  induction symbols generalizing table with
  | nil =>
    refine .inl ⟨?_, table, rfl, indexed, (List.append_nil _).symm⟩
    rw [List.map_nil, List.append_nil]
    exact indexed.nodup_names
  | cons symbol rest ih =>
    rw [declareAll]
    cases declared : table.declare symbol with
    | error earlier =>
      have taken : table.lookup symbol.name = some earlier := by
        unfold SymbolTable.declare at declared
        split at declared
        · next holder found => exact (Except.error.inj declared) ▸ found
        · cases declared
      refine .inr ⟨table, [], symbol, earlier, rfl, ⟨rest, rfl⟩, ?_,
        ⟨indexed, (List.append_nil _).symm⟩, (indexed _ _).mp taken⟩
      rw [List.map_nil, List.append_nil]
      exact indexed.nodup_names
    | ok next =>
      obtain ⟨nextIndexed, entries⟩ := indexed.declare declared
      have one : next.Extends table [symbol] := ⟨nextIndexed, entries⟩
      have onto : ∀ {last : SymbolTable} {more : List Symbol}, last.Extends next more →
          last.Extends table (symbol :: more) := fun more =>
        ⟨more.indexed, by rw [more.entries, entries, List.append_assoc, List.singleton_append]⟩
      have names : ∀ more : List Symbol, next.names ++ more.map (·.name) =
          table.names ++ (symbol :: more).map (·.name) := fun more => by simp [one.names]
      rcases ih nextIndexed with
        ⟨distinct, last, ran, all⟩ | ⟨last, before, second, earlier, ran, clash⟩
      · exact .inl ⟨names rest ▸ distinct, last, ran, onto all⟩
      · obtain ⟨after, same⟩ := clash.first
        exact .inr ⟨last, symbol :: before, second, earlier, ran, ⟨after, by rw [same]; rfl⟩,
          names before ▸ clash.distinct, onto clash.grown, clash.taken⟩

/-! ### Resolving -/

@[simp] theorem lookup_resolve (table : SymbolTable) (id : SymbolId) (function : Option SymbolId)
    (name : String) : (table.resolve id function).lookup name = table.lookup name := rfl

theorem get?_resolve (table : SymbolTable) (id other : SymbolId) (function : Option SymbolId) :
    (table.resolve id function).get? other =
      if id = other then (table.get? other).map (·.resolve function) else table.get? other := by
  simp only [get?, resolve, Array.getElem?_modify]

theorem Indexed.resolve (indexed : table.Indexed) (id : SymbolId) (function : Option SymbolId) :
    (table.resolve id function).Indexed := by
  intro name other
  rw [lookup_resolve, indexed, get?_resolve]
  split
  · cases table.get? other with
    | none => simp
    | some symbol => simp
  · rfl

/-! ### Pending aliases -/

theorem mem_pending :
    id ∈ table.pending ↔ ∃ symbol, table.get? id = some symbol ∧ symbol.isPending = true := by
  unfold pending
  rw [List.mem_filter, List.mem_range, Option.any_eq_true]
  constructor
  · intro found
    exact found.2
  · intro found
    obtain ⟨symbol, entry, open_⟩ := found
    exact ⟨(Array.getElem?_eq_some_iff.mp entry).1, symbol, entry, open_⟩

theorem pending_sorted (table : SymbolTable) : table.pending.Pairwise (· < ·) :=
  List.pairwise_lt_range.filter _

end SymbolTable
end StagedLowering
