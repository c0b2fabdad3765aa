import StagedLowering.Context
import StagedLowering.Proofs.Tables

/-!
# Tables in use

A table is made from the empty one by declaring symbols and by setting the functions of aliases.
`index_kept` says what holds of it then: its index finds exactly its entries, these are the accepted
symbols in their order, none of them is lost or renamed later, and tables with the same entries
answer alike.
-/

namespace StagedLowering

theorem Symbol.exists_resolve_self (symbol : Symbol) :
    ∃ function, symbol.resolve function = symbol := by
  obtain ⟨name, kind, place⟩ := symbol
  cases kind with
  | function => exact ⟨none, rfl⟩
  | synonym target resolved => exact ⟨resolved, rfl⟩

namespace SymbolTable

inductive Change
  | declare (symbol : Symbol)
  /-- Sets the function of an alias. -/
  | resolve (id : SymbolId) (function : Option SymbolId)

/-- A declaration that is refused changes nothing. -/
def change (table : SymbolTable) : Change → SymbolTable
  | .declare symbol =>
    match table.declare symbol with
    | .ok next => next
    | .error _ => table
  | .resolve id function => table.resolve id function

def changed (table : SymbolTable) (changes : List Change) : SymbolTable :=
  changes.foldl change table

def enumerate (table : SymbolTable) : List (SymbolId × Symbol) :=
  table.entries.toList.mapIdx fun id symbol => (id, symbol)

/-- The entries after a change, told without an index: a symbol is accepted unless one before it has
its name. -/
def Change.enter (entries : List Symbol) : Change → List Symbol
  | .declare symbol =>
    if symbol.name ∈ entries.map (·.name) then entries else entries ++ [symbol]
  | .resolve id function => entries.modify id (·.resolve function)

def accepted (changes : List Change) : List Symbol := changes.foldl Change.enter []

variable {table other : SymbolTable} {symbol : Symbol} {id earlier : SymbolId} {name : String}

/-! ### One change -/

theorem Indexed.lookup_eq_none_iff (indexed : table.Indexed) :
    table.lookup name = none ↔ name ∉ table.names := by
  rw [indexed.mem_names, Option.eq_none_iff_forall_ne_some, not_exists]

theorem declare_of_lookup (taken : table.lookup symbol.name = some earlier) :
    table.declare symbol = .error earlier := by
  rw [declare, taken]

theorem exists_declare (free : table.lookup symbol.name = none) :
    ∃ next, table.declare symbol = .ok next := by
  rw [declare, free]
  exact ⟨_, rfl⟩

theorem Indexed.change (indexed : table.Indexed) (change : Change) :
    (table.change change).Indexed ∧
      (table.change change).entries.toList = change.enter table.entries.toList := by
  cases change with
  | resolve id function => exact ⟨indexed.resolve id function, Array.toList_modify ..⟩
  | declare symbol =>
    rw [SymbolTable.change, Change.enter]
    cases found : table.lookup symbol.name with
    | some earlier =>
      have taken : symbol.name ∈ table.entries.toList.map (·.name) :=
        indexed.mem_names.mpr ⟨earlier, found⟩
      rw [declare_of_lookup found, if_pos taken]
      exact ⟨indexed, rfl⟩
    | none =>
      obtain ⟨next, declared⟩ := exists_declare found
      have free : symbol.name ∉ table.entries.toList.map (·.name) :=
        indexed.lookup_eq_none_iff.mp found
      rw [declared, if_neg free]
      exact indexed.declare declared

/-- An entry stays under its number; only its function can change. -/
theorem Indexed.get?_change (indexed : table.Indexed) (change : Change)
    (entry : table.get? id = some symbol) :
    ∃ function, (table.change change).get? id = some (symbol.resolve function) := by
  obtain ⟨function, same⟩ := symbol.exists_resolve_self
  cases change with
  | resolve other function' =>
    rw [SymbolTable.change, get?_resolve, entry]
    by_cases here : other = id
    · exact ⟨function', by rw [if_pos here, Option.map_some]⟩
    · exact ⟨function, by rw [if_neg here, same]⟩
  | declare added =>
    refine ⟨function, ?_⟩
    rw [same, SymbolTable.change]
    cases declared : table.declare added with
    | error earlier => exact entry
    | ok next =>
      have within : id < table.entries.toList.length := by
        simpa using (Array.getElem?_eq_some_iff.mp entry).1
      rw [get?_eq] at entry ⊢
      rw [(indexed.declare declared).2, List.getElem?_append_left within]
      exact entry

/-! ### All changes -/

theorem Indexed.changed (indexed : table.Indexed) (changes : List Change) :
    (table.changed changes).Indexed ∧
      (table.changed changes).entries.toList = changes.foldl Change.enter table.entries.toList := by
  induction changes generalizing table with
  | nil => exact ⟨indexed, rfl⟩
  | cons change rest ih =>
    obtain ⟨nextIndexed, entries⟩ := indexed.change change
    rw [List.foldl_cons, ← entries]
    exact ih nextIndexed

theorem Indexed.get?_changed (indexed : table.Indexed) (changes : List Change)
    (entry : table.get? id = some symbol) :
    ∃ function, (table.changed changes).get? id = some (symbol.resolve function) := by
  induction changes generalizing table symbol with
  | nil =>
    obtain ⟨function, same⟩ := symbol.exists_resolve_self
    exact ⟨function, same.symm ▸ entry⟩
  | cons change rest ih =>
    obtain ⟨first, entry⟩ := indexed.get?_change change entry
    obtain ⟨last, entry⟩ := ih (indexed.change change).1 entry
    rw [Symbol.resolve_resolve] at entry
    exact ⟨last, entry⟩

theorem Indexed.lookup_changed (indexed : table.Indexed) (changes : List Change)
    (entry : table.get? id = some symbol) :
    (table.changed changes).lookup symbol.name = some id := by
  obtain ⟨function, later⟩ := indexed.get?_changed changes entry
  exact ((indexed.changed changes).1 _ _).mpr ⟨_, later, Symbol.name_resolve⟩

/-! ### What the entries determine -/

theorem Indexed.lookup_congr (indexed : table.Indexed) (otherIndexed : other.Indexed)
    (same : table.entries = other.entries) : table.lookup name = other.lookup name := by
  have entry : ∀ id, table.get? id = other.get? id := fun id => by rw [get?, get?, same]
  refine Option.ext fun id => ?_
  rw [indexed, otherIndexed, entry]

theorem Indexed.functionFor_congr (indexed : table.Indexed) (otherIndexed : other.Indexed)
    (same : table.entries = other.entries) : table.functionFor name = other.functionFor name := by
  have function : ∀ id, table.functionOf id = other.functionOf id := fun id => by
    rw [functionOf, functionOf, get?, get?, same]
  rw [functionFor, functionFor, indexed.lookup_congr otherIndexed same]
  exact Option.bind_congr fun id _ => function id

/-! ### Declaring in a context -/

/-- A declaration is refused with the number of the entry that has the name and changes nothing, or
it enters the symbol under the next number. -/
def Declares (context : Context) (symbol : Symbol) : Prop :=
  (∃ earlier holder, context.declare symbol = (context, .error earlier) ∧
    context.symbols.get? earlier = some holder ∧ holder.name = symbol.name) ∨
  (symbol.name ∉ context.symbols.names ∧ ∃ next,
    context.declare symbol = ({ context with symbols := next }, .ok context.symbols.size) ∧
    next.get? context.symbols.size = some symbol)

theorem Indexed.declares {context : Context} (indexed : context.symbols.Indexed) (symbol : Symbol) :
    Declares context symbol := by
  rw [Declares, Context.declare]
  cases found : context.symbols.lookup symbol.name with
  | some earlier =>
    obtain ⟨holder, entry, name⟩ := (indexed _ _).mp found
    rw [declare_of_lookup found]
    exact .inl ⟨earlier, holder, rfl, entry, name⟩
  | none =>
    obtain ⟨next, declared⟩ := exists_declare found
    rw [declared]
    refine .inr ⟨indexed.lookup_eq_none_iff.mp found, next, rfl, ?_⟩
    rw [get?_eq, (indexed.declare declared).2]
    simp [size]

structure Kept (table : SymbolTable) (symbols : List Symbol) : Prop where
  distinct : table.names.Nodup
  found : ∀ name id, table.lookup name = some id ↔
    ∃ symbol, table.get? id = some symbol ∧ symbol.name = name
  enumerated : table.enumerate = symbols.mapIdx fun id symbol => (id, symbol)
  lasting : ∀ changes id symbol, table.get? id = some symbol →
    (table.changed changes).lookup symbol.name = some id ∧
      ∃ function, (table.changed changes).get? id = some (symbol.resolve function)
  declares : ∀ context : Context, context.symbols = table → ∀ symbol, Declares context symbol

/-- However a table was made from the empty one, its index and its entries agree, and so do its
answers with those of any other such table that has the same entries. -/
theorem index_kept (changes others : List Change) :
    (changed {} changes).Kept (accepted changes) ∧
      ((changed {} changes).same (changed {} others) = true → ∀ name,
        (changed {} changes).lookup name = (changed {} others).lookup name ∧
        (changed {} changes).functionFor name = (changed {} others).functionFor name) := by
  obtain ⟨indexed, entries⟩ := indexed_empty.changed changes
  refine ⟨⟨indexed.nodup_names, indexed, ?_, ?_, ?_⟩, ?_⟩
  · rw [enumerate, entries]
    rfl
  · intro more id symbol entry
    exact ⟨indexed.lookup_changed more entry, indexed.get?_changed more entry⟩
  · intro context table
    exact Indexed.declares (table ▸ indexed)
  · intro same name
    have otherIndexed := (indexed_empty.changed others).1
    have same : (changed {} changes).entries = (changed {} others).entries := of_decide_eq_true same
    exact ⟨indexed.lookup_congr otherIndexed same, indexed.functionFor_congr otherIndexed same⟩

/-- A name that is declared twice and an alias whose function is set twice. -/
theorem index_kept_twice :
    let first : Symbol := ⟨"first", .function, ⟨0, "main", 1⟩⟩
    let second : Symbol := ⟨"second", .synonym "first" none, ⟨0, "main", 2⟩⟩
    let changes : List Change :=
      [.declare first, .declare second, .declare { second with name := "first" },
        .resolve 1 (some 0)]
    let others : List Change :=
      [.declare first, .declare second, .resolve 1 (some 7), .resolve 1 (some 0)]
    (changed {} changes).same (changed {} others) = true ∧
      (changed {} changes).Kept [first, second.resolve (some 0)] ∧
      (changed {} changes).functionFor "second" = (changed {} others).functionFor "second" := by
  intro first second changes others
  have same : (changed {} changes).same (changed {} others) = true := by decide
  obtain ⟨kept, answers⟩ := index_kept changes others
  exact ⟨same, kept, (answers same "second").2⟩

end SymbolTable
end StagedLowering
