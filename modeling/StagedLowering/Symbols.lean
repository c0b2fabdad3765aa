import StagedLowering.NameMap
import StagedLowering.Tree.Node

/-!
# Symbols

One table holds the functions and aliases of a module in the order of their declaration. An index
finds a symbol by its name, and a name is declared once.
-/

namespace StagedLowering

inductive SymbolKind
  | function
  | synonym (target : String) (resolved : Option SymbolId)
deriving DecidableEq

structure Symbol where
  name : String
  kind : SymbolKind
  declaredAt : Location
deriving DecidableEq

/-- An alias whose function is not known yet. -/
def Symbol.isPending (symbol : Symbol) : Bool :=
  match symbol.kind with
  | .synonym _ none => true
  | _ => false

/-- Records the function that an alias stands for. -/
def Symbol.resolve (symbol : Symbol) (function : Option SymbolId) : Symbol :=
  match symbol.kind with
  | .function => symbol
  | .synonym target _ => { symbol with kind := .synonym target function }

structure SymbolTable where
  entries : Array Symbol := #[]
  index : NameMap SymbolId := {}

namespace SymbolTable

def size (table : SymbolTable) : Nat := table.entries.size

def get? (table : SymbolTable) (id : SymbolId) : Option Symbol := table.entries[id]?

def lookup (table : SymbolTable) (name : String) : Option SymbolId := table.index.get? name

/-- Enters a symbol under the next number, or gives the number of the one that has its name. -/
def declare (table : SymbolTable) (symbol : Symbol) : Except SymbolId SymbolTable :=
  match table.lookup symbol.name with
  | some earlier => .error earlier
  | none => .ok {
      entries := table.entries.push symbol
      index := table.index.insert symbol.name table.size }

def resolve (table : SymbolTable) (id : SymbolId) (function : Option SymbolId) : SymbolTable :=
  { table with entries := table.entries.modify id (·.resolve function) }

/-- The function behind a symbol, as far as it is known. -/
def functionOf (table : SymbolTable) (id : SymbolId) : Option SymbolId :=
  match table.get? id with
  | some { kind := .function, .. } => some id
  | some { kind := .synonym _ resolved, .. } => resolved
  | none => none

/-- The function that a name stands for, through resolved aliases. -/
def functionFor (table : SymbolTable) (name : String) : Option SymbolId :=
  (table.lookup name).bind table.functionOf

def isFunction (table : SymbolTable) (id : SymbolId) : Bool :=
  (table.get? id).any (·.kind = .function)

/-- The aliases without a function, in the order of their declaration. -/
def pending (table : SymbolTable) : List SymbolId :=
  (List.range table.size).filter fun id => (table.get? id).any (·.isPending)

/-- Tables with the same symbols in the same order; the index follows from them. -/
def same (table other : SymbolTable) : Bool := table.entries = other.entries

end SymbolTable
end StagedLowering
