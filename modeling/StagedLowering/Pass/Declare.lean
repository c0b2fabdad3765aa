import StagedLowering.Run

/-!
# Declarations

Functions and aliases of all files share one namespace. They are declared files in order, and in
each file in the order of a walk; the first whose name is taken is reported.
-/

namespace StagedLowering

def File.declaration? (file : File) (id : NodeId) : Option Symbol :=
  match file.kind? id with
  | some (.function name) => some ⟨name, .function, file.locate id⟩
  | some (.synonym name target _) => some ⟨name, .synonym target none, file.locate id⟩
  | _ => none

/-- The symbols that the reachable nodes declare. -/
def File.declarations (file : File) : List Symbol := file.preorder.filterMap file.declaration?

def Module.declarations (m : Module) : List Symbol := m.files.flatMap File.declarations

/-- Declares symbols up to the first whose name is taken, which is given with the holder's
number. -/
def SymbolTable.declareAll (table : SymbolTable) :
    List Symbol → SymbolTable × Option (Symbol × SymbolId)
  | [] => (table, none)
  | symbol :: rest =>
    match table.declare symbol with
    | .ok table => table.declareAll rest
    | .error earlier => (table, some (symbol, earlier))

def collectDeclarations {σ : Type} : Run σ Module Failure Unit := do
  let (symbols, clash) := (← Run.getContext).symbols.declareAll (← Run.getUnit).declarations
  Run.onContext ({ · with symbols })
  match clash with
  | none => Run.onContext (·.setStatistic "symbols" symbols.size)
  | some (symbol, earlier) =>
    let holder ← Run.need (symbols.get? earlier)
    Run.fail (.reported (.alreadyDeclared symbol.name holder.declaredAt) symbol.declaredAt)

end StagedLowering
