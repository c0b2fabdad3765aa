import StagedLowering.Run.Fixpoint

/-!
# Aliases

An alias may name another alias, declared anywhere. A round goes through the aliases that are still
pending, in the order of their declaration, and gives each whose target is known by then the
function that the target stands for, in the table and in the tree alike.
-/

namespace StagedLowering

/-- Writes the function of an alias to the node that declares it, if that is an alias. Nothing is
given if there is no such node. -/
def Module.resolveAt (m : Module) (place : Location) (function : SymbolId) : Option Module := do
  let file ← m.files[place.file]?
  match ← file.kind? place.node with
  | .synonym name target _ =>
    return m.setFile place.file (file.setKind place.node (.synonym name target (some function)))
  | _ => return m

/-- Resolves one alias in the table and in the module. Nothing is given if its target is not known
yet. -/
def resolveAlias (symbols : SymbolTable) (m : Module) (id : SymbolId) :
    Except (Stop Failure) (Option (SymbolTable × Module)) :=
  match symbols.get? id with
  | some ⟨name, .synonym target _, declaredAt⟩ =>
    match symbols.lookup target with
    | none => .error (.error (.reported (.unknownTarget name target) declaredAt))
    | some next =>
      match symbols.functionOf next with
      | none => .ok none
      | some function =>
        match m.resolveAt declaredAt function with
        | none => .error .fault
        | some m => .ok (some (symbols.resolve id (some function), m))
  | _ => .ok (some (symbols, m))

/-- Resolves aliases in turn and counts those that stay pending. -/
def resolveAliases (symbols : SymbolTable) (m : Module) (residual : Nat) :
    List SymbolId → SymbolTable × Module × Except (Stop Failure) Nat
  | [] => (symbols, m, .ok residual)
  | id :: rest =>
    match resolveAlias symbols m id with
    | .error stop => (symbols, m, .error stop)
    | .ok none => resolveAliases symbols m (residual + 1) rest
    | .ok (some (symbols, m)) => resolveAliases symbols m residual rest

def resolveRound {σ : Type} : Run σ Module Failure Progress := do
  let symbols := (← Run.getContext).symbols
  let (symbols, m, result) := resolveAliases symbols (← Run.getUnit) 0 symbols.pending
  Run.onContext ({ · with symbols })
  Run.setUnit m
  return .ofResidual (← Run.ofExcept result)

end StagedLowering
