import StagedLowering.Run

/-!
# Calls

A call without a target is bound to the function that its callee names, through aliases. Calls are
bound files in order and in each file in the order of a walk, up to the first callee that names no
function.
-/

namespace StagedLowering

/-- Binds the unbound calls among the nodes `ids` and counts them. -/
def File.bindCalls (symbols : SymbolTable) (file : File) :
    List NodeId → File × Except Failure Nat
  | [] => (file, .ok 0)
  | id :: rest =>
    match file.kind? id with
    | some (.call callee none) =>
      match symbols.functionFor callee with
      | none => (file, .error (.reported (.unknownCallee callee) (file.locate id)))
      | some function =>
        let (file, bound) :=
          (file.setKind id (.call callee (some function))).bindCalls symbols rest
        (file, bound.map (· + 1))
    | _ => file.bindCalls symbols rest

def bindFiles (symbols : SymbolTable) : List File → List File × Except Failure Nat
  | [] => ([], .ok 0)
  | file :: rest =>
    match file.bindCalls symbols file.preorder with
    | (file, .error failure) => (file :: rest, .error failure)
    | (file, .ok bound) =>
      let (rest, more) := bindFiles symbols rest
      (file :: rest, more.map (bound + ·))

def bindCalls {σ : Type} : Run σ Module Failure Unit := do
  let m ← Run.getUnit
  let (files, result) := bindFiles (← Run.getContext).symbols m.files
  Run.setUnit { m with files }
  match result with
  | .ok bound => Run.onContext (·.bump "calls_bound" bound)
  | .error failure => Run.fail failure

end StagedLowering
