import StagedLowering.Tree.Links
import StagedLowering.Run

/-!
# Verification and totals

A module is fully lowered if every file is well linked and every call is bound to a function. The
totals count the reachable nodes by what they are.
-/

namespace StagedLowering

/-- The calls of a file are bound to functions of the table. -/
def File.checkCalls (symbols : SymbolTable) (file : File) : Except Violation Unit :=
  file.preorder.forM fun id =>
    match file.kind? id with
    | some (.call callee target) =>
      if target.any symbols.isFunction then .ok ()
      else .error ⟨.callUnbound callee, file.locate id⟩
    | _ => .ok ()

def Module.verify (symbols : SymbolTable) (m : Module) : Except Violation Unit := do
  m.checkLinks
  m.files.forM (·.checkCalls symbols)

/-- The kinds of the reachable nodes. -/
def File.kinds (file : File) : List NodeKind := file.preorder.filterMap file.kind?

def Module.kinds (m : Module) : List NodeKind := m.files.flatMap File.kinds

def NodeKind.isFunction : NodeKind → Bool
  | function _ => true
  | _ => false

def NodeKind.isSynonym : NodeKind → Bool
  | synonym _ _ _ => true
  | _ => false

def collectStatistics {σ : Type} : Run σ Module Failure Unit := do
  let m ← Run.getUnit
  Run.onContext fun context => context
    |>.setStatistic "files" m.files.length
    |>.setStatistic "nodes" m.kinds.length
    |>.setStatistic "functions" (m.kinds.countP (·.isFunction))
    |>.setStatistic "aliases" (m.kinds.countP (·.isSynonym))
    |>.setStatistic "calls" (m.kinds.countP (·.isCall))

end StagedLowering
