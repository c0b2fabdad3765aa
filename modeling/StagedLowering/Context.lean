import StagedLowering.Context.Scope
import StagedLowering.Diagnostic
import StagedLowering.Symbols

/-!
# The context of a run

What all phases of a run share: symbols, diagnostics, counters, the history of phases, dumps, and a
stack of scopes that never runs empty. Every operation adds to what it finds.

Counters are natural numbers here. They stand for counters of 64 bits and tell what those do as long
as none of them runs over.
-/

namespace StagedLowering

inductive Outcome
  | completed
  | skipped
  | failed
deriving DecidableEq

def Outcome.text : Outcome → String
  | completed => "completed"
  | skipped => "skipped"
  | failed => "failed"

/-- What became of one phase on one unit, and how deep the scope was. -/
structure Record where
  phase : PhaseId
  unit : String
  depth : Nat
  outcome : Outcome
deriving DecidableEq

/-- The text of a unit right after a phase. -/
structure Dump where
  phase : PhaseId
  unit : String
  text : String
deriving DecidableEq

structure Context where
  symbols : SymbolTable := {}
  diagnostics : List Diagnostic := []
  statistics : NameMap Nat := {}
  history : List Record := []
  dumps : List Dump := []
  /-- The innermost scope. -/
  scope : Scope := { label := "root", depth := 0 }
  /-- The scopes around it, the root scope last. -/
  enclosing : List Scope := []
  cancelled : Bool := false

namespace Context

/-- Enters a fresh scope, one deeper than the innermost. -/
def enterScope (context : Context) (label : String) : Context :=
  { context with
    scope := { label, depth := context.scope.depth + 1 }
    enclosing := context.scope :: context.enclosing }

/-- Leaves the innermost scope unless it is the root scope. -/
def exitScope (context : Context) : Context :=
  match context.enclosing with
  | [] => context
  | scope :: enclosing => { context with scope, enclosing }

/-- The scope that `exitScope` leaves. -/
def exiting? (context : Context) : Option Scope :=
  if context.enclosing = [] then none else some context.scope

def markDone (context : Context) (phase : PhaseId) : Context :=
  { context with scope := context.scope.markDone phase }

def markSkipped (context : Context) (phase : PhaseId) : Context :=
  { context with scope := context.scope.markSkipped phase }

def applyScratch (context : Context) (step : ScratchStep) : Context × Option String :=
  let (scratch, value) := context.scope.scratch.apply step
  ({ context with scope := { context.scope with scratch } }, value)

def record (context : Context) (record : Record) : Context :=
  { context with history := context.history ++ [record] }

def recordDump (context : Context) (dump : Dump) : Context :=
  { context with dumps := context.dumps ++ [dump] }

def report (context : Context) (diagnostic : Diagnostic) : Context :=
  { context with diagnostics := context.diagnostics ++ [diagnostic] }

/-- A counter that was never touched is 0. -/
def statistic (context : Context) (name : String) : Nat := (context.statistics.get? name).getD 0

def setStatistic (context : Context) (name : String) (value : Nat) : Context :=
  { context with statistics := context.statistics.insert name value }

def bump (context : Context) (name : String) (amount : Nat) : Context :=
  context.setStatistic name (context.statistic name + amount)

def cancel (context : Context) : Context := { context with cancelled := true }

/-- The completed phases at every depth, in the order they completed. -/
def completedPhases (context : Context) : List PhaseId :=
  (context.history.filter (·.outcome = .completed)).map (·.phase)

def hasErrors (context : Context) : Bool := context.diagnostics.any (·.isError)

/-- Declares a symbol; if its name is taken, nothing changes and the holder's number is given. -/
def declare (context : Context) (symbol : Symbol) : Context × Except SymbolId SymbolId :=
  match context.symbols.declare symbol with
  | .ok symbols => ({ context with symbols }, .ok context.symbols.size)
  | .error earlier => (context, .error earlier)

end Context
end StagedLowering
