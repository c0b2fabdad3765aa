/-!
# Nodes

A node says what it stands for, which node it takes for its parent, and which nodes it lists as
children. The tree is in the children lists; parent links may be stale while a lowering is under
way. The ids of nodes, files and symbols are numbers of 32 bits. Here they are natural numbers, which
comes to the same as long as no file, module or table has more entries than that.
-/

namespace StagedLowering

/-- The position of a node in its file. -/
abbrev NodeId := Nat

/-- The position of a file in its module. -/
abbrev FileId := Nat

/-- The position of a symbol in its table. -/
abbrev SymbolId := Nat

/-- A node named from outside its file. -/
structure Location where
  file : FileId
  path : String
  node : NodeId
deriving DecidableEq

def Location.text (place : Location) : String := s!"{place.path}#{place.node}"

inductive NodeKind
  | root
  | function (name : String)
  | block
  | call (callee : String) (target : Option SymbolId)
  /-- Another name for `target`, and the function it finally stands for. -/
  | synonym (name target : String) (resolved : Option SymbolId)
  | literal (value : Int)
  /-- A value that a lowering keeps under a name of its own. -/
  | temporary (name : String)
deriving DecidableEq

namespace NodeKind

def declaredName? : NodeKind → Option String
  | function name | synonym name _ _ => some name
  | _ => none

def isBlock : NodeKind → Bool
  | block => true
  | _ => false

def isCall : NodeKind → Bool
  | call _ _ => true
  | _ => false

def isTemporary : NodeKind → Bool
  | temporary _ => true
  | _ => false

def boundText : Option SymbolId → String
  | some symbol => s!"${symbol}"
  | none => "?"

def text : NodeKind → String
  | root => "root"
  | function name => s!"fun {name}"
  | block => "block"
  | call callee target => s!"call {callee} -> {boundText target}"
  | synonym name target resolved => s!"alias {name} = {target} -> {boundText resolved}"
  | literal value => s!"lit {value}"
  | temporary name => s!"tmp {name}"

end NodeKind

structure Node where
  kind : NodeKind
  parent : Option NodeId := none
  children : List NodeId := []
deriving DecidableEq

end StagedLowering
