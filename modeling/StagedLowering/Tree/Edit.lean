import StagedLowering.Tree.File

/-!
# Edits

Changes of a file by hand. `File.edit` makes any of them and may leave links and lists that do not
agree; `File.build` only ever adds a node under another.
-/

namespace StagedLowering

inductive Edit
  | add (parent : NodeId) (kind : NodeKind)
  /-- Makes a node that its parent does not list. -/
  | alloc (kind : NodeKind) (parent : Option NodeId)
  | setParent (node : NodeId) (parent : Option NodeId)
  | setChildren (node : NodeId) (children : List NodeId)
  | pushChild (node child : NodeId)
  | setKind (node : NodeId) (kind : NodeKind)

/-- One step of building a file: a new node and the parent that lists it. -/
inductive BuildStep
  | function (parent : NodeId) (name : String)
  | block (parent : NodeId)
  | call (parent : NodeId) (callee : String)
  | synonym (parent : NodeId) (name target : String)
  | literal (parent : NodeId) (value : Int)

namespace BuildStep

def parent : BuildStep → NodeId
  | function parent _ | block parent | call parent _ | synonym parent _ _ | literal parent _ =>
    parent

def kind : BuildStep → NodeKind
  | function _ name => .function name
  | block _ => .block
  | call _ callee => .call callee none
  | synonym _ name target => .synonym name target none
  | literal _ value => .literal value

end BuildStep

namespace File

/-- Makes a node and puts it behind the children of `parent`, if that exists once it is made. -/
def addChild (file : File) (parent : NodeId) (kind : NodeKind) : Option File :=
  let grown := file.push { kind, parent := some parent }
  if parent < grown.size then
    some (grown.modify parent fun node => { node with children := node.children ++ [file.size] })
  else none

/-- Changes a node that must exist. -/
def modify? (file : File) (id : NodeId) (change : Node → Node) : Option File :=
  if id < file.size then some (file.modify id change) else none

/-- The edited file and the node it gained, or nothing if the edit names a missing node. -/
def edit (file : File) : Edit → Option (File × Option NodeId)
  | .add parent kind => (file.addChild parent kind).map (·, some file.size)
  | .alloc kind parent => some (file.push { kind, parent }, some file.size)
  | .setParent id parent => (file.modify? id ({ · with parent })).map (·, none)
  | .setChildren id children => (file.modify? id ({ · with children })).map (·, none)
  | .pushChild id child =>
    (file.modify? id fun node => { node with children := node.children ++ [child] }).map (·, none)
  | .setKind id kind => (file.modify? id ({ · with kind })).map (·, none)

def build (file : File) (steps : List BuildStep) : Option File :=
  steps.foldlM (fun file step => file.addChild step.parent step.kind) file

end File
end StagedLowering
