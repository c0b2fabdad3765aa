import StagedLowering.Run

/-!
# Temporaries

Every call that is not listed by a temporary is put into one of its own. Temporaries are numbered
through a file; the next number is kept in the scratch of the scope. It is a number of 32 bits, so what
is said here holds up to the last of those.
-/

namespace StagedLowering

namespace File

/-- The edges from a node that is no temporary to a call. -/
def exposedCalls (file : File) : List (NodeId × NodeId) :=
  file.edges.filter fun (parent, child) => file.isCall child && !file.isTemporary parent

/-- Puts the call of an edge into a new temporary, which takes its place wherever the parent lists
it. -/
def wrapCall (file : File) (number : Nat) (edge : NodeId × NodeId) : File :=
  let (parent, call) := edge
  let wrapper : Node :=
    { kind := .temporary s!"tmp{number}", parent := some parent, children := [call] }
  ((file.push wrapper).setParent call (some file.size)).modify parent fun node =>
    { node with children := node.children.map fun child => if child = call then file.size else child }

def wrapEdges (file : File) (number : Nat) : List (NodeId × NodeId) → File
  | [] => file
  | edge :: rest => (file.wrapCall number edge).wrapEdges (number + 1) rest

/-- Wraps the exposed calls, in the order of the edges, under numbers from `number` on. -/
def wrapCalls (file : File) (number : Nat) : File := file.wrapEdges number file.exposedCalls

/-- Every call is in a temporary, and every temporary holds one call and nothing else. -/
def checkTemporaries (file : File) : Except Violation Unit :=
  match file.exposedCalls with
  | (_, call) :: _ => .error ⟨.callWithoutTemporary, file.locate call⟩
  | [] => file.preorder.forM fun id =>
    if file.isTemporary id then
      match file.children id with
      | [only] => if file.isCall only then .ok () else .error ⟨.temporaryHolds 1, file.locate id⟩
      | children => .error ⟨.temporaryHolds children.length, file.locate id⟩
    else .ok ()

end File

/-- The slot that holds the number of the next temporary. -/
def temporarySlot : String := "next temporary"

def introduceTemporaries {σ : Type} : Run σ File Failure Unit := do
  let file ← Run.getUnit
  let introduced := file.exposedCalls.length
  if 0 < introduced then
    let number := (((← Run.getContext).scope.scratch.numbers).get? temporarySlot).getD 0
    Run.setUnit (file.wrapCalls number)
    Run.onContext fun context =>
      (context.applyScratch (.number temporarySlot (.add introduced))).1
  Run.onContext (·.bump "temporaries" introduced)

end StagedLowering
