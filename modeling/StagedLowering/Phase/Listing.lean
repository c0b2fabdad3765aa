import StagedLowering.Phase.Outline
import StagedLowering.Text.Columns
import StagedLowering.Text.Quoting

/-!
# Listings

The readable form of a list has a line for every phase, nested phases under their parent. The
inspected form shows the list itself.
-/

namespace StagedLowering.Outline

def line (depth : Nat) (outline : Outline) : String :=
  let after := match outline.prerequisites with
    | [] => ""
    | prerequisites => " (after " ++ String.intercalate ", " prerequisites ++ ")"
  s!"{Text.indent depth}{Text.padRight 24 outline.id} " ++
    s!"[{outline.granularity.text} {outline.kind.text}] {outline.description}{after}\n"

mutual

def listing (depth : Nat) : Outline → String
  | outline@⟨_, _, _, _, _, children⟩ => outline.line depth ++ listAll (depth + 1) children

def listAll (depth : Nat) : List Outline → String
  | [] => ""
  | outline :: rest => outline.listing depth ++ listAll depth rest

end

def inspectIds (ids : List PhaseId) : String :=
  "[" ++ String.intercalate ", " (ids.map fun id => s!"PhaseId({id})") ++ "]"

def inspect (outline : Outline) : String :=
  "PhaseDescriptor \x7b id: PhaseId(" ++ outline.id ++ "), description: " ++
    Text.Quoting.inspected.quote outline.description ++ ", prerequisites: " ++
    inspectIds outline.prerequisites ++ ", .. \x7d"

def inspectAll (outlines : List Outline) : String :=
  "[" ++ String.intercalate ", " (outlines.map inspect) ++ "]"

end StagedLowering.Outline
