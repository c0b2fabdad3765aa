/-! Blanks that line up text. -/

namespace StagedLowering.Text

def blanks (n : Nat) : String := String.ofList (List.replicate n ' ')

/-- The text with blanks behind it up to `width` characters. -/
def padRight (width : Nat) (text : String) : String := text ++ blanks (width - text.length)

/-- Two blanks for each level of nesting. -/
def indent (depth : Nat) : String := blanks (depth * 2)

end StagedLowering.Text
