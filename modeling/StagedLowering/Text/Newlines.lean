/-!
# Line ends

`normalize` writes every line end as a single line feed: a carriage return with the line feed behind
it, or a carriage return alone.
-/

namespace StagedLowering.Text

def normalizeChars : List Char → List Char
  | [] => []
  | '\r' :: '\n' :: rest => '\n' :: normalizeChars rest
  | c :: rest => (if c = '\r' then '\n' else c) :: normalizeChars rest

def normalize (text : String) : String := String.ofList (normalizeChars text.toList)

end StagedLowering.Text
