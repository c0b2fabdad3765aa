import StagedLowering.Text.Unprintable

/-!
# Escaped text

A `Quoting` says which characters are written as a backslash and a letter, and which by their code.
-/

namespace StagedLowering.Text

structure Quoting where
  /-- Characters written as a backslash and the letter beside them. -/
  named : List (Char × Char)
  /-- Whether another character is written by its code. -/
  coded : Char → Bool
  code : Char → List Char

namespace Quoting

def escape (q : Quoting) (c : Char) : List Char :=
  match q.named.lookup c with
  | some letter => ['\\', letter]
  | none => if q.coded c then q.code c else [c]

def body (q : Quoting) (text : String) : String := String.ofList (text.toList.flatMap q.escape)

/-- The escaped text between double quotes. -/
def quote (q : Quoting) (text : String) : String := "\"" ++ q.body text ++ "\""

/-- Text as it is shown for inspection: what cannot be seen is written by its code in braces. -/
def inspected : Quoting where
  named := [('"', '"'), ('\\', '\\'), ('\t', 't'), ('\r', 'r'), ('\n', 'n'), ('\x00', '0')]
  coded := isUnprintable
  code c := ['\\', 'u', '\x7b'] ++ Nat.toDigits 16 c.toNat ++ ['\x7d']

/-- A JSON string: only the controls need their code. -/
def json : Quoting where
  named := [('"', '"'), ('\\', '\\'), ('\t', 't'), ('\r', 'r'), ('\n', 'n'), ('\x08', 'b'),
    ('\x0c', 'f')]
  coded c := c.toNat < 0x20
  code c := ['\\', 'u', '0', '0', Nat.digitChar (c.toNat / 16), Nat.digitChar (c.toNat % 16)]

/-- A label of a drawn graph, where a line break is `\l`. -/
def label : Quoting where
  named := [('"', '"'), ('\\', '\\'), ('\n', 'l')]
  coded _ := false
  code c := [c]

end Quoting
end StagedLowering.Text
