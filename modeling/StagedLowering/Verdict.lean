import StagedLowering.Text.Newlines
import StagedLowering.Text.Quoting

/-!
# Verdicts

What a finished program was expected to do is judged against what it did. The exit status and the
output, with its line ends normalized, are checked apart; a program that is expected to fail turns
the result around.
-/

namespace StagedLowering

inductive OutputCheck
  | any
  | exact (text : String)
  | predicate (description : String) (holds : String → Bool)

structure Expectation where
  exitStatus : Int := 0
  failing : Bool := false
  output : OutputCheck := .any

/-- What a program did. -/
structure Finished where
  exitStatus : Int
  output : String
deriving DecidableEq

inductive Mismatch
  | exitStatus (expected actual : Int)
  | output (expected actual : String)
  | predicate (description actual : String)
deriving DecidableEq

def Mismatch.text : Mismatch → String
  | exitStatus expected actual => s!"exit status {actual} (expected {expected})"
  | output expected actual =>
    "output " ++ Text.Quoting.inspected.quote actual ++
      " (expected " ++ Text.Quoting.inspected.quote expected ++ ")"
  | predicate description actual =>
    "output " ++ Text.Quoting.inspected.quote actual ++ " does not satisfy: " ++ description

/-- Whether the characters stand together somewhere in the text. -/
def occursIn (needle : List Char) : List Char → Bool
  | [] => needle.isEmpty
  | c :: rest => needle.isPrefixOf (c :: rest) || occursIn needle rest

namespace OutputCheck

/-- The output contains a text. -/
def contains (needle description : String) : OutputCheck :=
  .predicate description fun output => occursIn needle.toList output.toList

/-- The output has exactly this many line feeds. -/
def lineFeeds (count : Nat) (description : String) : OutputCheck :=
  .predicate description fun output => output.toList.count '\n' == count

/-- What is wrong with an output whose line ends are normalized. -/
def mismatch? (output : String) : OutputCheck → Option Mismatch
  | any => none
  | exact text =>
    let expected := Text.normalize text
    if expected = output then none else some (.output expected output)
  | predicate description holds =>
    if holds output then none else some (.predicate description output)

def inspect : OutputCheck → String
  | any => "Any"
  | exact text => "Exact(" ++ Text.Quoting.inspected.quote text ++ ")"
  | predicate description _ =>
    "Predicate \x7b description: " ++ Text.Quoting.inspected.quote description ++ ", .. \x7d"

end OutputCheck

inductive Verdict
  | pass
  | fail (mismatches : List Mismatch)
  /-- A known failure that did fail. -/
  | expectedFailure (mismatches : List Mismatch)
  /-- A known failure that held every check. -/
  | unexpectedPass
deriving DecidableEq

namespace Verdict

def isSuccess : Verdict → Bool
  | pass | expectedFailure _ => true
  | fail _ | unexpectedPass => false

def mismatches : Verdict → List Mismatch
  | fail mismatches | expectedFailure mismatches => mismatches
  | pass | unexpectedPass => []

def text : Verdict → String
  | pass => "pass"
  | unexpectedPass => "unexpected pass"
  | fail mismatches => "fail: " ++ String.intercalate "; " (mismatches.map Mismatch.text)
  | expectedFailure mismatches =>
    "expected failure: " ++ String.intercalate "; " (mismatches.map Mismatch.text)

end Verdict

namespace Expectation

/-- The checks that do not hold, the exit status first. -/
def mismatches (expectation : Expectation) (outcome : Finished) : List Mismatch :=
  (if outcome.exitStatus = expectation.exitStatus then []
    else [.exitStatus expectation.exitStatus outcome.exitStatus]) ++
  (expectation.output.mismatch? (Text.normalize outcome.output)).toList

def judge (expectation : Expectation) (outcome : Finished) : Verdict :=
  match expectation.failing, expectation.mismatches outcome with
  | false, [] => .pass
  | false, mismatches => .fail mismatches
  | true, [] => .unexpectedPass
  | true, mismatches => .expectedFailure mismatches

end Expectation
end StagedLowering
