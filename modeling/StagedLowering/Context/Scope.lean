import StagedLowering.NameMap
import StagedLowering.Failure

/-!
# Scopes

A scope keeps what belongs to one run of a list: the phases done and skipped so far, and a scratch
area of named slots. A slot for numbers holds a natural number and stands for one of 32 or 64 bits,
which it agrees with as long as no sum runs over.
-/

namespace StagedLowering

/-- Named slots, each holding a number or a text. -/
structure Scratch where
  numbers : NameMap Nat := {}
  texts : NameMap String := {}

/-- What can be done with one slot. -/
inductive SlotStep (α : Type)
  | get
  | insert (value : α)
  | remove
  /-- Adds to the slot, which is made if it is absent. -/
  | add (value : α)
  /-- Adds to the slot if it is there. -/
  | modify (value : α)

/-- The slots after a step and the value it gives, before an insertion or removal and after an
addition. -/
def SlotStep.apply (zero : α) (plus : α → α → α) (slots : NameMap α) (name : String) :
    SlotStep α → NameMap α × Option α
  | get => (slots, slots.get? name)
  | insert value => (slots.insert name value, slots.get? name)
  | remove => (slots.erase name, slots.get? name)
  | add value =>
    let sum := plus ((slots.get? name).getD zero) value
    (slots.insert name sum, some sum)
  | modify value =>
    match slots.get? name with
    | some old => (slots.insert name (plus old value), some (plus old value))
    | none => (slots, none)

inductive ScratchStep
  | number (name : String) (step : SlotStep Nat)
  | text (name : String) (step : SlotStep String)

namespace Scratch

/-- How many slots there are. -/
def size (scratch : Scratch) : Nat := scratch.numbers.size + scratch.texts.size

/-- The scratch after a step, and the text of the value it gives. -/
def apply (scratch : Scratch) : ScratchStep → Scratch × Option String
  | .number name step =>
    let (numbers, value) := step.apply 0 (· + ·) scratch.numbers name
    ({ scratch with numbers }, value.map toString)
  | .text name step =>
    let (texts, value) := step.apply "" (· ++ ·) scratch.texts name
    ({ scratch with texts }, value)

def inspect (scratch : Scratch) : String := "Scratch \x7b slots: " ++ toString scratch.size ++ " \x7d"

end Scratch

structure Scope where
  label : String
  depth : Nat
  executed : List PhaseId := []
  skipped : List PhaseId := []
  scratch : Scratch := {}

namespace Scope

def isDone (scope : Scope) (phase : PhaseId) : Bool := phase ∈ scope.executed

def markDone (scope : Scope) (phase : PhaseId) : Scope :=
  { scope with executed := scope.executed ++ [phase] }

def markSkipped (scope : Scope) (phase : PhaseId) : Scope :=
  { scope with skipped := scope.skipped ++ [phase] }

end Scope
end StagedLowering
