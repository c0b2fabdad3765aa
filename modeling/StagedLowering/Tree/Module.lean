import StagedLowering.Tree.Walk
import StagedLowering.Text.Digest

/-!
# Modules

A module is a whole program: its files in the order they were added.
-/

namespace StagedLowering

structure Module where
  name : String
  files : List File := []
deriving DecidableEq

namespace Module

/-- Puts a file behind the others and numbers it. -/
def add (m : Module) (file : File) : Module :=
  { m with files := m.files ++ [{ file with id := m.files.length }] }

/-- Every file carries its own position, as `add` leaves it. -/
def Numbered (m : Module) : Prop := ∀ (i : Nat) (file : File), m.files[i]? = some file → file.id = i

def label (m : Module) : String := s!"module `{m.name}`"

def setFile (m : Module) (i : Nat) (file : File) : Module :=
  { m with files := m.files.set i file }

def render (m : Module) : String :=
  s!"module {m.name}\n" ++ String.join (m.files.map File.render)

/-- The digest of the rendered module, which tells two results apart. -/
def fingerprint (m : Module) : UInt64 := Text.Digest.digest 0 m.render.toUTF8.toList

theorem numbered_add {m : Module} (numbered : m.Numbered) (file : File) :
    (m.add file).Numbered := by
  intro i other member
  rcases Nat.lt_trichotomy i m.files.length with before | rfl | after
  · rw [add, List.getElem?_append_left before] at member
    exact numbered i other member
  · simp [add] at member
    simp [← member]
  · have within := (List.getElem?_eq_some_iff.mp member).1
    simp [add] at within
    omega

end Module
end StagedLowering
