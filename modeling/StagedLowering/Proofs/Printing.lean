import Mathlib
import StagedLowering.Tree.Walk

/-!
# Printing

Nothing is quoted in what is printed of a node, and a name may look like any of the text around it.
`Shown.chars_inj` shows that a line can be read back all the same: what stands next to a name is
either a fixed text or has no blank in it, and only the name of an alias must do without a character
of its own.
-/

namespace StagedLowering

/-! ### Cuts -/

namespace Text

variable {c : Char} {front other back rest : List Char}

/-- A text is cut in one way at the first of a character. -/
theorem cut_first (absent : c ∉ front) (absentToo : c ∉ other)
    (same : front ++ c :: back = other ++ c :: rest) : front = other ∧ back = rest := by
  rcases List.append_eq_append_iff.mp same with ⟨more, rfl, behind⟩ | ⟨more, rfl, behind⟩
  · cases more with
    | nil => exact ⟨(List.append_nil _).symm, (List.cons.inj behind).2⟩
    | cons d more =>
      obtain ⟨rfl, -⟩ := List.cons.inj behind
      exact absurd (List.mem_append_right _ List.mem_cons_self) absentToo
  · cases more with
    | nil => exact ⟨List.append_nil _, (List.cons.inj behind).2.symm⟩
    | cons d more =>
      obtain ⟨rfl, -⟩ := List.cons.inj behind
      exact absurd (List.mem_append_right _ List.mem_cons_self) absent

/-- A text is cut in one way at the last of a character. -/
theorem cut_last (absent : c ∉ back) (absentToo : c ∉ rest)
    (same : front ++ c :: back = other ++ c :: rest) : front = other ∧ back = rest := by
  have reversed := congrArg List.reverse same
  simp only [List.reverse_append, List.reverse_cons, List.append_assoc, List.singleton_append]
    at reversed
  obtain ⟨backs, fronts⟩ :=
    cut_first (by rwa [List.mem_reverse]) (by rwa [List.mem_reverse]) reversed
  exact ⟨List.reverse_inj.mp fronts, List.reverse_inj.mp backs⟩

theorem toList_between {gap : String} (apart : gap.toList = front ++ c :: back)
    (before after : String) :
    (before ++ gap ++ after).toList = (before.toList ++ front) ++ c :: (back ++ after.toList) := by
  rw [String.toList_append, String.toList_append, apart]
  simp only [List.append_assoc, List.cons_append]

end Text

/-! ### Numbers -/

theorem not_mem_repr {c : Char} (noDigit : c.isDigit = false) (n : Nat) : c ∉ n.repr.toList := by
  intro member
  rw [Nat.toList_repr] at member
  have digit := Nat.isDigit_of_mem_toDigits (by decide) (by decide) member
  rw [noDigit] at digit
  cases digit

theorem newline_not_mem_repr (value : Int) : '\n' ∉ value.repr.toList := by
  rw [Int.repr_eq_if]
  split
  · exact not_mem_repr rfl _
  · rw [String.toList_append, List.mem_append]
    exact not_or.mpr ⟨by decide, not_mem_repr rfl _⟩

def tagged (tag bare : Char) : Option Nat → List Char
  | some n => tag :: n.repr.toList
  | none => [bare]

theorem tagged_inj {tag bare : Char} (apart : tag ≠ bare) {number other : Option Nat}
    (same : tagged tag bare number = tagged tag bare other) : number = other := by
  cases number with
  | none =>
    cases other with
    | none => rfl
    | some n => exact absurd (List.cons.inj same).1.symm apart
  | some n =>
    cases other with
    | none => exact absurd (List.cons.inj same).1 apart
    | some m =>
      have digits := String.toList_inj.mp (List.cons.inj same).2
      rw [Nat.repr_injective digits]

theorem not_mem_tagged {c tag bare : Char} (noDigit : c.isDigit = false) (noTag : c ≠ tag)
    (noBare : c ≠ bare) (number : Option Nat) : c ∉ tagged tag bare number := by
  cases number with
  | none => exact fun member => noBare (List.mem_singleton.mp member)
  | some n =>
    intro member
    rcases List.mem_cons.mp member with same | digit
    · exact noTag same
    · exact not_mem_repr noDigit n digit

/-! ### Kinds -/

namespace NodeKind

/-- No name in it goes over the end of a line, and that of an alias has no equals sign. -/
def Legible : NodeKind → Prop
  | root | block | literal _ => True
  | function name | temporary name => '\n' ∉ name.toList
  | call callee _ => '\n' ∉ callee.toList
  | synonym name target _ => '\n' ∉ name.toList ∧ '=' ∉ name.toList ∧ '\n' ∉ target.toList

instance decidableLegible : (kind : NodeKind) → Decidable kind.Legible
  | .root | .block | .literal _ => inferInstanceAs (Decidable True)
  | .function name | .temporary name => inferInstanceAs (Decidable ('\n' ∉ name.toList))
  | .call callee _ => inferInstanceAs (Decidable ('\n' ∉ callee.toList))
  | .synonym name target _ =>
    inferInstanceAs (Decidable ('\n' ∉ name.toList ∧ '=' ∉ name.toList ∧ '\n' ∉ target.toList))

def chars : NodeKind → List Char
  | root => "root".toList
  | function name => "fun ".toList ++ name.toList
  | block => "block".toList
  | call callee target =>
    "call ".toList ++ callee.toList ++ " ->".toList ++ ' ' :: tagged '$' '?' target
  | synonym name target resolved =>
    ("alias ".toList ++ name.toList ++ [' ']) ++ '=' :: (' ' :: target.toList) ++ " ->".toList ++
      ' ' :: tagged '$' '?' resolved
  | literal value => "lit ".toList ++ value.repr.toList
  | temporary name => "tmp ".toList ++ name.toList

def letter : NodeKind → Char
  | root => 'r'
  | function _ => 'f'
  | block => 'b'
  | call _ _ => 'c'
  | synonym _ _ _ => 'a'
  | literal _ => 'l'
  | temporary _ => 't'

variable {kind other : NodeKind}

theorem toList_boundText (bound : Option SymbolId) :
    (boundText bound).toList = tagged '$' '?' bound := by
  cases bound with
  | none => rfl
  | some symbol =>
    rw [show boundText (some symbol) = "$" ++ symbol.repr from rfl, String.toList_append]
    rfl

theorem toList_text (kind : NodeKind) : kind.text.toList = kind.chars := by
  have arrow : " -> ".toList = " ->".toList ++ [' '] := rfl
  have equals : " = ".toList = [' '] ++ '=' :: [' '] := rfl
  cases kind with
  | root => rfl
  | block => rfl
  | function name => exact String.toList_append
  | literal value => exact String.toList_append
  | temporary name => exact String.toList_append
  | call callee target =>
    have front : text (.call callee target) = "call " ++ callee ++ " -> " ++ boundText target := rfl
    rw [front, Text.toList_between arrow ("call " ++ callee) (boundText target),
      String.toList_append, toList_boundText]
    rfl
  | synonym name target resolved =>
    have front : text (.synonym name target resolved) =
        "alias " ++ name ++ " = " ++ target ++ " -> " ++ boundText resolved := rfl
    rw [front, Text.toList_between arrow ("alias " ++ name ++ " = " ++ target) (boundText resolved),
      Text.toList_between equals ("alias " ++ name) target, String.toList_append, toList_boundText]
    rfl

theorem head?_chars (kind : NodeKind) : kind.chars.head? = some kind.letter := by
  cases kind <;> rfl

theorem chars_inj (legible : kind.Legible) (otherLegible : other.Legible)
    (same : kind.chars = other.chars) : kind = other := by
  have letters : kind.letter = other.letter := by
    have heads := congrArg List.head? same
    rw [head?_chars, head?_chars] at heads
    exact Option.some.inj heads
  have noBlank (number : Option Nat) : ' ' ∉ tagged '$' '?' number :=
    not_mem_tagged rfl (by decide) (by decide) number
  have noEquals {name : String} (plain : '=' ∉ name.toList) :
      '=' ∉ "alias ".toList ++ name.toList ++ [' '] :=
    List.not_mem_append (List.not_mem_append (by decide) plain) (by decide)
  cases kind <;> cases other <;> try simp only [letter, Char.reduceEq] at letters
  case root.root => rfl
  case block.block => rfl
  case function.function name otherName =>
    rw [String.toList_inj.mp (List.append_cancel_left same)]
  case temporary.temporary name otherName =>
    rw [String.toList_inj.mp (List.append_cancel_left same)]
  case literal.literal value otherValue =>
    have digits := String.toList_inj.mp (List.append_cancel_left same)
    have read := congrArg String.toInt? digits
    rw [Int.toInt?_repr, Int.toInt?_repr] at read
    rw [Option.some.inj read]
  case call.call callee target otherCallee otherTarget =>
    obtain ⟨names, targets⟩ := Text.cut_last (noBlank _) (noBlank _) same
    have callees := List.append_cancel_left (List.append_cancel_right names)
    rw [String.toList_inj.mp callees, tagged_inj (by decide) targets]
  case synonym.synonym name target resolved otherName otherTarget otherResolved =>
    obtain ⟨names, bounds⟩ := Text.cut_last (noBlank _) (noBlank _) same
    obtain ⟨aliases, targets⟩ := Text.cut_first (noEquals legible.2.1) (noEquals otherLegible.2.1)
      (List.append_cancel_right names)
    have named := List.append_cancel_left (List.append_cancel_right aliases)
    rw [String.toList_inj.mp named, String.toList_inj.mp (List.cons.inj targets).2,
      tagged_inj (by decide) bounds]

theorem newline_not_mem_chars (legible : kind.Legible) : '\n' ∉ kind.chars := by
  have noNewline (number : Option Nat) : '\n' ∉ ' ' :: tagged '$' '?' number :=
    List.not_mem_cons_of_ne_of_not_mem (by decide)
      (not_mem_tagged rfl (by decide) (by decide) number)
  cases kind with
  | root => decide
  | block => decide
  | function name => exact List.not_mem_append (by decide) legible
  | temporary name => exact List.not_mem_append (by decide) legible
  | literal value => exact List.not_mem_append (by decide) (newline_not_mem_repr value)
  | call callee target =>
    refine List.not_mem_append (List.not_mem_append ?_ (by decide)) (noNewline target)
    exact List.not_mem_append (by decide) legible
  | synonym name target resolved =>
    refine List.not_mem_append (List.not_mem_append (List.not_mem_append ?_ ?_) (by decide))
      (noNewline resolved)
    · exact List.not_mem_append (List.not_mem_append (by decide) legible.1) (by decide)
    · exact List.not_mem_cons_of_ne_of_not_mem (by decide)
        (List.not_mem_cons_of_ne_of_not_mem (by decide) legible.2.2)

end NodeKind

/-! ### Lines -/

/-- What is printed of a node: its number, how deep it is, what it is and what it is linked to. -/
structure Shown where
  id : NodeId
  depth : Nat
  kind : NodeKind
  parent : Option NodeId

namespace Shown

variable {entry other : Shown}

def chars (entry : Shown) : List Char :=
  (Text.indent entry.depth).toList ++ '#' :: entry.id.repr.toList ++ ' ' :: entry.kind.chars ++
    " (parent".toList ++ ' ' :: tagged '#' '-' entry.parent ++ [')']

theorem toList_parentText (parent : Option NodeId) :
    (File.parentText parent).toList = tagged '#' '-' parent := by
  cases parent with
  | none => rfl
  | some id =>
    rw [show File.parentText (some id) = "#" ++ id.repr from rfl, String.toList_append]
    rfl

theorem toList_renderNode (id : NodeId) (depth : Nat) (node : Node) :
    (File.renderNode id depth node).toList =
      chars ⟨id, depth, node.kind, node.parent⟩ ++ ['\n'] := by
  have hash : "#".toList = [] ++ '#' :: [] := rfl
  have blank : " ".toList = [] ++ ' ' :: [] := rfl
  have link : " (parent ".toList = " (parent".toList ++ ' ' :: [] := rfl
  have close : ")\n".toList = [')'] ++ ['\n'] := rfl
  have printed : File.renderNode id depth node = Text.indent depth ++ "#" ++ id.repr ++ " " ++
      node.kind.text ++ " (parent " ++ File.parentText node.parent ++ ")\n" := rfl
  rw [printed, String.toList_append, close, Text.toList_between link, Text.toList_between blank,
    Text.toList_between hash, NodeKind.toList_text, toList_parentText, List.append_nil,
    List.append_nil, ← List.append_assoc]
  rfl

theorem toList_indent (depth : Nat) :
    (Text.indent depth).toList = List.replicate (depth * 2) ' ' :=
  String.toList_ofList

theorem not_mem_indent {c : Char} (noBlank : c ≠ ' ') (depth : Nat) :
    c ∉ (Text.indent depth).toList := by
  rw [toList_indent]
  exact fun member => noBlank (List.eq_of_mem_replicate member)

/-- A line can be read back: its blanks end at the first number sign, the number behind that at the
first blank, and the link begins behind the last blank. -/
theorem chars_inj (legible : entry.kind.Legible) (otherLegible : other.kind.Legible)
    (same : entry.chars = other.chars) : entry = other := by
  have noBlank (parent : Option NodeId) : ' ' ∉ tagged '#' '-' parent :=
    not_mem_tagged rfl (by decide) (by decide) parent
  have noHash (depth : Nat) : '#' ∉ (Text.indent depth).toList := not_mem_indent (by decide) depth
  obtain ⟨front, links⟩ := Text.cut_last (noBlank _) (noBlank _) (List.append_cancel_right same)
  have named := List.append_cancel_right front
  rw [List.append_assoc, List.append_assoc, List.cons_append, List.cons_append] at named
  obtain ⟨indents, numbered⟩ := Text.cut_first (noHash _) (noHash _) named
  obtain ⟨numbers, kinds⟩ := Text.cut_first (not_mem_repr rfl _) (not_mem_repr rfl _) numbered
  have depths : entry.depth = other.depth := by
    rw [toList_indent, toList_indent] at indents
    have lengths := congrArg List.length indents
    rw [List.length_replicate, List.length_replicate] at lengths
    exact Nat.eq_of_mul_eq_mul_right (by decide) lengths
  have ids : entry.id = other.id := Nat.repr_injective (String.toList_inj.mp numbers)
  have kinds : entry.kind = other.kind := NodeKind.chars_inj legible otherLegible kinds
  have parents : entry.parent = other.parent := tagged_inj (by decide) links
  obtain ⟨id, depth, kind, parent⟩ := entry
  obtain ⟨otherId, otherDepth, otherKind, otherParent⟩ := other
  cases ids
  cases depths
  cases kinds
  cases parents
  rfl

theorem map_chars_inj {entries others : List Shown}
    (legible : ∀ entry ∈ entries, entry.kind.Legible)
    (otherLegible : ∀ entry ∈ others, entry.kind.Legible)
    (same : entries.map chars = others.map chars) : entries = others := by
  induction entries generalizing others with
  | nil => exact (List.map_eq_nil_iff.mp same.symm).symm
  | cons entry rest ih =>
    obtain ⟨other, others, rfl, here, later⟩ := List.map_eq_cons_iff.mp same.symm
    rw [List.forall_mem_cons] at legible otherLegible
    rw [chars_inj legible.1 otherLegible.1 here.symm, ih legible.2 otherLegible.2 later.symm]

theorem newline_not_mem_chars (legible : entry.kind.Legible) : '\n' ∉ entry.chars := by
  have numbered : '\n' ∉ '#' :: entry.id.repr.toList :=
    List.not_mem_cons_of_ne_of_not_mem (by decide) (not_mem_repr rfl _)
  have named : '\n' ∉ ' ' :: entry.kind.chars :=
    List.not_mem_cons_of_ne_of_not_mem (by decide) (NodeKind.newline_not_mem_chars legible)
  have linked : '\n' ∉ ' ' :: tagged '#' '-' entry.parent :=
    List.not_mem_cons_of_ne_of_not_mem (by decide) (not_mem_tagged rfl (by decide) (by decide) _)
  have indented : '\n' ∉ (Text.indent entry.depth).toList := not_mem_indent (by decide) _
  have front := List.not_mem_append (List.not_mem_append indented numbered) named
  exact List.not_mem_append (List.not_mem_append (List.not_mem_append front (by decide)) linked)
    (by decide)

/-- A line below the root begins with a blank. -/
theorem head?_chars (deep : 0 < entry.depth) : entry.chars.head? = some ' ' := by
  obtain ⟨depth, isSucc⟩ := Nat.exists_eq_succ_of_ne_zero (Nat.ne_of_gt deep)
  rw [chars, toList_indent, isSucc, Nat.succ_mul, List.replicate_succ]
  rfl

end Shown

end StagedLowering
