import Mathlib.Data.List.Basic
import StagedLowering.Text.Newlines

/-!
# Normalized line ends

`normalize` replaces every carriage return with a line feed behind it, and then every other carriage
return, by a line feed (`normalizeChars_eq`). A text can be normalized in two parts unless the cut
goes through such a pair: then the parts have one line feed more (`normalizeChars_append`).
-/

namespace StagedLowering.Text

/-- Every occurrence of a text that is not empty becomes another, from the left on; what takes its
place is not looked at again. -/
def replaceAll (old new : List Char) : List Char → List Char
  | [] => []
  | c :: rest =>
    if old ≠ [] ∧ old <+: c :: rest then new ++ replaceAll old new (rest.drop (old.length - 1))
    else c :: replaceAll old new rest
termination_by text => text.length
decreasing_by
  · rw [List.length_drop, List.length_cons]
    omega
  · exact Nat.lt_succ_self _

/-- The cut between two texts goes through a carriage return and its line feed. -/
def Severs (front back : List Char) : Prop :=
  front.getLast? = some '\r' ∧ back.head? = some '\n'

instance (front back : List Char) : Decidable (Severs front back) := instDecidableAnd

variable {chars front back : List Char}

/-! ### What becomes of a text -/

theorem return_not_mem_normalizeChars (chars : List Char) : '\r' ∉ normalizeChars chars := by
  fun_induction normalizeChars chars with
  | case1 => exact List.not_mem_nil
  | case2 rest ih => exact List.not_mem_cons_of_ne_of_not_mem (by decide) ih
  | case3 c rest _ ih =>
    refine List.not_mem_cons_of_ne_of_not_mem ?_ ih
    split
    · decide
    · next other => exact Ne.symm other

theorem normalizeChars_of_not_mem (plain : '\r' ∉ chars) : normalizeChars chars = chars := by
  fun_induction normalizeChars chars with
  | case1 => rfl
  | case2 rest _ => exact absurd List.mem_cons_self plain
  | case3 c rest _ ih =>
    rw [List.mem_cons, not_or] at plain
    rw [if_neg (Ne.symm plain.1), ih plain.2]

theorem replaceAll_return (chars : List Char) :
    replaceAll ['\r'] ['\n'] chars = chars.map fun c => if c = '\r' then '\n' else c := by
  induction chars with
  | nil => rw [replaceAll]; rfl
  | cons c rest ih =>
    rw [replaceAll]
    by_cases isReturn : c = '\r'
    · simp [isReturn, ih]
    · simp [isReturn, Ne.symm isReturn, ih]

theorem normalizeChars_eq (chars : List Char) : normalizeChars chars =
    replaceAll ['\r'] ['\n'] (replaceAll ['\r', '\n'] ['\n'] chars) := by
  rw [replaceAll_return]
  fun_induction normalizeChars chars with
  | case1 => rw [replaceAll]; rfl
  | case2 rest ih =>
    rw [replaceAll, if_pos ⟨by decide, rest, rfl⟩, ih]
    rfl
  | case3 c rest unpaired ih =>
    have other : ¬(['\r', '\n'] ≠ [] ∧ ['\r', '\n'] <+: c :: rest) := by
      rintro ⟨-, more, same⟩
      obtain ⟨rfl, rfl⟩ := List.cons.inj same
      exact unpaired more rfl rfl
    rw [replaceAll, if_neg other, ih, List.map_cons]

/-! ### Texts in two parts -/

theorem normalizeChars_feed (rest : List Char) :
    normalizeChars ('\n' :: rest) = '\n' :: normalizeChars rest := by
  rw [normalizeChars, if_neg (by decide)]
  exact fun _ isReturn => absurd isReturn (by decide)

/-- The law for a cut behind the first character, which the general one comes down to. -/
theorem normalizeChars_cons (c : Char) (rest : List Char) : normalizeChars (c :: rest) =
    (if c = '\r' then '\n' else c) ::
      (normalizeChars rest).drop (if Severs [c] rest then 1 else 0) := by
  by_cases severs : Severs [c] rest
  · have isReturn : c = '\r' := Option.some.inj severs.1
    obtain ⟨behind, rfl⟩ := List.head?_eq_some_iff.mp severs.2
    rw [if_pos severs, isReturn, normalizeChars, normalizeChars_feed, if_pos rfl, List.drop_one,
      List.tail_cons]
  · rw [normalizeChars, if_neg severs, List.drop_zero]
    rintro behind rfl rfl
    exact severs ⟨rfl, rfl⟩

theorem severs_cons (c next : Char) (rest : List Char) :
    Severs (c :: next :: rest) back ↔ Severs (next :: rest) back := by
  rw [Severs, Severs, List.getLast?_cons_cons]

/-- Two parts of a text can be normalized apart, but for a line feed if the cut goes through a line
end. -/
theorem normalizeChars_append (front back : List Char) : normalizeChars (front ++ back) =
    normalizeChars front ++ (normalizeChars back).drop (if Severs front back then 1 else 0) := by
  induction front with
  | nil => rfl
  | cons c front ih =>
    rw [List.cons_append, normalizeChars_cons, normalizeChars_cons c front, List.cons_append]
    cases front with
    | nil => simp [normalizeChars]
    | cons next front =>
      have same : Severs [c] (next :: front ++ back) ↔ Severs [c] (next :: front) := Iff.rfl
      have room : (if Severs [c] (next :: front) then 1 else 0) ≤
          (normalizeChars (next :: front)).length := by
        rw [normalizeChars_cons, List.length_cons]
        split <;> omega
      simp only [ih, same, severs_cons, List.drop_append_of_le_length room]

/-! ### Texts -/

theorem toList_normalize (text : String) : (normalize text).toList = normalizeChars text.toList :=
  String.toList_ofList

theorem return_not_mem_normalize (text : String) : '\r' ∉ (normalize text).toList :=
  toList_normalize text ▸ return_not_mem_normalizeChars text.toList

theorem normalize_eq_self_iff {text : String} : normalize text = text ↔ '\r' ∉ text.toList := by
  constructor
  · exact fun same => same ▸ return_not_mem_normalize text
  · intro plain
    rw [← String.toList_inj, toList_normalize, normalizeChars_of_not_mem plain]

theorem normalize_append (front back : String) : (normalize (front ++ back)).toList =
    (normalize front).toList ++
      (normalize back).toList.drop (if Severs front.toList back.toList then 1 else 0) := by
  rw [toList_normalize, String.toList_append, normalizeChars_append, toList_normalize,
    toList_normalize]

/-- The parts of a severed line end have a line feed each. -/
theorem count_normalize_append (front back : String) :
    (normalize front ++ normalize back).toList.count '\n' =
      (normalize (front ++ back)).toList.count '\n' +
        if Severs front.toList back.toList then 1 else 0 := by
  rw [normalize_append, String.toList_append, List.count_append, List.count_append]
  split
  · next severs =>
    obtain ⟨rest, feed⟩ := List.head?_eq_some_iff.mp severs.2
    rw [toList_normalize back, feed, normalizeChars_feed, List.drop_one, List.tail_cons,
      List.count_cons_self, Nat.add_assoc]
  · rfl

theorem normalize_append_iff {front back : String} :
    normalize (front ++ back) = normalize front ++ normalize back ↔
      ¬Severs front.toList back.toList := by
  constructor
  · intro same severs
    have count := count_normalize_append front back
    rw [same, if_pos severs] at count
    exact absurd count (Nat.ne_of_lt (Nat.lt_succ_self _))
  · intro whole
    rw [← String.toList_inj, normalize_append, if_neg whole, List.drop_zero, String.toList_append]

/-- No carriage return is left: each becomes a line feed, together with a line feed behind it. A
text without any stays as it is, so a second time changes nothing. Two texts can be normalized apart
if the cut between them does not go through a line end, and only then: otherwise they have one line
feed more. -/
theorem normalize_exact :
    (∀ text : String, '\r' ∉ (normalize text).toList ∧
      (normalize text).toList =
        replaceAll ['\r'] ['\n'] (replaceAll ['\r', '\n'] ['\n'] text.toList) ∧
      (normalize text = text ↔ '\r' ∉ text.toList) ∧
      normalize (normalize text) = normalize text) ∧
    ∀ front back : String,
      (normalize (front ++ back) = normalize front ++ normalize back ↔
        ¬Severs front.toList back.toList) ∧
      (normalize (front ++ back)).toList = (normalize front).toList ++
        (normalize back).toList.drop (if Severs front.toList back.toList then 1 else 0) ∧
      (normalize front ++ normalize back).toList.count '\n' =
        (normalize (front ++ back)).toList.count '\n' +
          if Severs front.toList back.toList then 1 else 0 := by
  refine ⟨fun text => ⟨return_not_mem_normalize text, ?_, normalize_eq_self_iff, ?_⟩,
    fun front back => ⟨normalize_append_iff, normalize_append front back,
      count_normalize_append front back⟩⟩
  · rw [toList_normalize, normalizeChars_eq]
  · exact normalize_eq_self_iff.mpr (return_not_mem_normalize text)

/-- Of two carriage returns the second takes the line feed behind it. -/
example : normalize "a\r\r\n" = "a\n\n" ∧ normalize "a\r\r" ++ normalize "\nb" = "a\n\n\nb" ∧
    normalize "a\r\r\nb" = "a\n\nb" := by
  decide

end StagedLowering.Text
