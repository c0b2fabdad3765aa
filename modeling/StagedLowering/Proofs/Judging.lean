import StagedLowering.Verdict

/-!
# Judging

A verdict comes from two checks that do not know of each other (`mismatches_eq`), turned around if a
failure is expected. Both read the output, and the text it is compared to, with normalized line ends
only, and that is also all that is recorded.
-/

namespace StagedLowering

namespace OutputCheck

/-- Whether an output whose line ends are normalized is as it should be. -/
def holds (output : String) : OutputCheck → Bool
  | any => true
  | exact text => Text.normalize text == output
  | predicate _ test => test output

def recorded (output : String) : OutputCheck → List Mismatch
  | any => []
  | exact text => [.output (Text.normalize text) output]
  | predicate description _ => [.predicate description output]

variable {check : OutputCheck} {output : String}

theorem toList_mismatch? (output : String) (check : OutputCheck) :
    (check.mismatch? output).toList =
      if check.holds output then [] else check.recorded output := by
  cases check with
  | any => rfl
  | exact text =>
    by_cases same : Text.normalize text = output
    · simp [mismatch?, holds, same]
    · simp [mismatch?, holds, recorded, same]
  | predicate description test =>
    by_cases passes : test output
    · simp [mismatch?, holds, passes]
    · simp [mismatch?, holds, recorded, passes]

theorem recorded_ne_nil (fails : check.holds output = false) : check.recorded output ≠ [] := by
  cases check with
  | any => cases fails
  | exact text => exact List.cons_ne_nil _ _
  | predicate description test => exact List.cons_ne_nil _ _

/-- Expected texts with the same normalization are the same expectation. -/
theorem mismatch?_congr {text other : String} (same : Text.normalize other = Text.normalize text) :
    (exact other).mismatch? output = (exact text).mismatch? output := by
  rw [mismatch?, mismatch?, same]

end OutputCheck

namespace Expectation

def turned (expectation : Expectation) : Expectation :=
  { expectation with failing := !expectation.failing }

variable {expectation other : Expectation} {outcome finished : Finished}

theorem mismatches_eq (expectation : Expectation) (outcome : Finished) :
    expectation.mismatches outcome =
      (if outcome.exitStatus = expectation.exitStatus then []
        else [.exitStatus expectation.exitStatus outcome.exitStatus]) ++
      (if expectation.output.holds (Text.normalize outcome.output) then []
        else expectation.output.recorded (Text.normalize outcome.output)) := by
  rw [mismatches, OutputCheck.toList_mismatch?]

/-- There is nothing to report if both checks hold. -/
theorem isEmpty_mismatches (expectation : Expectation) (outcome : Finished) :
    (expectation.mismatches outcome).isEmpty = (outcome.exitStatus == expectation.exitStatus &&
      expectation.output.holds (Text.normalize outcome.output)) := by
  rw [mismatches_eq, Bool.eq_iff_iff, List.isEmpty_iff, List.append_eq_nil_iff, Bool.and_eq_true,
    beq_iff_eq]
  refine and_congr (by simp) ⟨fun nothing => ?_, fun holds => if_pos holds⟩
  split at nothing
  · next holds => exact holds
  · next fails =>
    exact absurd nothing (OutputCheck.recorded_ne_nil (Bool.eq_false_iff.mpr fails))

/-- A verdict is made of whether a failure is expected and of what is wrong. -/
theorem judge_congr (failing : other.failing = expectation.failing)
    (wrong : other.mismatches finished = expectation.mismatches outcome) :
    other.judge finished = expectation.judge outcome := by
  rw [judge, judge, failing, wrong]

theorem isSuccess_judge (expectation : Expectation) (outcome : Finished) :
    (expectation.judge outcome).isSuccess =
      ((expectation.mismatches outcome).isEmpty ^^ expectation.failing) := by
  unfold judge
  cases expectation.failing <;> cases expectation.mismatches outcome <;> rfl

theorem mismatches_judge (expectation : Expectation) (outcome : Finished) :
    (expectation.judge outcome).mismatches = expectation.mismatches outcome := by
  unfold judge
  cases expectation.failing <;> cases expectation.mismatches outcome <;> rfl

/-- The verdict is a success if both checks hold, or if one does not and a failure is expected. It
lists what is wrong with the exit status and then with the output, each if its own check does not
hold, whatever is expected. Texts with the same normalization are one text to it. -/
theorem judge_exact (expectation : Expectation) (outcome : Finished) :
    (expectation.judge outcome).isSuccess =
      ((outcome.exitStatus == expectation.exitStatus &&
        expectation.output.holds (Text.normalize outcome.output)) ^^ expectation.failing) ∧
    (expectation.judge outcome).mismatches =
      (if outcome.exitStatus = expectation.exitStatus then []
        else [.exitStatus expectation.exitStatus outcome.exitStatus]) ++
      (if expectation.output.holds (Text.normalize outcome.output) then []
        else expectation.output.recorded (Text.normalize outcome.output)) ∧
    ((expectation.turned.judge outcome).isSuccess = !(expectation.judge outcome).isSuccess ∧
      (expectation.turned.judge outcome).mismatches =
        (expectation.judge outcome).mismatches) ∧
    (∀ output : String, Text.normalize output = Text.normalize outcome.output →
      expectation.judge { outcome with output } = expectation.judge outcome) ∧
    ∀ text other : String, expectation.output = .exact text →
      Text.normalize other = Text.normalize text →
      { expectation with output := .exact other }.judge outcome = expectation.judge outcome := by
  refine ⟨?_, ?_, ⟨?_, ?_⟩, fun output same => ?_, fun text other exact same => ?_⟩
  · rw [isSuccess_judge, isEmpty_mismatches]
  · rw [mismatches_judge, mismatches_eq]
  · rw [isSuccess_judge, isSuccess_judge, turned, Bool.xor_not]
    rfl
  · rw [mismatches_judge, mismatches_judge]
    rfl
  · refine judge_congr rfl ?_
    rw [mismatches, mismatches, same]
  · refine judge_congr rfl ?_
    rw [mismatches, mismatches, exact, OutputCheck.mismatch?_congr same]

/-- A failure that was expected: neither check holds, and the line ends of neither text matter. -/
theorem judge_exact_failing :
    let expectation : Expectation := ⟨3, true, .exact "a\rb"⟩
    Text.normalize "a\rc" = Text.normalize "a\r\nc" ∧
    expectation.judge ⟨4, "a\rc"⟩ = expectation.judge ⟨4, "a\r\nc"⟩ ∧
    expectation.output = .exact "a\rb" ∧ Text.normalize "a\nb" = Text.normalize "a\rb" ∧
    { expectation with output := .exact "a\nb" }.judge ⟨4, "a\r\nc"⟩ =
      expectation.judge ⟨4, "a\r\nc"⟩ ∧
    expectation.judge ⟨4, "a\r\nc"⟩ =
      .expectedFailure [.exitStatus 3 4, .output "a\nb" "a\nc"] := by
  have same : Text.normalize "a\rc" = Text.normalize "a\r\nc" := by decide
  have sameToo : Text.normalize "a\nb" = Text.normalize "a\rb" := by decide
  have exact := judge_exact ⟨3, true, .exact "a\rb"⟩ ⟨4, "a\r\nc"⟩
  exact ⟨same, exact.2.2.2.1 _ same, rfl, sameToo, exact.2.2.2.2 _ _ rfl sameToo, by decide⟩

end Expectation
end StagedLowering
