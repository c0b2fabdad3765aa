import Mathlib.Data.List.Nodup
import Mathlib.Data.Nat.Find
import StagedLowering.Phase.Order

/-!
# What is wrong with an order

`checkOrder` accepts a sequence of phases if the ids are distinct and each prerequisite has its place
before the phase that requires it. Otherwise it reports the first position where that fails, and of
that position a repeated id before a prerequisite, and the first such prerequisite before others
(`checkOrder_exact`).
-/

namespace StagedLowering

def IdAt (phases : List (PhaseId × List PhaseId)) (i : Nat) (id : PhaseId) : Prop :=
  (phases.map (·.1))[i]? = some id

def OccursBefore (phases : List (PhaseId × List PhaseId)) (i : Nat) (id : PhaseId) : Prop :=
  ∃ j < i, IdAt phases j id

/-- The phase at this position has the id of an earlier one, or a prerequisite that no earlier one
has for its id. -/
def Violates (phases : List (PhaseId × List PhaseId)) (i : Nat) : Prop :=
  ∃ id prerequisites, phases[i]? = some (id, prerequisites) ∧
    (OccursBefore phases i id ∨ ∃ prerequisite ∈ prerequisites, ¬OccursBefore phases i prerequisite)

structure FirstViolation (phases : List (PhaseId × List PhaseId)) (i : Nat) : Prop where
  here : Violates phases i
  none_before : ∀ j < i, ¬Violates phases j

structure FirstOccurs (phases : List (PhaseId × List PhaseId)) (k : Nat) (id : PhaseId) : Prop where
  here : IdAt phases k id
  none_before : ¬OccursBefore phases k id

variable {phases rest : List (PhaseId × List PhaseId)} {all before : List PhaseId} {id : PhaseId}
  {prerequisites : List PhaseId} {i : Nat}

/-! ### Ids and positions -/

theorem occursBefore_iff : OccursBefore phases i id ↔ id ∈ (phases.take i).map (·.1) := by
  unfold OccursBefore IdAt
  rw [List.map_take, List.mem_iff_getElem?]
  constructor
  · rintro ⟨j, early, at_⟩
    exact ⟨j, by rw [List.getElem?_take_of_lt early, at_]⟩
  · rintro ⟨j, at_⟩
    obtain ⟨within, -⟩ := List.getElem?_eq_some_iff.mp at_
    have early : j < i := by
      rw [List.length_take] at within
      omega
    exact ⟨j, early, by rwa [List.getElem?_take_of_lt early] at at_⟩

theorem exists_firstOccurs (member : id ∈ phases.map (·.1)) : ∃ k, FirstOccurs phases k id := by
  classical
  have occurs : ∃ k, IdAt phases k id := List.mem_iff_getElem?.mp member
  refine ⟨Nat.find occurs, Nat.find_spec occurs, ?_⟩
  rintro ⟨j, early, at_⟩
  exact Nat.find_min occurs early at_

/-- An id that is not before a position is nowhere, or occurs first at that position or later. -/
theorem mem_ids_iff (absent : ¬OccursBefore phases i id) :
    id ∈ phases.map (·.1) ↔ ∃ k, i ≤ k ∧ FirstOccurs phases k id := by
  constructor
  · intro member
    obtain ⟨k, first⟩ := exists_firstOccurs member
    exact ⟨k, Nat.not_lt.mp fun early => absent ⟨k, early, first.here⟩, first⟩
  · rintro ⟨k, -, first⟩
    exact List.mem_of_getElem? first.here

theorem nodup_ids_iff :
    (phases.map (·.1)).Nodup ↔ ∀ i id, IdAt phases i id → ¬OccursBefore phases i id := by
  unfold OccursBefore IdAt
  rw [List.nodup_iff_getElem?_ne_getElem?]
  constructor
  · rintro distinct i id at_ ⟨j, early, again⟩
    exact distinct j i early (List.getElem?_eq_some_iff.mp at_).1 (again.trans at_.symm)
  · intro distinct j i early within again
    have at_ : (phases.map (·.1))[i]? = some (phases.map (·.1))[i] :=
      List.getElem?_eq_getElem within
    exact distinct i _ at_ ⟨j, early, again.trans at_⟩

/-! ### The check -/

def placed (before : List PhaseId) (rest : List (PhaseId × List PhaseId)) (i : Nat) :
    List PhaseId :=
  before ++ (rest.take i).map (·.1)

theorem placed_cons (phase : PhaseId × List PhaseId) :
    placed before (phase :: rest) (i + 1) = placed (before ++ [phase.1]) rest i := by
  simp [placed]

theorem mem_placed_iff : id ∈ placed [] phases i ↔ OccursBefore phases i id := by
  rw [occursBefore_iff, placed, List.nil_append]

def Fits (placed : List PhaseId) (phase : PhaseId × List PhaseId) : Prop :=
  phase.1 ∉ placed ∧ ∀ prerequisite ∈ phase.2, prerequisite ∈ placed

inductive Misfit (all placed : List PhaseId) : PhaseId × List PhaseId → OrderError → Prop
  | duplicate {id : PhaseId} {prerequisites : List PhaseId} (repeated : id ∈ placed) :
    Misfit all placed (id, prerequisites) (.duplicate id)
  | lacking {id prerequisite : PhaseId} {earlier later : List PhaseId} (fresh : id ∉ placed)
    (first : ∀ other ∈ earlier, other ∈ placed) (absent : prerequisite ∉ placed) :
    Misfit all placed (id, earlier ++ prerequisite :: later)
      (if prerequisite ∈ all then .misplaced id prerequisite else .missing id prerequisite)

theorem Misfit.not_fits {placed : List PhaseId} {phase : PhaseId × List PhaseId}
    {error : OrderError} (misfit : Misfit all placed phase error) : ¬Fits placed phase := by
  rintro ⟨fresh, earlier⟩
  cases misfit with
  | duplicate repeated => exact fresh repeated
  | lacking _ _ absent => exact absent (earlier _ (List.mem_append_right _ List.mem_cons_self))

theorem checkOrderFrom_cases (all before : List PhaseId) (rest : List (PhaseId × List PhaseId)) :
    (checkOrderFrom all before rest = .ok () ∧
      ∀ i phase, rest[i]? = some phase → Fits (placed before rest i) phase) ∨
    ∃ i phase error, rest[i]? = some phase ∧ checkOrderFrom all before rest = .error error ∧
      Misfit all (placed before rest i) phase error ∧
      ∀ j < i, ∀ other, rest[j]? = some other → Fits (placed before rest j) other := by
  induction rest generalizing before with
  | nil => exact .inl ⟨rfl, by simp⟩
  | cons phase rest ih =>
    obtain ⟨id, prerequisites⟩ := phase
    have here : placed before ((id, prerequisites) :: rest) 0 = before := by simp [placed]
    rw [checkOrderFrom]
    split
    · next repeated =>
      exact .inr ⟨0, _, _, rfl, rfl, here.symm ▸ .duplicate repeated, by simp⟩
    next fresh =>
    split
    · next prerequisite found =>
      obtain ⟨absent, earlier, later, rfl, first⟩ := List.find?_eq_some_iff_append.mp found
      refine .inr ⟨0, _, _, rfl, rfl, here.symm ▸ .lacking fresh ?_ (by simpa using absent),
        by simp⟩
      simpa using first
    next none =>
    have fits : Fits before (id, prerequisites) :=
      ⟨fresh, by simpa using List.find?_eq_none.mp none⟩
    rcases ih (before ++ [id]) with
      ⟨accepted, later⟩ | ⟨i, other, error, at_, rejected, misfit, first⟩
    · refine .inl ⟨accepted, fun i => ?_⟩
      cases i with
      | zero => simpa [here] using fits
      | succ i => simpa [placed_cons] using later i
    · refine .inr ⟨i + 1, other, error, at_, rejected, (placed_cons _).symm ▸ misfit,
        fun j early => ?_⟩
      cases j with
      | zero => simpa [here] using fits
      | succ j => simpa [placed_cons] using first j (Nat.lt_of_succ_lt_succ early)

theorem violates_iff {phase : PhaseId × List PhaseId} (at_ : phases[i]? = some phase) :
    Violates phases i ↔ ¬Fits (placed [] phases i) phase := by
  obtain ⟨id, prerequisites⟩ := phase
  unfold Violates Fits
  simp only [at_, Option.some.injEq, Prod.mk.injEq, mem_placed_iff]
  constructor
  · rintro ⟨_, _, ⟨rfl, rfl⟩, repeated | ⟨prerequisite, member, absent⟩⟩ ⟨fresh, earlier⟩
    · exact fresh repeated
    · exact absent (earlier prerequisite member)
  · intro misfit
    refine ⟨id, prerequisites, ⟨rfl, rfl⟩, Classical.byContradiction fun fine => misfit ?_⟩
    rw [not_or, not_exists] at fine
    refine ⟨fine.1, fun prerequisite member => ?_⟩
    exact Classical.byContradiction fun absent => fine.2 prerequisite ⟨member, absent⟩

/-- What it takes for every phase to fit. -/
theorem forall_fits_iff :
    (∀ i phase, phases[i]? = some phase → Fits (placed [] phases i) phase) ↔
      (phases.map (·.1)).Nodup ∧ ∀ i id prerequisites, phases[i]? = some (id, prerequisites) →
        ∀ prerequisite ∈ prerequisites, OccursBefore phases i prerequisite := by
  rw [nodup_ids_iff]
  unfold Fits
  simp only [mem_placed_iff]
  constructor
  · refine fun fits => ⟨fun i id at_ => ?_, fun i id prerequisites at_ => (fits i _ at_).2⟩
    rw [IdAt, List.getElem?_map, Option.map_eq_some_iff] at at_
    obtain ⟨phase, at_, rfl⟩ := at_
    exact (fits i phase at_).1
  · rintro ⟨distinct, ready⟩ i ⟨id, prerequisites⟩ at_
    refine ⟨distinct i id ?_, ready i id prerequisites at_⟩
    rw [IdAt, List.getElem?_map, at_]
    rfl

/-- An order is accepted if nothing is wrong with it. Otherwise the error is about the first
position that is wrong, and the first of its prerequisites that is. -/
theorem checkOrder_exact (phases : List (PhaseId × List PhaseId)) :
    (checkOrder phases = .ok () ↔
      (phases.map (·.1)).Nodup ∧ ∀ i id prerequisites, phases[i]? = some (id, prerequisites) →
        ∀ prerequisite ∈ prerequisites, OccursBefore phases i prerequisite) ∧
    (checkOrder phases = .ok () ∨ ∃ i id prerequisites,
      FirstViolation phases i ∧ phases[i]? = some (id, prerequisites) ∧
      (OccursBefore phases i id → checkOrder phases = .error (.duplicate id)) ∧
      (¬OccursBefore phases i id → ∃ earlier prerequisite later,
        prerequisites = earlier ++ prerequisite :: later ∧
        (∀ other ∈ earlier, OccursBefore phases i other) ∧ ¬OccursBefore phases i prerequisite ∧
        (checkOrder phases = .error (.missing id prerequisite) ↔
          prerequisite ∉ phases.map (·.1)) ∧
        (checkOrder phases = .error (.misplaced id prerequisite) ↔
          ∃ k, i ≤ k ∧ FirstOccurs phases k prerequisite))) := by
  rw [← forall_fits_iff]
  unfold checkOrder
  rcases checkOrderFrom_cases (phases.map (·.1)) [] phases with
    ⟨accepted, fits⟩ | ⟨i, ⟨id, prerequisites⟩, error, at_, rejected, misfit, first⟩
  · exact ⟨⟨fun _ => fits, fun _ => accepted⟩, .inl accepted⟩
  · rw [rejected]
    have violation : FirstViolation phases i := by
      refine ⟨(violates_iff at_).mpr misfit.not_fits, fun j early wrong => ?_⟩
      have ⟨_, _, other, _⟩ := wrong
      exact (violates_iff other).mp wrong (first j early _ other)
    refine ⟨⟨nofun, fun fits => absurd (fits i _ at_) misfit.not_fits⟩,
      .inr ⟨i, id, prerequisites, violation, at_, ?_⟩⟩
    cases misfit with
    | duplicate repeated =>
      exact ⟨fun _ => rfl, fun fresh => absurd (mem_placed_iff.mp repeated) fresh⟩
    | @lacking _ prerequisite earlier later fresh ready absent =>
      rw [mem_placed_iff] at fresh absent
      refine ⟨fun repeated => absurd repeated fresh, fun _ => ⟨earlier, prerequisite, later, rfl,
        fun other member => mem_placed_iff.mp (ready other member), absent, ?_⟩⟩
      rw [← mem_ids_iff absent]
      by_cases known : prerequisite ∈ phases.map (·.1)
      · simp [known]
      · simp [known]

/-- A prerequisite that comes later is reported before one that is missing if it is named first. -/
example : checkOrder [("a", []), ("b", ["a", "c", "z"]), ("c", []), ("a", [])] =
    .error (.misplaced "b" "c") := by
  decide

end StagedLowering
