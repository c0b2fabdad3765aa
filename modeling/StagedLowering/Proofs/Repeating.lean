import StagedLowering.Proofs.Execution

/-!
# Repeated rounds

What repeating a round up to a bound comes to, for every round and every state (`settle_exact`). It
ends with the first round that leaves nothing pending or stops, or with the last one that the bound
allows, and makes no round after that.
-/

namespace StagedLowering

variable {σ υ : Type}

def State.noteUnsettled (state : State σ υ) (iteration residual : Nat) : State σ υ :=
  { state with trace := state.trace.emit (.unsettled iteration residual) }

/-- The state in which round `done + 1` is made if rounds are made one after the other. -/
def roundStart (round : Run σ υ Failure Progress) (state : State σ υ) : Nat → State σ υ
  | 0 => state
  | done + 1 =>
    match round (roundStart round state done) with
    | (.ok progress, after) => after.noteUnsettled (done + 1) progress.residual
    | (.error _, after) => after

def RoundEnds (round : Run σ υ Failure Progress) (state : State σ υ) (done : Nat)
    (result : Except (Stop Failure) Progress) (last : State σ υ) : Prop :=
  round (roundStart round state done) = (result, last)

def LeavesPending (round : Run σ υ Failure Progress) (state : State σ υ) (done : Nat) : Prop :=
  ∃ progress last, RoundEnds round state done (.ok progress) last ∧ progress.residual ≠ 0

def AllPending (round : Run σ υ Failure Progress) (state : State σ υ) (rounds : Nat) : Prop :=
  ∀ done < rounds, LeavesPending round state done

variable {round other : Run σ υ Failure Progress} {state last : State σ υ}
  {result : Except (Stop Failure) Progress} {progress : Progress} {stop : Stop Failure}
  {bound more done residual left k : Nat}

/-! ### Where the rounds are after some of them -/

theorem RoundEnds.unique {result' : Except (Stop Failure) Progress} {last' : State σ υ}
    (ends : RoundEnds round state done result last)
    (again : RoundEnds round state done result' last') : result = result' ∧ last = last' :=
  Prod.mk.inj (ends.symm.trans again)

theorem roundStart_succ (ends : RoundEnds round state done (.ok progress) last) :
    roundStart round state (done + 1) = last.noteUnsettled (done + 1) progress.residual := by
  rw [roundStart, ends]

theorem AllPending.succ (pending : AllPending round state done)
    (more : LeavesPending round state done) : AllPending round state (done + 1) := by
  intro i before
  rcases Nat.lt_succ_iff_lt_or_eq.mp before with earlier | rfl
  · exact pending i earlier
  · exact more

/-- A round that leaves something pending hands on to the next. -/
theorem settleFrom_of_pending (ends : RoundEnds round state done (.ok progress) last)
    (open_ : progress.residual ≠ 0) :
    settleFrom round done residual (left + 1) (roundStart round state done) =
      settleFrom round (done + 1) progress.residual left (roundStart round state (done + 1)) := by
  rw [settleFrom, Run.bind_of_ok ends, if_neg open_, Run.bind_of_ok (Run.emit_apply _ _),
    roundStart_succ ends]
  rfl

theorem settleFrom_of_settled (ends : RoundEnds round state done (.ok progress) last)
    (none : progress.residual = 0) :
    settleFrom round done residual (left + 1) (roundStart round state done) =
      (.ok (done + 1), last) := by
  rw [settleFrom, Run.bind_of_ok ends, if_pos none]
  rfl

theorem settleFrom_of_stopped (ends : RoundEnds round state done (.error stop) last) :
    settleFrom round done residual (left + 1) (roundStart round state done) =
      (.error stop, last) := by
  rw [settleFrom, Run.bind_of_error ends]

/-- After rounds that all left something pending the loop is at the next round, and knows what the
last one left. -/
theorem settleFrom_of_allPending (pending : AllPending round state done) (left : Nat) :
    ∃ residual, settleFrom round 0 0 (done + left) state =
        settleFrom round done residual left (roundStart round state done) ∧
      ∀ before, done = before + 1 → ∃ progress last,
        RoundEnds round state before (.ok progress) last ∧ residual = progress.residual := by
  induction done generalizing left with
  | zero => exact ⟨0, by rw [Nat.zero_add]; rfl, nofun⟩
  | succ done ih =>
    obtain ⟨residual, reached, -⟩ := ih (fun i before => pending i (Nat.lt_succ_of_lt before)) (left + 1)
    obtain ⟨progress, last, ends, open_⟩ := pending done (Nat.lt_succ_self done)
    refine ⟨progress.residual, ?_, fun before same => ?_⟩
    · rw [Nat.add_right_comm, Nat.add_assoc, reached, settleFrom_of_pending ends open_]
    · cases same
      exact ⟨progress, last, ends, rfl⟩

/-! ### How it ends -/

theorem settle_of_settled (within : done < max bound 1) (pending : AllPending round state done)
    (ends : RoundEnds round state done (.ok progress) last) (none : progress.residual = 0) :
    settle round bound state = (.ok (done + 1), last) := by
  obtain ⟨left, enough⟩ := Nat.exists_eq_add_of_lt within
  obtain ⟨residual, reached, -⟩ := settleFrom_of_allPending pending (left + 1)
  rw [settle, enough, Nat.add_assoc, reached, settleFrom_of_settled ends none]

theorem settle_of_stopped (within : done < max bound 1) (pending : AllPending round state done)
    (ends : RoundEnds round state done (.error stop) last) :
    settle round bound state = (.error stop, last) := by
  obtain ⟨left, enough⟩ := Nat.exists_eq_add_of_lt within
  obtain ⟨residual, reached, -⟩ := settleFrom_of_allPending pending (left + 1)
  rw [settle, enough, Nat.add_assoc, reached, settleFrom_of_stopped ends]

theorem settle_of_allPending (bounded : max bound 1 = done + 1)
    (pending : AllPending round state (done + 1)) :
    ∃ progress last, RoundEnds round state done (.ok progress) last ∧
      settle round bound state =
        (.error (.error (.unsettled (done + 1) progress.residual)),
          last.noteUnsettled (done + 1) progress.residual) := by
  obtain ⟨residual, reached, known⟩ := settleFrom_of_allPending pending 0
  obtain ⟨progress, last, ends, rfl⟩ := known done rfl
  refine ⟨progress, last, ends, ?_⟩
  rw [settle, bounded]
  rw [Nat.add_zero] at reached
  rw [reached, roundStart_succ ends]
  rfl

/-- The rounds come to a first one that leaves nothing pending or stops, or all leave something. -/
theorem rounds_cases (round : Run σ υ Failure Progress) (state : State σ υ) (bound : Nat) :
    (∃ done < bound, AllPending round state done ∧ ∃ progress last,
        RoundEnds round state done (.ok progress) last ∧ progress.residual = 0) ∨
      (∃ done < bound, AllPending round state done ∧ ∃ stop last,
        RoundEnds round state done (.error stop) last) ∨
      AllPending round state bound := by
  induction bound with
  | zero => exact .inr (.inr nofun)
  | succ bound ih =>
    rcases ih with ⟨done, before, settled⟩ | ⟨done, before, stopped⟩ | pending
    · exact .inl ⟨done, Nat.lt_succ_of_lt before, settled⟩
    · exact .inr (.inl ⟨done, Nat.lt_succ_of_lt before, stopped⟩)
    · rcases ends : round (roundStart round state bound) with ⟨stop | progress, last⟩
      · exact .inr (.inl ⟨bound, Nat.lt_succ_self bound, pending, stop, last, ends⟩)
      · by_cases none : progress.residual = 0
        · exact .inl ⟨bound, Nat.lt_succ_self bound, pending, progress, last, ends, none⟩
        · exact .inr (.inr (pending.succ ⟨progress, last, ends, none⟩))

theorem settle_eq_ok_iff :
    settle round bound state = (.ok k, last) ↔
      ∃ done < max bound 1, k = done + 1 ∧ AllPending round state done ∧ ∃ progress,
        RoundEnds round state done (.ok progress) last ∧ progress.residual = 0 := by
  constructor
  · intro settled
    rcases rounds_cases round state (max bound 1) with
      ⟨done, within, pending, progress, after, ends, none⟩ |
        ⟨done, within, pending, stop, after, ends⟩ | pending
    · cases settled.symm.trans (settle_of_settled within pending ends none)
      exact ⟨done, within, rfl, pending, progress, ends, none⟩
    · cases settled.symm.trans (settle_of_stopped within pending ends)
    · obtain ⟨done, bounded⟩ := Nat.exists_eq_succ_of_ne_zero (show max bound 1 ≠ 0 by omega)
      rw [bounded] at pending
      obtain ⟨progress, after, -, failed⟩ := settle_of_allPending bounded pending
      cases settled.symm.trans failed
  · rintro ⟨done, within, rfl, pending, progress, ends, none⟩
    exact settle_of_settled within pending ends none

/-- Rounds that agree wherever a round is made start in the same states. -/
theorem roundStart_congr {made : Nat} (agree : ∀ i < made,
      other (roundStart round state i) = round (roundStart round state i)) (within : done ≤ made) :
    roundStart other state done = roundStart round state done := by
  induction done with
  | zero => rfl
  | succ done ih => rw [roundStart, roundStart, ih (Nat.le_of_succ_le within), agree done within]

theorem roundEnds_congr {made : Nat} (agree : ∀ i < made,
      other (roundStart round state i) = round (roundStart round state i)) (within : done < made) :
    RoundEnds other state done result last ↔ RoundEnds round state done result last := by
  rw [RoundEnds, RoundEnds, roundStart_congr agree (Nat.le_of_lt within), agree done within]

theorem allPending_congr {made : Nat} (agree : ∀ i < made,
      other (roundStart round state i) = round (roundStart round state i)) (within : done ≤ made)
    (pending : AllPending round state done) : AllPending other state done := by
  intro i before
  obtain ⟨progress, last, ends, open_⟩ := pending i before
  exact ⟨progress, last, (roundEnds_congr agree (Nat.lt_of_lt_of_le before within)).mpr ends, open_⟩

/-- A round is made while those before left something pending and the bound allows it. What rounds
would do that are not made has no part in the result. -/
theorem settle_congr
    (agree : ∀ i < max bound 1, AllPending round state i →
      other (roundStart round state i) = round (roundStart round state i)) :
    settle other bound state = settle round bound state := by
  -- The rounds that are made: those up to the one that ends it.
  have upTo : ∀ {done}, done < max bound 1 → AllPending round state done → ∀ i < done + 1,
      other (roundStart round state i) = round (roundStart round state i) := by
    intro done within pending i before
    exact agree i (by omega) fun j earlier => pending j (by omega)
  rcases rounds_cases round state (max bound 1) with
    ⟨done, within, pending, progress, last, ends, none⟩ |
      ⟨done, within, pending, stop, last, ends⟩ | pending
  · have same := upTo within pending
    rw [settle_of_settled within pending ends none]
    exact settle_of_settled within (allPending_congr same (Nat.le_succ done) pending)
      ((roundEnds_congr same (Nat.lt_succ_self done)).mpr ends) none
  · have same := upTo within pending
    rw [settle_of_stopped within pending ends]
    exact settle_of_stopped within (allPending_congr same (Nat.le_succ done) pending)
      ((roundEnds_congr same (Nat.lt_succ_self done)).mpr ends)
  · obtain ⟨done, bounded⟩ := Nat.exists_eq_succ_of_ne_zero (show max bound 1 ≠ 0 by omega)
    rw [bounded] at pending
    have same := upTo (bounded ▸ Nat.lt_succ_self done) fun i before => pending i (by omega)
    obtain ⟨progress, last, ends, failed⟩ := settle_of_allPending bounded pending
    obtain ⟨progress', last', ends', failed'⟩ :=
      settle_of_allPending bounded (allPending_congr same (Nat.le_refl _) pending)
    obtain ⟨result, rfl⟩ := ((roundEnds_congr same (Nat.lt_succ_self done)).mp ends').unique ends
    cases result
    rw [failed, failed']

/-- What repeating a round comes to: how it ends, that a higher bound changes nothing where the rounds
did not go on to the bound, and that no more rounds are made than it takes. -/
structure SettlesExactly (round : Run σ υ Failure Progress) (state : State σ υ) (bound : Nat) :
    Prop where
  settled : ∀ k last, settle round bound state = (.ok k, last) ↔
    ∃ done < max bound 1, k = done + 1 ∧ AllPending round state done ∧ ∃ progress,
      RoundEnds round state done (.ok progress) last ∧ progress.residual = 0
  stopped : ∀ done < max bound 1, AllPending round state done → ∀ stop last,
    RoundEnds round state done (.error stop) last → settle round bound state = (.error stop, last)
  unsettled : AllPending round state (max bound 1) → ∃ progress last,
    RoundEnds round state (max bound 1 - 1) (.ok progress) last ∧
      settle round bound state =
        (.error (.error (.unsettled (max bound 1) progress.residual)),
          last.noteUnsettled (max bound 1) progress.residual)
  exhausted : (∃ k last, settle round bound state = (.ok k, last)) ∨
    (∃ done < max bound 1, AllPending round state done ∧
      ∃ stop last, RoundEnds round state done (.error stop) last) ∨
    AllPending round state (max bound 1)
  lasting : ∀ more, bound ≤ more →
    (∀ k last, settle round bound state = (.ok k, last) →
      settle round more state = (.ok k, last)) ∧
    ∀ done < max bound 1, AllPending round state done → ∀ stop last,
      RoundEnds round state done (.error stop) last →
        settle round more state = settle round bound state
  made : ∀ other : Run σ υ Failure Progress,
    (∀ done < max bound 1, AllPending round state done →
      other (roundStart round state done) = round (roundStart round state done)) →
    settle other bound state = settle round bound state

theorem settlesExactly (round : Run σ υ Failure Progress) (state : State σ υ) (bound : Nat) :
    SettlesExactly round state bound where
  settled _ _ := settle_eq_ok_iff
  stopped _ within pending _ _ ends := settle_of_stopped within pending ends
  unsettled pending := by
    obtain ⟨done, bounded⟩ := Nat.exists_eq_succ_of_ne_zero (show max bound 1 ≠ 0 by omega)
    rw [bounded] at pending ⊢
    exact settle_of_allPending bounded pending
  exhausted := by
    rcases rounds_cases round state (max bound 1) with
      ⟨done, within, pending, progress, last, ends, none⟩ | rest
    · exact .inl ⟨done + 1, last, settle_of_settled within pending ends none⟩
    · exact .inr rest
  lasting more higher := by
    have further : ∀ {done}, done < max bound 1 → done < max more 1 := by omega
    refine ⟨fun k last settled => ?_, fun done within pending stop last ends => ?_⟩
    · obtain ⟨done, within, rest⟩ := settle_eq_ok_iff.mp settled
      exact settle_eq_ok_iff.mpr ⟨done, further within, rest⟩
    · rw [settle_of_stopped within pending ends, settle_of_stopped (further within) pending ends]
  made _ agree := settle_congr agree

theorem Fixpoint.run_apply (fixpoint : Fixpoint σ υ) (config : Config) (state : State σ υ) :
    fixpoint.run config state =
      match settle (fixpoint.round config) (fixpoint.bound.getD config.maxIterations) state with
      | (.ok k, last) => (.ok (), { last with
          trace := last.trace.emit (.settled k)
          context := fixpoint.statistic.elim last.context (last.context.bump · k) })
      | (.error stop, last) => (.error stop, last) := by
  rw [Fixpoint.run, Run.bind_apply]
  rcases settle (fixpoint.round config) (fixpoint.bound.getD config.maxIterations) state with
    ⟨stop | k, last⟩
  · rfl
  · dsimp only
    rw [Run.bind_of_ok (Run.emit_apply _ _)]
    cases fixpoint.statistic with
    | none => rfl
    | some name => rfl

/-- Repeating a round ends with the first round that leaves nothing pending or stops, and otherwise at
the bound. A phase repeats its round up to its own bound, or else the configured one, and counts the
rounds only if they settled. -/
theorem settle_exact (round : Run σ υ Failure Progress) (state : State σ υ) (bound : Nat) :
    SettlesExactly round state bound ∧
      ∀ (fixpoint : Fixpoint σ υ) (config : Config),
        fixpoint.run config state =
          match settle (fixpoint.round config) (fixpoint.bound.getD config.maxIterations) state with
          | (.ok k, last) => (.ok (), { last with
              trace := last.trace.emit (.settled k)
              context := fixpoint.statistic.elim last.context (last.context.bump · k) })
          | (.error stop, last) => (.error stop, last) :=
  ⟨settlesExactly round state bound, fun fixpoint config => fixpoint.run_apply config state⟩

def countdown : Run Nat Unit Failure Progress := fun state =>
  (.ok (.pending (state.outer - 1)), { state with outer := state.outer - 1 })

/-- From 3 it takes three rounds. A bound of two leaves one pending, and a phase with a bound of its
own goes by that and counts three. -/
theorem settle_exact_countdown :
    let state : State Nat Unit := ⟨3, {}, {}, ()⟩
    let phase : Fixpoint Nat Unit :=
      { round := fun _ => countdown, bound := some 3, statistic := some "rounds" }
    (∃ last, settle countdown 7 state = (.ok 3, last) ∧ last.outer = 0) ∧
      (∃ last, settle countdown 2 state = (.error (.error (.unsettled 2 1)), last)) ∧
      ∃ last, phase.run { maxIterations := 1 } state = (.ok (), last) ∧
        last.context.statistic "rounds" = 3 := by
  intro state phase
  have pending : AllPending countdown state 2 := by
    intro done before
    match done with
    | 0 => exact ⟨_, _, rfl, by decide⟩
    | 1 => exact ⟨_, _, rfl, by decide⟩
  let third := (countdown (roundStart countdown state 2)).2
  have settled : ∀ bound, 2 < bound → settle countdown bound state = (.ok 3, third) := by
    intro bound enough
    exact ((settle_exact countdown state bound).1.settled 3 third).mpr
      ⟨2, by omega, rfl, pending, .pending 0, rfl, rfl⟩
  refine ⟨⟨third, settled 7 (by decide), rfl⟩, ?_, ?_⟩
  · obtain ⟨progress, last, ends, failed⟩ := (settle_exact countdown state 2).1.unsettled pending
    cases ends
    exact ⟨_, failed⟩
  · have ran := (settle_exact countdown state 3).2 phase { maxIterations := 1 }
    have own : settle (phase.round { maxIterations := 1 }) (phase.bound.getD 1) state = (.ok 3, third) :=
      settled 3 (by decide)
    rw [own] at ran
    exact ⟨_, ran, rfl⟩

end StagedLowering
