import StagedLowering.Proofs.Echoes
import StagedLowering.Proofs.Resolution

/-!
# Resolving aliases again

In a module that a resolution of aliases left behind, and that has kept its aliases since, another
resolution finds the same functions at the same turns and writes what is there already
(`aliasResolution_repeats`). It follows the first one write by write (`Module.Retraces`).
-/

namespace StagedLowering

theorem NodeKind.isSynonym_unbound (kind : NodeKind) : kind.unbound.isSynonym = kind.isSynonym := by
  cases kind <;> rfl

namespace Module

variable {last m again resolved : Module} {place : Location} {function : SymbolId}

theorem resolveAt_of_plain {kind : NodeKind}
    (found : m.kindAt? (place.file, place.node) = some kind) (plain : kind.isSynonym = false) :
    m.resolveAt place function = some m := by
  obtain ⟨file, fileFound, kindFound⟩ := Option.bind_eq_some_iff.mp found
  unfold resolveAt
  rw [fileFound]
  dsimp only at kindFound
  cases kind <;> simp_all [NodeKind.isSynonym]

/-- Only an alias is written to, but whatever is written to must be there. -/
theorem exists_kind_of_resolveAt (done : m.resolveAt place function = some resolved) :
    ∃ kind, m.kindAt? (place.file, place.node) = some kind := by
  unfold resolveAt at done
  obtain ⟨file, found, done⟩ := Option.bind_eq_some_iff.mp done
  obtain ⟨kind, kindFound, -⟩ := Option.bind_eq_some_iff.mp done
  exact ⟨kind, by rw [kindAt?, found]; exact kindFound⟩

namespace Rebound

variable {may : NodeKind → Bool}

theorem unbound (rebound : m.Rebound may again) (spot : FileId × NodeId) :
    (again.kindAt? spot).map NodeKind.unbound = (m.kindAt? spot).map NodeKind.unbound := by
  unfold kindAt?
  rcases FileByFile.at rebound spot.1 with ⟨none, noneAgain⟩ | ⟨file, other, found, foundAgain, here⟩
  · rw [none, noneAgain]
  · rw [found, foundAgain]
    exact here.unbound spot.2

theorem others (rebound : m.Rebound may again) {spot : FileId × NodeId} {kind : NodeKind}
    (found : m.kindAt? spot = some kind) (fixed : may kind = false) :
    again.kindAt? spot = some kind := by
  unfold kindAt? at found ⊢
  rcases FileByFile.at rebound spot.1 with ⟨none, -⟩ | ⟨file, other, entry, entryAgain, here⟩
  · rw [none] at found
    cases found
  · rw [entry] at found
    rw [entryAgain]
    exact here.others spot.2 kind found fixed

/-- A module in which nothing was bound anew is the same. -/
theorem eq_of_kinds (rebound : m.Rebound may again)
    (kinds : ∀ spot, again.kindAt? spot = m.kindAt? spot) : again = m := by
  have files : again.files = m.files := by
    refine List.ext_getElem? fun i => ?_
    rcases FileByFile.at rebound i with ⟨none, noneAgain⟩ | ⟨file, other, found, foundAgain, here⟩
    · rw [none, noneAgain]
    · have kind : ∀ id, other.kind? id = file.kind? id := by
        intro id
        have same := kinds (i, id)
        unfold kindAt? at same
        rwa [found, foundAgain] at same
      rw [found, foundAgain, File.ext_of_views here.address kind here.children here.parent?]
  obtain ⟨name, -⟩ := rebound
  cases m
  cases again
  cases name
  cases files
  rfl

end Rebound

/-- Resolution over `last` has come to `again` while another one has come to `m`: what each has
written to is alike, and the rest is as it was in `last`. -/
structure Retraces (last m again : Module) : Prop where
  placed : ∀ spot kind, m.kindAt? spot = some kind →
    (again.kindAt? spot).map NodeKind.unbound = some kind.unbound
  rebound : last.Rebound NodeKind.isSynonym again
  either : ∀ spot, again.kindAt? spot = last.kindAt? spot ∨ again.kindAt? spot = m.kindAt? spot

namespace Retraces

theorem resolveAt (retraces : last.Retraces m again)
    (done : m.resolveAt place function = some resolved) :
    ∃ other, again.resolveAt place function = some other ∧ last.Retraces resolved other := by
  obtain ⟨kind, found⟩ := exists_kind_of_resolveAt done
  obtain ⟨kind', found', unbound⟩ := Option.map_eq_some_iff.mp (retraces.placed _ kind found)
  cases plain : kind.isSynonym with
  | false =>
    cases done.symm.trans (resolveAt_of_plain found plain)
    rw [← NodeKind.isSynonym_unbound, ← unbound, NodeKind.isSynonym_unbound] at plain
    exact ⟨again, resolveAt_of_plain found' plain, retraces⟩
  | true =>
    cases kind with
    | synonym name target old =>
      obtain ⟨old', rfl⟩ := NodeKind.unbound_eq_synonym unbound
      obtain ⟨written, done', kinds⟩ := resolveAt_spec found function
      cases done.symm.trans done'
      obtain ⟨other, otherDone, otherKinds⟩ := resolveAt_spec found' function
      refine ⟨other, otherDone, fun spot kind present => ?_,
        (carried_rebound _).trans retraces.rebound (rebound_resolveAt otherDone), fun spot => ?_⟩
      · rw [kinds] at present
        rw [otherKinds]
        by_cases here : spot = (place.file, place.node)
        · rw [if_pos here] at present ⊢
          cases present
          rfl
        · rw [if_neg here] at present ⊢
          exact retraces.placed spot kind present
      · rw [kinds, otherKinds]
        split
        · exact .inr rfl
        · exact retraces.either spot
    | _ => cases plain

/-- Once every alias of `m` is as in `last`, resolution over `last` has changed nothing. -/
theorem eq_last (retraces : last.Retraces m again)
    (kept : ∀ spot name target old, m.kindAt? spot = some (.synonym name target old) →
      last.kindAt? spot = m.kindAt? spot) : again = last := by
  refine retraces.rebound.eq_of_kinds fun spot => ?_
  rcases retraces.either spot with kind | kind
  · exact kind
  · rw [kind]
    cases found : m.kindAt? spot with
    | none =>
      have same := retraces.rebound.unbound spot
      rw [kind, found, Option.map_none, eq_comm, Option.map_eq_none_iff] at same
      exact same.symm
    | some kind' =>
      cases synonym : kind'.isSynonym with
      | false =>
        -- Elsewhere resolution writes nothing, so the node is still as it was in `last`.
        have same := retraces.rebound.unbound spot
        rw [kind, found, Option.map_some, eq_comm, Option.map_eq_some_iff] at same
        obtain ⟨old, present, unbound⟩ := same
        rw [← NodeKind.isSynonym_unbound, ← unbound, NodeKind.isSynonym_unbound] at synonym
        rw [← found, ← kind, retraces.rebound.others present synonym, present]
      | true =>
        cases kind' with
        | synonym name target old => rw [kept spot name target old found, found]
        | _ => cases synonym

variable {symbols changed : SymbolTable} {id : SymbolId}

theorem resolveAlias_none (again : Module)
    (done : resolveAlias symbols m id = .ok none) : resolveAlias symbols again id = .ok none := by
  unfold resolveAlias at done ⊢
  split at done
  · split at done
    · cases done
    · split at done
      · rfl
      · split at done
        · cases done
        · cases done
  · cases done

theorem resolveAlias_some (retraces : last.Retraces m again)
    (done : resolveAlias symbols m id = .ok (some (changed, resolved))) :
    ∃ other, resolveAlias symbols again id = .ok (some (changed, other)) ∧
      last.Retraces resolved other := by
  unfold resolveAlias at done ⊢
  split at done
  · split at done
    · cases done
    · split at done
      · cases done
      · split at done
        · cases done
        · next written =>
          cases done
          obtain ⟨other, otherWritten, onward⟩ := retraces.resolveAt written
          rw [otherWritten]
          exact ⟨other, rfl, onward⟩
  · cases done
    exact ⟨again, rfl, retraces⟩

theorem resolveAliases (retraces : last.Retraces m again) {residual left : Nat}
    {ids : List SymbolId}
    (done : resolveAliases symbols m residual ids = (changed, resolved, .ok left)) :
    ∃ other, StagedLowering.resolveAliases symbols again residual ids =
      (changed, other, .ok left) ∧ last.Retraces resolved other := by
  induction ids generalizing symbols m again residual with
  | nil =>
    cases done
    exact ⟨again, rfl, retraces⟩
  | cons id rest ih =>
    rw [StagedLowering.resolveAliases] at done ⊢
    split at done
    · cases done
    · next pending =>
      rw [resolveAlias_none again pending]
      exact ih retraces done
    · next taken =>
      obtain ⟨other, otherTaken, onward⟩ := retraces.resolveAlias_some taken
      rw [otherTaken]
      exact ih onward done

end Retraces
end Module

/-! ### The phase -/

variable {σ : Type} {config : Config} {original : Module} {s after t : State σ Module}

theorem resolveRound_again {progress : Progress} (retraces : original.Retraces s.unit t.unit)
    (echoes : s.context.Echoes t.context) (ran : resolveRound s = (.ok progress, after)) :
    ∃ last, resolveRound t = (.ok progress, last) ∧
      original.Retraces after.unit last.unit ∧ after.context.Echoes last.context := by
  rw [resolveRound_apply] at ran
  rw [resolveRound_apply, echoes.symbols]
  rcases done : resolveAliases s.context.symbols s.unit 0 s.context.symbols.pending with
    ⟨symbols, m, stop | left⟩
  · rw [done] at ran
    cases ran
  · rw [done] at ran
    cases ran
    obtain ⟨other, otherDone, onward⟩ := retraces.resolveAliases done
    rw [otherDone]
    exact ⟨_, rfl, onward, rfl, echoes.history, echoes.cancelled, echoes.executed, echoes.depth,
      echoes.unchanging⟩

theorem settleFrom_again {done residual left rounds : Nat}
    (retraces : original.Retraces s.unit t.unit) (echoes : s.context.Echoes t.context)
    (ran : settleFrom resolveRound done residual left s = (.ok rounds, after)) :
    ∃ last, settleFrom resolveRound done residual left t = (.ok rounds, last) ∧
      original.Retraces after.unit last.unit ∧ after.context.Echoes last.context := by
  induction left generalizing done residual s t with
  | zero => cases ran
  | succ left ih =>
    rw [settleFrom] at ran ⊢
    obtain ⟨progress, middle, round, ran⟩ := Run.bind_ok ran
    obtain ⟨other, otherRound, onward, along⟩ := resolveRound_again retraces echoes round
    rw [Run.bind_of_ok otherRound]
    split at ran
    · next settled =>
      cases ran
      rw [if_pos settled]
      exact ⟨other, rfl, onward, along⟩
    · next unsettled =>
      rw [Run.bind_of_ok (Run.emit_apply _ _)] at ran
      rw [if_neg unsettled, Run.bind_of_ok (Run.emit_apply _ _)]
      refine ih ?_ ?_ ran
      · exact onward
      · exact along

/-- Aliases that were resolved, and are as resolution left them, are resolved again. -/
theorem aliasResolution_repeats (ran : aliasResolution.run config s = (.ok (), after))
    (placed : ∀ spot kind, s.unit.kindAt? spot = some kind →
      (t.unit.kindAt? spot).map NodeKind.unbound = some kind.unbound)
    (kept : ∀ spot name target old, after.unit.kindAt? spot = some (.synonym name target old) →
      t.unit.kindAt? spot = after.unit.kindAt? spot)
    (echoes : s.context.Echoes t.context) :
    (aliasResolution.run config).Repeats t after.context := by
  have start : t.unit.Retraces s.unit t.unit :=
    ⟨placed, (Module.carried_rebound _).refl _, fun _ => .inl rfl⟩
  obtain ⟨rounds, settled, settles, ran⟩ := Run.bind_ok ran
  obtain ⟨last, lastRan, retraced, along⟩ := settleFrom_again start echoes settles
  cases ran
  refine ⟨_, Run.bind_of_ok lastRan, retraced.eq_last kept, ?_⟩
  exact along.bump _ rounds fun counter => absurd counter (by decide)

end StagedLowering
