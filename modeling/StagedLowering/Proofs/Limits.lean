import StagedLowering.Proofs.Acceptance
import StagedLowering.Proofs.Ladder

/-!
# What a bound on rounds leaves out

The default bound of 50 rounds is met by every module without a cycle whose aliases need no more, in
whatever order they are declared (`Pipeline.run_standard_resolves`). But no bound is enough for all
modules without a cycle: each is exceeded by a ladder (`Pipeline.run_bounded_ladder`).
-/

namespace StagedLowering

open Aliases

variable {σ : Type} {bound : Nat} {m last : Module} {table : SymbolTable}
  {result : Except (Stop PhaseError) Unit}

theorem Aliases.not_allLead_iff {symbols : List Symbol} :
    ¬ AllLead symbols bound ↔ ∃ i, IsAlias symbols i ∧ bound < need symbols i := by
  unfold AllLead
  push Not
  refine exists_congr fun i => and_congr_right fun _ => ?_
  rw [← not_le, need_le_iff]
  push Not
  rfl

theorem failsIn_error {error : PhaseError} {phase : PhaseId} :
    FailsIn phase (.error (.error error)) ↔ error.phase = phase := by
  constructor
  · rintro ⟨_, same, name⟩
    cases same
    exact name
  · exact fun name => ⟨error, rfl, name⟩

/-- Only an alias that needs more rounds makes the resolution of aliases fail. -/
theorem Ends.failsIn_resolve_iff (ends : Ends bound m result table last) (numbered : m.Numbered)
    (distinct : (m.declarations.map (·.name)).Nodup) :
    FailsIn "resolve_aliases" result ↔
      ∃ i, IsAlias m.declarations i ∧ bound < need m.declarations i := by
  rw [← not_allLead_iff]
  -- A run that got past the resolution has found every alias to lead to a function in time.
  have past {known : SymbolTable} {resolved : Module} (done : m.Resolved bound known resolved)
      (elsewhere : ¬ FailsIn "resolve_aliases" result) :
      FailsIn "resolve_aliases" result ↔ ¬ AllLead m.declarations bound :=
    iff_of_false elsewhere (not_not_intro (done.lead numbered))
  cases ends with
  | clashing clash phase => exact absurd distinct clash
  | astray _ astray =>
    obtain ⟨not, error, rfl, phase⟩ := astray numbered
    exact iff_of_true ⟨error, rfl, phase⟩ not
  | stuck done _ phase =>
    refine past done ?_
    rw [failsIn_error, phase]
    decide
  | refused ready _ phase =>
    refine past ready.toResolved ?_
    rw [failsIn_error, phase]
    decide
  | unverified ready _ _ phase =>
    refine past ready.toResolved ?_
    rw [failsIn_error, phase]
    decide
  | lowered ready _ _ => exact past ready.toResolved nofun

theorem Pipeline.run_bounded_resolves (positive : 1 ≤ bound) (state : State σ Module)
    (numbered : state.unit.Numbered) (distinct : (state.unit.declarations.map (·.name)).Nodup) :
    FailsIn "resolve_aliases" ((Pipeline.bounded bound).run state).1 ↔
      ∃ i, IsAlias state.unit.declarations i ∧ bound < need state.unit.declarations i := by
  have ends := Pipeline.run_ends (Pipeline.bounded bound) rfl (fun _ => rfl) rfl state
  have rounds : max (Pipeline.bounded (σ := σ) bound).config.maxIterations 1 = bound :=
    Nat.max_eq_left positive
  rw [rounds] at ends
  exact ends.failsIn_resolve_iff numbered distinct

/-- Every bound is exceeded by a module that has neither a cycle nor an undeclared target. -/
theorem Pipeline.run_bounded_ladder (positive : 1 ≤ bound) (outer : σ) (trace : Trace)
    (context : Context) :
    FailsIn "resolve_aliases"
      ((Pipeline.bounded bound).run ⟨outer, trace, context, .ladder (bound + 1)⟩).1 := by
  rw [run_bounded_resolves positive _ (Module.numbered_ladder _) (Module.distinct_ladder _)]
  have first : 0 < bound + 1 := Nat.succ_pos bound
  refine ⟨0, Module.isAlias_ladder.mpr first, ?_⟩
  rw [Module.need_ladder first]
  exact_mod_cast Nat.lt_succ_self bound

/-- Under the default bound a module without cycles is not refused for its aliases unless one is
followed by a chain with 50 steps or more to aliases declared later. -/
theorem Pipeline.run_standard_resolves (state : State σ Module) (numbered : state.unit.Numbered)
    (distinct : (state.unit.declarations.map (·.name)).Nodup)
    (declared : TargetsDeclared state.unit.declarations)
    (acyclic : ∀ i, ¬ Relation.TransGen (RefersTo state.unit.declarations) i i) :
    FailsIn "resolve_aliases" (Pipeline.standard.run state).1 ↔
      ∃ i k f, Chain state.unit.declarations i k f ∧ 50 ≤ k := by
  have positive : 1 ≤ 50 := by decide
  refine (run_bounded_resolves positive state numbered distinct).trans ?_
  constructor
  · rintro ⟨i, isAlias, long⟩
    obtain ⟨k, f, chain⟩ := exists_chain declared (fun ⟨c, _, cycle⟩ => acyclic c cycle) isAlias
    rw [chain.need_eq distinct] at long
    exact ⟨i, k, f, chain, Nat.le_of_lt_succ (by exact_mod_cast long)⟩
  · rintro ⟨i, k, f, chain, long⟩
    refine ⟨i, chain.isAlias, ?_⟩
    rw [chain.need_eq distinct]
    exact_mod_cast Nat.lt_succ_of_le long

theorem Pipeline.run_standard_resolves_ladder :
    let state : State Unit Module := ⟨(), {}, {}, .ladder 50⟩
    (state.unit.Numbered ∧ (state.unit.declarations.map (·.name)).Nodup ∧
      TargetsDeclared state.unit.declarations ∧
      ∀ i, ¬ Relation.TransGen (RefersTo state.unit.declarations) i i) ∧
    ¬ FailsIn "resolve_aliases" (Pipeline.standard.run state).1 := by
  intro state
  have numbered := Module.numbered_ladder 50
  have distinct := Module.distinct_ladder 50
  have declared := Module.targetsDeclared_ladder 50
  have acyclic := Module.acyclic_ladder 50
  refine ⟨⟨numbered, distinct, declared, acyclic⟩, ?_⟩
  rw [run_standard_resolves state numbered distinct declared acyclic]
  rintro ⟨i, k, f, chain, long⟩
  have short := Module.need_ladder_le chain.isAlias
  rw [chain.need_eq distinct] at short
  have few : k + 1 ≤ 50 := by exact_mod_cast short
  omega

/-- The default bound refuses a module without cycles. -/
theorem Pipeline.not_always_resolves :
    ¬ ∀ state : State Unit Module, state.unit.Numbered →
      (state.unit.declarations.map (·.name)).Nodup → TargetsDeclared state.unit.declarations →
      (∀ i, ¬ Relation.TransGen (RefersTo state.unit.declarations) i i) →
      ¬ FailsIn "resolve_aliases" (Pipeline.standard.run state).1 := by
  intro resolves
  have positive : 1 ≤ 50 := by decide
  exact resolves ⟨(), {}, {}, .ladder 51⟩ (Module.numbered_ladder 51) (Module.distinct_ladder 51)
    (Module.targetsDeclared_ladder 51) (Module.acyclic_ladder 51)
    (run_bounded_ladder positive () {} {})

end StagedLowering
