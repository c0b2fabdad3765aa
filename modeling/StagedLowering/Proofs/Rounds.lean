import Mathlib
import StagedLowering.Proofs.Ladder
import StagedLowering.Proofs.Settling

/-!
# How many rounds aliases take

An alias that is declared after what it refers to is resolved in the same round, one that is declared
before it has to wait for the next. So the rounds that resolve all aliases, and the aliases that a
bound leaves open, can be counted before the first round (`settle_resolveRound`).
-/

namespace StagedLowering

open Aliases

/-- Every alias is resolved to the function at the end of its chain, in the table and at the node
that declares it. -/
def Module.AllResolved (symbols : List Symbol) (table : SymbolTable) (m : Module) : Prop :=
  ∀ (i : SymbolId) (symbol : Symbol) (target : String), symbols[i]? = some symbol →
    symbol.target? = some target → ∃ k f, Chain symbols i k f ∧
      table.get? i = some (symbol.resolve (some f)) ∧
      m.kindAt? symbol.spot = some (.synonym symbol.name target (some f))

variable {σ : Type} {symbols : List Symbol} {table : SymbolTable} {m : Module} {reached : Nat}
  {resolved : SymbolId → Option SymbolId}

theorem Stage.allResolved (stage : Stage symbols (fun _ => reached) table m resolved)
    (none : table.pending = []) : m.AllResolved symbols table := by
  intro i symbol target entry aims
  have isAlias : IsAlias symbols i := ⟨symbol, target, entry, aims⟩
  have known : resolved i ≠ .none := by
    intro open_
    have member := stage.mem_pending.mpr ⟨isAlias, open_⟩
    rw [none] at member
    cases member
  obtain ⟨f, found⟩ := Option.ne_none_iff_exists'.mp known
  obtain ⟨k, -, chain⟩ := (stage.chains i f).mp found
  refine ⟨k, f, chain, ?_, stage.written i symbol target f entry aims found⟩
  rw [stage.entries, entry, found, Option.map_some]

/-- No alias is left open exactly if none needs more rounds than there have been. -/
theorem Stage.pending_eq_nil_iff (stage : Stage symbols (fun _ => reached) table m resolved) :
    table.pending = [] ↔ ∀ i, IsAlias symbols i → need symbols i ≤ reached := by
  rw [List.eq_nil_iff_forall_not_mem]
  refine forall_congr' fun i => ?_
  rw [stage.mem_pending_iff, not_and, not_lt]

/-- The first number of rounds, at least one, that suffices for every alias. -/
theorem rounds_eq_max (positive : 0 < reached)
    (enough : ∀ i, IsAlias symbols i → need symbols i ≤ reached)
    (least : ∀ r, 0 < r → r < reached → ∃ i, IsAlias symbols i ∧ r < need symbols i) :
    (reached : ℕ∞) = max 1 (⨆ (i) (_ : IsAlias symbols i), need symbols i) := by
  refine le_antisymm ?_ (max_le (by exact_mod_cast positive) (iSup₂_le enough))
  rcases Nat.lt_or_ge 1 reached with several | one
  · obtain ⟨i, isAlias, long⟩ := least (reached - 1) (by omega) (by omega)
    have needed : (reached : ℕ∞) ≤ need symbols i := by
      have next : ((reached - 1 + 1 : Nat) : ℕ∞) ≤ need symbols i := Order.add_one_le_of_lt long
      rwa [Nat.sub_add_cancel positive] at next
    exact le_max_of_le_right (needed.trans (le_iSup₂_of_le i isAlias le_rfl))
  · exact le_max_of_le_left (by exact_mod_cast one)

/-- What the rounds come to after the declarations were collected into an empty table: they stop in
the first round at the first alias whose target is not declared, or settle as soon as every alias has
had the rounds it needs, or reach the bound with the aliases still open that need more. -/
theorem settle_resolveRound {state start : State σ Module} (numbered : state.unit.Numbered)
    (fresh : state.context.symbols = {}) (collected : collectDeclarations state = (.ok (), start))
    {bound : Nat} (positive : 0 < bound) :
    let symbols := state.unit.declarations
    (¬ TargetsDeclared symbols → ∃ symbol target last, FirstAstray symbols symbol target ∧
      resolveRound start = (.error (.error
        (.reported (.unknownTarget symbol.name target) symbol.declaredAt)), last) ∧
      settle resolveRound bound start = (.error (.error
        (.reported (.unknownTarget symbol.name target) symbol.declaredAt)), last)) ∧
    (TargetsDeclared symbols →
      (∀ i, IsAlias symbols i → (need symbols i = ⊤ ↔ EntersCycle symbols i)) ∧
      ((∀ i, IsAlias symbols i → need symbols i ≤ bound) → ∃ rounds last,
        settle resolveRound bound start = (.ok rounds, last) ∧
        (rounds : ℕ∞) = max 1 (⨆ (i) (_ : IsAlias symbols i), need symbols i) ∧
        last.unit.AllResolved symbols last.context.symbols) ∧
      ((∃ i, IsAlias symbols i ∧ bound < need symbols i) → ∃ last,
        settle resolveRound bound start = (.error (.error (.unsettled bound
          {i | IsAlias symbols i ∧ bound < need symbols i}.ncard)), last))) := by
  intro symbols
  obtain ⟨distinct, stage⟩ := collectDeclarations_stage numbered fresh collected
  have atLeast : max bound 1 = bound := by omega
  rcases settle_cases distinct (Module.nodup_spots numbered) stage bound with
    ⟨symbol, target, last, astray, first, failed⟩ |
      ⟨declared, reached, last, resolved, done, ended⟩
  · refine ⟨fun _ => ⟨symbol, target, last, astray, first, failed⟩, fun declared => ?_⟩
    exact absurd declared astray.not_targetsDeclared
  refine ⟨fun undeclared => absurd declared undeclared, fun _ =>
    ⟨fun i isAlias => need_eq_top_iff distinct declared isAlias, fun short => ?_, fun long => ?_⟩⟩
  · rcases ended with ⟨ran, some, -, none, least⟩ | ⟨-, rfl, open_⟩
    · exact ⟨reached, last, ran, rounds_eq_max some (done.pending_eq_nil_iff.mp none) least,
        done.allResolved none⟩
    · rw [atLeast] at done
      exact absurd (done.pending_eq_nil_iff.mpr short) open_
  · obtain ⟨i, isAlias, more⟩ := long
    rcases ended with ⟨-, -, within, none, -⟩ | ⟨failed, rfl, -⟩
    · have enough := done.pending_eq_nil_iff.mp none i isAlias
      rw [atLeast] at within
      exact absurd (more.trans_le enough) (not_lt.mpr (by exact_mod_cast within))
    · rw [atLeast] at done failed
      rw [done.length_pending] at failed
      exact ⟨last, failed⟩

/-- An alias in a file that carries the number of another stays open at its node. One that cannot be
reached may refer to nothing. -/
theorem settle_resolveRound_astray :
    let shared : State Unit Module := ⟨(), {}, {}, .behindFunction .nearAlias⟩
    let detached : State Unit Module := ⟨(), {}, {}, ⟨"program", [.detached]⟩⟩
    let start (state : State Unit Module) := (collectDeclarations state).2
    (¬ shared.unit.Numbered ∧ collectDeclarations shared = (.ok (), start shared) ∧
      (settle resolveRound 1 (start shared)).1 = .ok 1 ∧
      ¬ (settle resolveRound 1 (start shared)).2.unit.AllResolved shared.unit.declarations
        (settle resolveRound 1 (start shared)).2.context.symbols) ∧
    collectDeclarations detached = (.ok (), start detached) ∧
      (settle resolveRound 1 (start detached)).1 = .ok 1 ∧
      File.detached.kind? 2 = some (.synonym "alias" "nowhere" none) ∧
      ¬ Declared detached.unit.declarations "nowhere" := by
  intro shared detached start
  refine ⟨⟨Module.not_numbered_behindFunction rfl, Prod.ext (by cbv) rfl, ?_, fun all => ?_⟩,
    Prod.ext (by cbv) rfl, ?_, rfl, Module.not_declared_detached _ _⟩
  · dsimp only [start, shared]
    cbv
  · have entry : shared.unit.declarations[1]? =
        some ⟨"alias", .synonym "f" none, ⟨0, "b", 1⟩⟩ := by cbv
    obtain ⟨_, _, _, _, written⟩ := all 1 _ "f" entry rfl
    have here : (settle resolveRound 1 (start shared)).2.unit.kindAt? (0, 1) =
        some (.function "f") := by
      dsimp only [start, shared]
      cbv
    cases here.symm.trans written
  · dsimp only [start, detached]
    cbv

/-- Two aliases, each declared before what it refers to, take two rounds. -/
theorem settle_resolveRound_ladder :
    let state : State Unit Module := ⟨(), {}, {}, .ladder 2⟩
    let start := (collectDeclarations state).2
    let symbols := state.unit.declarations
    (state.unit.Numbered ∧ state.context.symbols = {} ∧
      collectDeclarations state = (.ok (), start) ∧ 0 < 2) ∧
    ∃ rounds last, settle resolveRound 2 start = (.ok rounds, last) ∧
      (rounds : ℕ∞) = max 1 (⨆ (i) (_ : IsAlias symbols i), need symbols i) ∧
      last.unit.AllResolved symbols last.context.symbols := by
  intro state start symbols
  have numbered : state.unit.Numbered := Module.numbered_ladder 2
  have fresh : state.context.symbols = {} := rfl
  have collected : collectDeclarations state = (.ok (), start) := by
    rcases collectDeclarations_cases fresh with ⟨-, _, _, ran, -, -⟩ | ⟨clash, -⟩
    · exact Prod.ext (by rw [ran]) rfl
    · exact absurd (Module.distinct_ladder 2) clash
  have positive : 0 < 2 := by decide
  refine ⟨⟨numbered, fresh, collected, positive⟩, ?_⟩
  have ends := settle_resolveRound numbered fresh collected positive
  exact (ends.2 (Module.targetsDeclared_ladder 2)).2.1 fun i isAlias => Module.need_ladder_le isAlias

end StagedLowering
