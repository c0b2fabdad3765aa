import Mathlib.Data.Set.Card
import StagedLowering.Proofs.Frames
import StagedLowering.Proofs.Resolution
import StagedLowering.Proofs.Schedule

/-!
# Settled aliases

If every target is declared, the rounds go on until no alias needs more of them or the bound is
reached (`settle_cases`). They settle exactly if every alias leads to a function in few enough steps
to later aliases (`aliasResolution_cases`). Then a name has a function exactly if it is declared, and it is the one
that the name stands for (`Settled.functionFor_iff`).
-/

namespace StagedLowering

open Aliases

variable {symbols : List Symbol} {bound : SymbolId → Nat} {table : SymbolTable} {m : Module}
  {resolved : SymbolId → Option SymbolId} {r i f : Nat} {name : String}

/-! ### Rounds -/

theorem Stage.mem_pending (stage : Stage symbols bound table m resolved) :
    i ∈ table.pending ↔ IsAlias symbols i ∧ resolved i = none := by
  rw [SymbolTable.mem_pending, stage.entries]
  constructor
  · intro found
    obtain ⟨_, entry, open_⟩ := found
    obtain ⟨symbol, here, rfl⟩ := Option.map_eq_some_iff.mp entry
    obtain ⟨⟨target, aims⟩, unresolved⟩ := Symbol.isPending_resolve.mp open_
    exact ⟨⟨symbol, target, here, aims⟩, unresolved⟩
  · intro found
    obtain ⟨⟨symbol, target, here, aims⟩, unresolved⟩ := found
    refine ⟨symbol.resolve (resolved i), ?_, Symbol.isPending_resolve.mpr ⟨⟨target, aims⟩, unresolved⟩⟩
    rw [here, Option.map_some]

/-- After `r` rounds those aliases are open that need more. -/
theorem Stage.mem_pending_iff (stage : Stage symbols (fun _ => r) table m resolved) :
    i ∈ table.pending ↔ IsAlias symbols i ∧ r < need symbols i := by
  rw [stage.mem_pending, ← not_le, need_le_iff, Option.eq_none_iff_forall_ne_some]
  refine and_congr_right fun _ => ⟨fun open_ found => ?_, fun long f found => ?_⟩
  · obtain ⟨k, short, f, chain⟩ := found
    exact open_ f ((stage.chains i f).mpr ⟨k, short, chain⟩)
  · obtain ⟨k, short, chain⟩ := (stage.chains i f).mp found
    exact long ⟨k, short, f, chain⟩

theorem Stage.length_pending (stage : Stage symbols (fun _ => r) table m resolved) :
    table.pending.length = {i | IsAlias symbols i ∧ r < need symbols i}.ncard := by
  have nodup : table.pending.Nodup := table.pending_sorted.imp Nat.ne_of_lt
  have same : {i | IsAlias symbols i ∧ r < need symbols i} = ↑table.pending.toFinset := by
    ext i
    simp [stage.mem_pending_iff]
  rw [same, Set.ncard_coe_finset, List.toFinset_card_of_nodup nodup]

theorem namesDeclared_of_firstAstrayOf {failure : Failure}
    (stage : Stage symbols (fun _ => 0) table m resolved)
    (astray : FirstAstrayOf symbols table.pending failure) :
    ∃ symbol target, FirstAstray symbols symbol target ∧
      failure = .reported (.unknownTarget symbol.name target) symbol.declaredAt := by
  obtain ⟨i, _, symbol, target, entry, aims, undeclared, reported, first⟩ := astray
  refine ⟨symbol, target, ⟨aims, undeclared, i, entry, fun j before other aim found otherAims => ?_⟩,
    reported⟩
  have isAlias : IsAlias symbols j := ⟨other, aim, found, otherAims⟩
  exact first j (stage.mem_pending_iff.mpr ⟨isAlias, need_pos⟩) before other aim found otherAims

section rounds

variable {σ : Type} (distinct : (symbols.map (·.name)).Nodup)
  (spots : (symbols.map Symbol.spot).Nodup) {state : State σ Module}

include distinct spots

/-- A round resolves what it can in the state and tells how many aliases are left open, or stops at
the first whose target is not declared. -/
theorem resolveRound_cases
    (stage : Stage symbols (fun _ => r) state.context.symbols state.unit resolved) :
    (∃ failure last, FirstAstrayOf symbols state.context.symbols.pending failure ∧
        resolveRound state = (.error (.error failure), last)) ∨
      (∀ i ∈ state.context.symbols.pending, NamesDeclared symbols i) ∧ ∃ last resolved',
        resolveRound state = (.ok (.ofResidual last.context.symbols.pending.length), last) ∧
          Stage symbols (fun _ => r + 1) last.context.symbols last.unit resolved' := by
  rw [resolveRound_apply]
  have start : Stage symbols (turn r 0) state.context.symbols state.unit resolved := stage
  have queue : Queue symbols resolved 0 state.context.symbols.pending :=
    ⟨SymbolTable.pending_sorted _, fun _ _ => Nat.zero_le _, fun _ _ => stage.mem_pending⟩
  rcases resolveAliases_cases distinct spots start queue 0 with
    ⟨failure, changed, last, astray, ran⟩ | ⟨all, changed, last, resolved', ran, done, -⟩
  · rw [ran]
    exact .inl ⟨failure, _, astray, rfl⟩
  · have nodup {table : SymbolTable} : table.pending.Nodup := table.pending_sorted.imp Nat.ne_of_lt
    -- What is open after the round was open before.
    have left : (state.context.symbols.pending.filter (resolved' · = none)).Perm changed.pending := by
      refine (List.perm_ext_iff_of_nodup (nodup.filter _) nodup).mpr fun i => ?_
      rw [List.mem_filter, done.mem_pending, stage.mem_pending_iff, decide_eq_true_iff]
      refine ⟨fun found => ⟨found.1.1, found.2⟩, fun found => ⟨⟨found.1, ?_⟩, found.2⟩⟩
      have later := (done.mem_pending_iff.mp (done.mem_pending.mpr found)).2
      exact lt_of_le_of_lt (by exact_mod_cast Nat.le_succ r) later
    rw [ran, Nat.zero_add, left.length_eq]
    refine .inr ⟨all, { state with
      context := { state.context with symbols := changed }, unit := last }, resolved', rfl, done⟩

/-- If every target is declared, rounds are repeated until no alias needs more of them, or as often
as is allowed. -/
theorem settleFrom_cases (declared : TargetsDeclared symbols) (done residual left : Nat)
    (stage : Stage symbols (fun _ => done) state.context.symbols state.unit resolved)
    (unsettled : left = 0 → state.context.symbols.pending ≠ [] ∧
      residual = state.context.symbols.pending.length) :
    ∃ reached last resolved',
      Stage symbols (fun _ => reached) last.context.symbols last.unit resolved' ∧
      ((settleFrom resolveRound done residual left state = (.ok reached, last) ∧
          done < reached ∧ reached ≤ done + left ∧ last.context.symbols.pending = [] ∧
          ∀ r, done < r → r < reached → ∃ i, IsAlias symbols i ∧ r < need symbols i) ∨
        (settleFrom resolveRound done residual left state =
            (.error (.error (.unsettled reached last.context.symbols.pending.length)), last) ∧
          reached = done + left ∧ last.context.symbols.pending ≠ [])) := by
  induction left generalizing state resolved done residual with
  | zero =>
    obtain ⟨some, rfl⟩ := unsettled rfl
    exact ⟨done, state, resolved, stage, .inr ⟨rfl, rfl, some⟩⟩
  | succ left ih =>
    rw [settleFrom]
    rcases resolveRound_cases distinct spots stage with
      ⟨failure, last, ⟨i, _, symbol, target, entry, aims, undeclared, _⟩, _⟩ |
        ⟨-, next, resolved', ran, later⟩
    · exact absurd (declared symbol (List.mem_of_getElem? entry) target aims) undeclared
    · rw [Run.bind_of_ok ran]
      cases open_ : next.context.symbols.pending with
      | nil =>
        refine ⟨done + 1, next, resolved', later, .inl ⟨rfl, by omega, by omega, open_, ?_⟩⟩
        intro r after before
        omega
      | cons i rest =>
        have emitted : Stage symbols (fun _ => done + 1)
            ({ next with trace := next.trace.emit (.unsettled (done + 1) (rest.length + 1)) } :
              State σ Module).context.symbols next.unit resolved' := later
        have more := later.mem_pending_iff.mp (open_ ▸ List.mem_cons_self : i ∈ _)
        have sum : done + 1 + left = done + (left + 1) := by omega
        obtain ⟨reached, last, resolved'', final, ended⟩ := ih (done + 1) (rest.length + 1) emitted
          fun _ => by simp [open_]
        rw [sum] at ended
        refine ⟨reached, last, resolved'', final, ended.imp_left fun ⟨ran, after, within, all, long⟩ =>
          ⟨ran, by omega, within, all, fun r later before => ?_⟩⟩
        rcases Nat.lt_or_ge (done + 1) r with beyond | upTo
        · exact long r beyond before
        · obtain rfl : r = done + 1 := by omega
          exact ⟨i, more⟩

/-- From aliases of which none is resolved the rounds stop at the first whose target is not declared,
settle, or reach the bound. -/
theorem settle_cases (stage : Stage symbols (fun _ => 0) state.context.symbols state.unit resolved)
    (bound : Nat) :
    (∃ symbol target last, FirstAstray symbols symbol target ∧
        resolveRound state = (.error (.error
          (.reported (.unknownTarget symbol.name target) symbol.declaredAt)), last) ∧
        settle resolveRound bound state = (.error (.error
          (.reported (.unknownTarget symbol.name target) symbol.declaredAt)), last)) ∨
      TargetsDeclared symbols ∧ ∃ reached last resolved',
        Stage symbols (fun _ => reached) last.context.symbols last.unit resolved' ∧
        ((settle resolveRound bound state = (.ok reached, last) ∧
            0 < reached ∧ reached ≤ max bound 1 ∧ last.context.symbols.pending = [] ∧
            ∀ r, 0 < r → r < reached → ∃ i, IsAlias symbols i ∧ r < need symbols i) ∨
          (settle resolveRound bound state =
              (.error (.error (.unsettled reached last.context.symbols.pending.length)), last) ∧
            reached = max bound 1 ∧ last.context.symbols.pending ≠ [])) := by
  rcases resolveRound_cases distinct spots stage with
    ⟨failure, last, astray, ran⟩ | ⟨all, -⟩
  · obtain ⟨symbol, target, first, rfl⟩ := namesDeclared_of_firstAstrayOf stage astray
    refine .inl ⟨symbol, target, last, first, ran, ?_⟩
    obtain ⟨left, bounded⟩ := Nat.exists_eq_succ_of_ne_zero (show max bound 1 ≠ 0 by omega)
    rw [settle, bounded, settleFrom, Run.bind_of_error ran]
  · have declared : TargetsDeclared symbols := by
      intro symbol member target aims
      obtain ⟨i, entry⟩ := List.getElem?_of_mem member
      exact all i (stage.mem_pending_iff.mpr ⟨⟨symbol, target, entry, aims⟩, need_pos⟩) symbol target
        entry aims
    have cases := settleFrom_cases distinct spots declared 0 0 (max bound 1) stage fun none => by omega
    rw [Nat.zero_add] at cases
    exact .inr ⟨declared, cases⟩

end rounds

/-! ### The phase -/

def Settled (symbols : List Symbol) (table : SymbolTable) (m : Module) : Prop :=
  ∃ reached resolved, Stage symbols (fun _ => reached) table m resolved ∧
    ∀ i, IsAlias symbols i → resolved i ≠ none

theorem Stage.start (numbered : m.Numbered) (indexed : table.Indexed)
    (entries : table.entries.toList = m.declarations) :
    Stage m.declarations (fun _ => 0) table m fun _ => none where
  indexed := indexed
  entries i := by
    rw [SymbolTable.get?_eq, entries]
    cases found : m.declarations[i]? with
    | none => rfl
    | some symbol => rw [Option.map_some, Module.resolve_none (List.mem_of_getElem? found)]
  placed symbol member := Module.kindAt?_spot numbered member
  written _ _ _ _ _ _ found := nomatch found
  chains i f := by
    refine ⟨nofun, fun found => ?_⟩
    obtain ⟨k, short, _⟩ := found
    exact absurd short (Nat.not_lt_zero k)

/-- Collecting the declarations leaves every alias unresolved. -/
theorem collectDeclarations_stage {σ : Type} {state start : State σ Module} (numbered : state.unit.Numbered)
    (fresh : state.context.symbols = {}) (collected : collectDeclarations state = (.ok (), start)) :
    (state.unit.declarations.map (·.name)).Nodup ∧
      Stage state.unit.declarations (fun _ => 0) start.context.symbols start.unit fun _ => none := by
  rcases collectDeclarations_cases fresh with
    ⟨distinct, table, statistics, ran, indexed, entries⟩ | ⟨-, failure, last, ran⟩
  · cases ran.symm.trans collected
    exact ⟨distinct, Stage.start numbered indexed entries⟩
  · cases ran.symm.trans collected

theorem aliasResolution_rebound {σ : Type} (config : Config) :
    ((aliasResolution : Fixpoint σ Module).run config).Keeps
      (OnUnits (Module.Rebound NodeKind.isSynonym)) := by
  refine (Module.carried_rebound _).fixpoint fun state => ?_
  show Module.Rebound _ state.unit (resolveRound state).2.unit
  rw [resolveRound_apply]
  exact Module.rebound_resolveAliases _ state.unit 0 _

theorem aliasResolution_steady {σ : Type} (config : Config) :
    ((aliasResolution : Fixpoint σ Module).run config).Steady := by
  refine Run.Steady.fixpoint fun state after _ _ ran => ?_
  have round := (resolveRound_apply state).symm.trans ran
  rw [Prod.mk.injEq] at round
  obtain ⟨_, rfl⟩ := round
  exact ⟨rfl, rfl⟩

/-- In a module whose files carry their positions, the phase succeeds exactly if every alias leads to
a function soon enough. -/
theorem aliasResolution_cases {σ : Type} {state : State σ Module}
    (numbered : state.unit.Numbered) (distinct : (state.unit.declarations.map (·.name)).Nodup)
    (indexed : state.context.symbols.Indexed)
    (entries : state.context.symbols.entries.toList = state.unit.declarations) (config : Config) :
    (AllLead state.unit.declarations (max config.maxIterations 1) ∧ ∃ after,
        aliasResolution.run config state = (.ok (), after) ∧
          Settled state.unit.declarations after.context.symbols after.unit) ∨
      (¬ AllLead state.unit.declarations (max config.maxIterations 1) ∧ ∃ failure last,
        aliasResolution.run config state = (.error (.error failure), last)) := by
  have run : aliasResolution.run config state =
      (settle resolveRound config.maxIterations >>= fun iterations => do
        Run.emit (.settled iterations)
        Run.onContext (·.bump "resolve_aliases.iterations" iterations)) state := rfl
  have cases := settle_cases distinct (Module.nodup_spots numbered)
    (Stage.start numbered indexed entries) config.maxIterations
  rw [run]
  rcases cases with ⟨symbol, target, last, astray, -, failed⟩ |
    ⟨-, reached, last, resolved, stage, ⟨ran, -, within, none, -⟩ | ⟨failed, rfl, some⟩⟩
  · refine .inr ⟨fun lead => ?_, _, last, Run.bind_of_error failed⟩
    exact astray.not_targetsDeclared ((allLead_iff distinct).mp lead).1
  · have settled : ∀ i, IsAlias state.unit.declarations i → i ∉ last.context.symbols.pending := by
      intro i _ open_
      rw [none] at open_
      cases open_
    rw [Run.bind_of_ok ran]
    refine .inl ⟨fun i isAlias => ?_, _, rfl, reached, resolved, stage, fun i isAlias open_ =>
      settled i isAlias (stage.mem_pending.mpr ⟨isAlias, open_⟩)⟩
    obtain ⟨k, short, f, chain⟩ := need_le_iff.mp (not_lt.mp fun long =>
      settled i isAlias (stage.mem_pending_iff.mpr ⟨isAlias, long⟩))
    exact ⟨k, Nat.lt_of_lt_of_le short within, f, chain⟩
  · refine .inr ⟨fun lead => ?_, _, last, Run.bind_of_error failed⟩
    obtain ⟨i, open_⟩ := List.exists_mem_of_ne_nil _ some
    obtain ⟨isAlias, long⟩ := stage.mem_pending_iff.mp open_
    exact not_le.mpr long (need_le_iff.mpr (lead i isAlias))

/-- What resolving aliases comes to in a module whose files carry their positions. -/
structure Module.Resolved (rounds : Nat) (m : Module) (table : SymbolTable) (resolved : Module) :
    Prop where
  distinct : (m.declarations.map (·.name)).Nodup
  rebound : m.Rebound NodeKind.isSynonym resolved
  lead : m.Numbered → AllLead m.declarations rounds
  settled : m.Numbered → Settled m.declarations table resolved

/-- The phase succeeds with the aliases resolved, or fails since one of them leads nowhere. -/
theorem aliasResolution_ends {σ : Type} {state : State σ Module}
    (going : state.context.cancelled = false)
    (distinct : (state.unit.declarations.map (·.name)).Nodup)
    (indexed : state.context.symbols.Indexed)
    (entries : state.context.symbols.entries.toList = state.unit.declarations) (config : Config) :
    (∃ after, aliasResolution.run config state = (.ok (), after) ∧
        after.context.cancelled = false ∧
        state.unit.Resolved (max config.maxIterations 1) after.context.symbols after.unit) ∨
      ∃ stop after, aliasResolution.run config state = (.error stop, after) ∧
        (state.unit.Numbered →
          ¬ AllLead state.unit.declarations (max config.maxIterations 1) ∧
            ∃ failure, stop = .error failure) := by
  have rebound := aliasResolution_rebound config state
  have cases := fun numbered => aliasResolution_cases numbered distinct indexed entries config
  rcases ran : aliasResolution.run config state with ⟨stop | _, after⟩
  · refine .inr ⟨stop, after, rfl, fun numbered => ?_⟩
    rcases cases numbered with ⟨_, last, ended, _⟩ | ⟨astray, failure, last, ended⟩
    · cases ran.symm.trans ended
    · cases ran.symm.trans ended
      exact ⟨astray, failure, rfl⟩
  · rw [ran] at rebound
    have kept := aliasResolution_steady config going ran
    refine .inl ⟨after, rfl, kept.cancelled.trans going, distinct, rebound, fun numbered => ?_,
      fun numbered => ?_⟩
    · rcases cases numbered with ⟨lead, _⟩ | ⟨_, failure, last, ended⟩
      · exact lead
      · cases ran.symm.trans ended
    · rcases cases numbered with ⟨_, last, ended, settled⟩ | ⟨_, failure, last, ended⟩
      · cases ran.symm.trans ended
        exact settled
      · cases ran.symm.trans ended

/-! ### What the table says in the end -/

namespace Settled

theorem isFunction_iff (settled : Settled symbols table m) :
    table.isFunction f = true ↔ IsFunction symbols f := by
  obtain ⟨reached, resolved, stage, _⟩ := settled
  exact stage.records.isFunction_iff

theorem names (settled : Settled symbols table m) (i : SymbolId) :
    (table.get? i).map (·.name) = (symbols[i]?).map (·.name) := by
  obtain ⟨reached, resolved, stage, _⟩ := settled
  rw [stage.entries, Option.map_map]
  congr 1
  funext symbol
  exact Symbol.name_resolve

section distinct

variable (settled : Settled symbols table m) (distinct : (symbols.map (·.name)).Nodup)

include settled distinct

theorem functionFor_iff : table.functionFor name = some f ↔ StandsFor symbols name f := by
  obtain ⟨reached, resolved, stage, all⟩ := settled
  unfold SymbolTable.functionFor
  rw [Option.bind_eq_some_iff]
  constructor
  · intro found
    obtain ⟨i, referred, known⟩ := found
    obtain ⟨symbol, entry, named⟩ := stage.records.lookup_iff.mp referred
    refine ⟨i, symbol, entry, named, ?_⟩
    cases target : symbol.target? with
    | none =>
      rw [stage.records.functionOf_function ⟨symbol, entry, target⟩] at known
      exact .inl ⟨rfl, (Option.some.inj known).symm⟩
    | some next =>
      rw [stage.records.functionOf_alias ⟨symbol, next, entry, target⟩] at known
      obtain ⟨k, _, chain⟩ := (stage.chains i f).mp known
      exact .inr ⟨k, chain⟩
  · intro stands
    obtain ⟨i, symbol, entry, named, here | ⟨k, chain⟩⟩ := stands
    · obtain ⟨none, rfl⟩ := here
      exact ⟨f, stage.records.lookup_iff.mpr ⟨symbol, entry, named⟩,
        stage.records.functionOf_function ⟨symbol, entry, none⟩⟩
    · refine ⟨i, stage.records.lookup_iff.mpr ⟨symbol, entry, named⟩, ?_⟩
      rw [stage.records.functionOf_alias chain.isAlias]
      obtain ⟨f', found⟩ := Option.ne_none_iff_exists'.mp (all i chain.isAlias)
      obtain ⟨_, _, chain'⟩ := (stage.chains i f').mp found
      obtain ⟨_, rfl⟩ := chain.unique distinct chain'
      exact found

omit distinct in
theorem exists_functionFor :
    (∃ f, table.functionFor name = some f) ↔ Declared symbols name := by
  obtain ⟨reached, resolved, stage, all⟩ := settled
  unfold SymbolTable.functionFor
  simp only [Option.bind_eq_some_iff]
  constructor
  · intro found
    obtain ⟨f, i, referred, _⟩ := found
    obtain ⟨symbol, entry, named⟩ := stage.records.lookup_iff.mp referred
    exact ⟨symbol, List.mem_of_getElem? entry, named⟩
  · intro declared
    obtain ⟨symbol, member, named⟩ := declared
    obtain ⟨i, entry⟩ := List.getElem?_of_mem member
    have referred := stage.records.lookup_iff.mpr ⟨symbol, entry, named⟩
    cases target : symbol.target? with
    | none => exact ⟨i, i, referred, stage.records.functionOf_function ⟨symbol, entry, target⟩⟩
    | some next =>
      have isAlias : IsAlias symbols i := ⟨symbol, next, entry, target⟩
      obtain ⟨f, found⟩ := Option.ne_none_iff_exists'.mp (all i isAlias)
      exact ⟨f, i, referred, (stage.records.functionOf_alias isAlias).trans found⟩

omit distinct in
theorem written {symbol : Symbol} {target : String} (entry : symbols[i]? = some symbol)
    (aims : symbol.target? = some target) :
    ∃ f, table.lookup symbol.name = some i ∧ table.get? i = some (symbol.resolve (some f)) ∧
      table.isFunction f = true ∧ m.kindAt? symbol.spot = some (.synonym symbol.name target (some f)) := by
  have functions : ∀ f, IsFunction symbols f → table.isFunction f = true :=
    fun _ => settled.isFunction_iff.mpr
  obtain ⟨reached, resolved, stage, all⟩ := settled
  obtain ⟨f, found⟩ := Option.ne_none_iff_exists'.mp (all i ⟨symbol, target, entry, aims⟩)
  obtain ⟨_, _, chain⟩ := (stage.chains i f).mp found
  refine ⟨f, stage.records.lookup_iff.mpr ⟨symbol, entry, rfl⟩, ?_, functions f chain.isFunction,
    stage.written i symbol target f entry aims found⟩
  rw [stage.entries, entry, found, Option.map_some]

end distinct

end Settled

theorem Aliases.StandsFor.isFunction (stands : StandsFor symbols name f) : IsFunction symbols f := by
  obtain ⟨i, symbol, entry, _, ⟨none, rfl⟩ | ⟨k, chain⟩⟩ := stands
  · exact ⟨symbol, entry, none⟩
  · exact chain.isFunction

end StagedLowering
