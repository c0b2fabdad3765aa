import Mathlib.Data.ENat.Lattice
import Mathlib.Data.Fintype.Card
import Mathlib.Data.Fintype.EquivFin
import Mathlib.Logic.Relation
import StagedLowering.Proofs.Tables

/-!
# Alias chains

What a list of declared symbols says about its aliases, before anything is resolved. Names being
different, an alias has one chain at most (`Chain.unique`), and all have one exactly if every target
is declared and no chain is cyclic (`allLead_iff`). The rounds that an alias needs are read off its
chain (`need`), and it needs more than any number exactly if it comes to a cycle
(`need_eq_top_iff`).
-/

namespace StagedLowering.Aliases

variable {symbols : List Symbol} {i j f k : Nat}

def RefersTo (symbols : List Symbol) (i j : SymbolId) : Prop :=
  ∃ symbol referent, symbols[i]? = some symbol ∧ symbols[j]? = some referent ∧
    symbol.target? = some referent.name

def IsFunction (symbols : List Symbol) (i : SymbolId) : Prop :=
  ∃ symbol, symbols[i]? = some symbol ∧ symbol.target? = none

def IsAlias (symbols : List Symbol) (i : SymbolId) : Prop :=
  ∃ symbol target, symbols[i]? = some symbol ∧ symbol.target? = some target

/-- Following targets from alias `i` ends at function `f` after `k` steps from an alias to one
declared later. -/
inductive Chain (symbols : List Symbol) : SymbolId → Nat → SymbolId → Prop
  | function {i f : SymbolId} (refers : RefersTo symbols i f) (isFunction : IsFunction symbols f) :
    Chain symbols i 0 f
  | earlier {i j f : SymbolId} {k : Nat} (refers : RefersTo symbols i j) (before : j < i)
    (rest : Chain symbols j k f) : Chain symbols i k f
  | later {i j f : SymbolId} {k : Nat} (refers : RefersTo symbols i j) (after : i < j)
    (rest : Chain symbols j k f) : Chain symbols i (k + 1) f

def Declared (symbols : List Symbol) (name : String) : Prop :=
  ∃ symbol ∈ symbols, symbol.name = name

def TargetsDeclared (symbols : List Symbol) : Prop :=
  ∀ symbol ∈ symbols, ∀ target, symbol.target? = some target → Declared symbols target

def NamesDeclared (symbols : List Symbol) (i : SymbolId) : Prop :=
  ∀ (symbol : Symbol) (target : String), symbols[i]? = some symbol →
    symbol.target? = some target → Declared symbols target

def FirstAstray (symbols : List Symbol) (symbol : Symbol) (target : String) : Prop :=
  symbol.target? = some target ∧ ¬ Declared symbols target ∧
    ∃ i : SymbolId, symbols[i]? = some symbol ∧ ∀ j < i, NamesDeclared symbols j

def EntersCycle (symbols : List Symbol) (i : SymbolId) : Prop :=
  ∃ j, Relation.ReflTransGen (RefersTo symbols) i j ∧ Relation.TransGen (RefersTo symbols) j j

/-- The number of rounds it takes to resolve an alias: one, and one more for each step of its chain
from an alias to one declared later. It is infinite if no chain leads from the alias to a
function. -/
noncomputable def need (symbols : List Symbol) (i : SymbolId) : ℕ∞ :=
  ⨅ (k : ℕ) (f : SymbolId) (_ : Chain symbols i k f), (k + 1 : ℕ∞)

/-- No chain is cyclic, and none takes `bound` steps to aliases declared later. -/
structure Settles (symbols : List Symbol) (bound : Nat) : Prop where
  acyclic : ∀ i, ¬ Relation.TransGen (RefersTo symbols) i i
  short : ∀ i k f, Chain symbols i k f → k < bound

def AllLead (symbols : List Symbol) (bound : Nat) : Prop :=
  ∀ i, IsAlias symbols i → ∃ k < bound, ∃ f, Chain symbols i k f

/-- A name stands for the function that declares it, or for the one its aliases lead to. -/
def StandsFor (symbols : List Symbol) (name : String) (f : SymbolId) : Prop :=
  ∃ i symbol, symbols[i]? = some symbol ∧ symbol.name = name ∧
    (symbol.target? = none ∧ f = i ∨ ∃ k, Chain symbols i k f)

theorem RefersTo.isAlias (refers : RefersTo symbols i j) : IsAlias symbols i := by
  obtain ⟨symbol, referent, entry, _, target⟩ := refers
  exact ⟨symbol, referent.name, entry, target⟩

theorem Chain.refersTo (chain : Chain symbols i k f) : ∃ j, RefersTo symbols i j := by
  cases chain with
  | function refers _ => exact ⟨_, refers⟩
  | earlier refers _ _ => exact ⟨_, refers⟩
  | later refers _ _ => exact ⟨_, refers⟩

theorem Chain.isAlias (chain : Chain symbols i k f) : IsAlias symbols i := by
  obtain ⟨j, refers⟩ := chain.refersTo
  exact refers.isAlias

theorem not_isFunction_of_isAlias (isAlias : IsAlias symbols i) : ¬ IsFunction symbols i := by
  intro isFunction
  obtain ⟨symbol, target, entry, some⟩ := isAlias
  obtain ⟨again, entryAgain, none⟩ := isFunction
  cases entry.symm.trans entryAgain
  rw [none] at some
  cases some

theorem Chain.isFunction (chain : Chain symbols i k f) : IsFunction symbols f := by
  induction chain with
  | function _ isFunction => exact isFunction
  | earlier _ _ _ ih => exact ih
  | later _ _ _ ih => exact ih

theorem exists_refersTo (declared : TargetsDeclared symbols) (isAlias : IsAlias symbols i) :
    ∃ j, RefersTo symbols i j := by
  obtain ⟨symbol, target, entry, some⟩ := isAlias
  obtain ⟨referent, member, name⟩ := declared symbol (List.mem_of_getElem? entry) target some
  obtain ⟨j, found⟩ := List.getElem?_of_mem member
  exact ⟨j, symbol, referent, entry, found, name ▸ some⟩

theorem namesDeclared_of_target {symbol : Symbol} {target : String}
    (entry : symbols[i]? = some symbol) (aims : symbol.target? = some target)
    (declared : Declared symbols target) : NamesDeclared symbols i := by
  intro other aim found otherAims
  cases entry.symm.trans found
  cases aims.symm.trans otherAims
  exact declared

theorem need_le_iff {n : ℕ} : need symbols i ≤ n ↔ ∃ k < n, ∃ f, Chain symbols i k f := by
  unfold need
  rw [← ENat.lt_add_one_iff (ENat.natCast_ne_top n)]
  simp only [iInf_lt_iff]
  constructor
  · intro least
    obtain ⟨k, f, chain, less⟩ := least
    exact ⟨k, Nat.succ_lt_succ_iff.mp (by exact_mod_cast less), f, chain⟩
  · intro short
    obtain ⟨k, less, f, chain⟩ := short
    exact ⟨k, f, chain, by exact_mod_cast Nat.succ_lt_succ less⟩

theorem need_pos : 0 < need symbols i := by
  by_contra small
  have none : need symbols i ≤ (0 : ℕ) := not_lt.mp small
  obtain ⟨k, impossible, _⟩ := need_le_iff.mp none
  exact Nat.not_lt_zero k impossible

theorem FirstAstray.not_targetsDeclared {symbol : Symbol} {target : String}
    (astray : FirstAstray symbols symbol target) : ¬ TargetsDeclared symbols := by
  obtain ⟨aims, undeclared, i, entry, _⟩ := astray
  exact fun declared => undeclared (declared symbol (List.mem_of_getElem? entry) target aims)

section distinct

variable (distinct : (symbols.map (·.name)).Nodup)

include distinct

theorem index_unique {first second : Symbol} (entry : symbols[i]? = some first)
    (other : symbols[j]? = some second) (same : first.name = second.name) : i = j := by
  have nameI : (symbols.map (·.name))[i]? = some first.name := by simp [entry]
  have nameJ : (symbols.map (·.name))[j]? = some first.name := by simp [other, same]
  have inRange := (List.getElem?_eq_some_iff.mp nameI).1
  exact (List.getElem?_inj inRange distinct).mp (nameI.trans nameJ.symm)

theorem RefersTo.unique (refers : RefersTo symbols i j) {j' : SymbolId}
    (again : RefersTo symbols i j') : j = j' := by
  obtain ⟨symbol, referent, entry, found, target⟩ := refers
  obtain ⟨symbol', referent', entry', found', target'⟩ := again
  cases entry.symm.trans entry'
  exact index_unique distinct found found' (Option.some.inj (target.symm.trans target'))

theorem Chain.unique {k' f' : Nat} (chain : Chain symbols i k f) (again : Chain symbols i k' f') :
    k = k' ∧ f = f' := by
  induction chain generalizing k' f' with
  | function refers isFunction =>
    cases again with
    | function refers' _ => exact ⟨rfl, refers.unique distinct refers'⟩
    | earlier refers' _ rest =>
      cases refers.unique distinct refers'
      exact absurd isFunction (not_isFunction_of_isAlias rest.isAlias)
    | later refers' _ rest =>
      cases refers.unique distinct refers'
      exact absurd isFunction (not_isFunction_of_isAlias rest.isAlias)
  | earlier refers before rest ih =>
    cases again with
    | function refers' isFunction =>
      cases refers.unique distinct refers'
      exact absurd isFunction (not_isFunction_of_isAlias rest.isAlias)
    | earlier refers' _ rest' =>
      cases refers.unique distinct refers'
      exact ih rest'
    | later refers' after _ =>
      cases refers.unique distinct refers'
      exact absurd before (Nat.lt_asymm after)
  | later refers after rest ih =>
    cases again with
    | function refers' isFunction =>
      cases refers.unique distinct refers'
      exact absurd isFunction (not_isFunction_of_isAlias rest.isAlias)
    | earlier refers' before _ =>
      cases refers.unique distinct refers'
      exact absurd before (Nat.lt_asymm after)
    | later refers' _ rest' =>
      cases refers.unique distinct refers'
      obtain ⟨rfl, rfl⟩ := ih rest'
      exact ⟨rfl, rfl⟩

/-- What an alias refers to comes to the same cycle. -/
theorem EntersCycle.next (enters : EntersCycle symbols i) (refers : RefersTo symbols i j) :
    EntersCycle symbols j := by
  obtain ⟨c, reaches, cycle⟩ := enters
  rcases Relation.ReflTransGen.cases_head reaches with rfl | ⟨next, first, rest⟩
  · obtain ⟨next, first, rest⟩ := Relation.TransGen.head'_iff.mp cycle
    cases refers.unique distinct first
    exact ⟨i, rest, cycle⟩
  · cases refers.unique distinct first
    exact ⟨c, rest, cycle⟩

theorem Chain.not_entersCycle (chain : Chain symbols i k f) : ¬ EntersCycle symbols i := by
  induction chain with
  | @function i f refers isFunction =>
    intro enters
    obtain ⟨c, reaches, cycle⟩ := enters.next distinct refers
    -- A function refers to nothing, so neither a step nor a cycle starts at it.
    have leaves : ∃ next, RefersTo symbols f next := by
      rcases Relation.ReflTransGen.cases_head reaches with rfl | ⟨next, first, _⟩
      · obtain ⟨next, first, _⟩ := Relation.TransGen.head'_iff.mp cycle
        exact ⟨next, first⟩
      · exact ⟨next, first⟩
    obtain ⟨next, first⟩ := leaves
    exact not_isFunction_of_isAlias first.isAlias isFunction
  | earlier refers _ _ ih => exact fun enters => ih (enters.next distinct refers)
  | later refers _ _ ih => exact fun enters => ih (enters.next distinct refers)

omit distinct in
theorem exists_chain (declared : TargetsDeclared symbols) (ends : ¬ EntersCycle symbols i)
    (isAlias : IsAlias symbols i) : ∃ k f, Chain symbols i k f := by
  let leads (b a : Fin symbols.length) : Prop :=
    Relation.ReflTransGen (RefersTo symbols) i a ∧ Relation.TransGen (RefersTo symbols) a b
  have trans : IsTrans _ leads := ⟨fun _ _ _ first second => ⟨second.1, second.2.trans first.2⟩⟩
  have irrefl : Std.Irrefl leads := ⟨fun a cycle => ends ⟨a, cycle⟩⟩
  have wellFounded : WellFounded leads := Finite.wellFounded_of_trans_of_irrefl leads
  have inRange : ∀ {a}, IsAlias symbols a → a < symbols.length := by
    intro a isAlias
    obtain ⟨_, _, entry, _⟩ := isAlias
    exact (List.getElem?_eq_some_iff.mp entry).1
  suffices ∀ a : Fin symbols.length, Relation.ReflTransGen (RefersTo symbols) i a →
      IsAlias symbols a → ∃ k f, Chain symbols a k f from
    this ⟨i, inRange isAlias⟩ .refl isAlias
  intro a
  induction a using wellFounded.induction with
  | _ a ih =>
    intro reached isAlias
    obtain ⟨j, refers⟩ := exists_refersTo declared isAlias
    obtain ⟨_, referent, _, found, _⟩ := id refers
    have jInRange := (List.getElem?_eq_some_iff.mp found).1
    cases target : referent.target? with
    | none => exact ⟨0, j, .function refers ⟨referent, found, target⟩⟩
    | some next =>
      obtain ⟨k, f, chain⟩ := ih ⟨j, jInRange⟩ ⟨reached, .single refers⟩ (reached.tail refers)
        ⟨referent, next, found, target⟩
      rcases Nat.lt_trichotomy j a with before | same | after
      · exact ⟨k, f, .earlier refers before chain⟩
      · exact absurd ⟨j, reached.tail refers, .single (same ▸ refers)⟩ ends
      · exact ⟨k + 1, f, .later refers after chain⟩

/-- Every alias has a short chain exactly if its target is declared and chains are neither cyclic nor
long. -/
theorem allLead_iff {bound : Nat} :
    AllLead symbols bound ↔ TargetsDeclared symbols ∧ Settles symbols bound := by
  constructor
  · intro chains
    refine ⟨fun symbol member target some => ?_, ⟨fun i cycle => ?_, fun i k f chain => ?_⟩⟩
    · obtain ⟨i, entry⟩ := List.getElem?_of_mem member
      obtain ⟨k, _, f, chain⟩ := chains i ⟨symbol, target, entry, some⟩
      obtain ⟨j, again, referent, entryAgain, found, sameTarget⟩ := chain.refersTo
      cases entry.symm.trans entryAgain
      exact ⟨referent, List.mem_of_getElem? found, Option.some.inj (sameTarget.symm.trans some)⟩
    · obtain ⟨next, first, _⟩ := Relation.TransGen.head'_iff.mp cycle
      obtain ⟨k, _, f, chain⟩ := chains i first.isAlias
      exact chain.not_entersCycle distinct ⟨i, .refl, cycle⟩
    · obtain ⟨k', short, f', chain'⟩ := chains i chain.isAlias
      obtain ⟨rfl, rfl⟩ := chain.unique distinct chain'
      exact short
  · intro both i isAlias
    obtain ⟨declared, settles⟩ := both
    obtain ⟨k, f, chain⟩ :=
      exists_chain declared (fun ⟨c, _, cycle⟩ => settles.acyclic c cycle) isAlias
    exact ⟨k, settles.short i k f chain, f, chain⟩

theorem Chain.need_eq (chain : Chain symbols i k f) : need symbols i = k + 1 := by
  refine le_antisymm ?_ ?_
  · exact_mod_cast need_le_iff.mpr ⟨k, Nat.lt_succ_self k, f, chain⟩
  · refine le_iInf fun k' => le_iInf fun f' => le_iInf fun chain' => ?_
    obtain ⟨rfl, -⟩ := chain.unique distinct chain'
    exact le_rfl

theorem need_eq_top_iff (declared : TargetsDeclared symbols) (isAlias : IsAlias symbols i) :
    need symbols i = ⊤ ↔ EntersCycle symbols i := by
  constructor
  · intro infinite
    by_contra ends
    obtain ⟨k, f, chain⟩ := exists_chain declared ends isAlias
    rw [chain.need_eq distinct] at infinite
    exact ENat.natCast_ne_top (k + 1) infinite
  · intro enters
    by_contra finite
    obtain ⟨n, needs⟩ := ENat.ne_top_iff_exists.mp finite
    obtain ⟨k, _, f, chain⟩ := need_le_iff.mp needs.ge
    exact chain.not_entersCycle distinct enters

end distinct

end StagedLowering.Aliases
