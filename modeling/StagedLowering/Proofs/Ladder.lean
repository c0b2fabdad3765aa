import StagedLowering.Proofs.Aliases
import StagedLowering.Proofs.Declaring
import StagedLowering.Proofs.TreeShape

/-!
# Ladders

A ladder is a module with one chain of aliases, each declared right before what it refers to. Every
step of the chain is one to an alias declared later, so a ladder of `n` aliases takes `n` rounds
(`Module.need_ladder`), although nothing in it is cyclic.
-/

namespace StagedLowering

open Aliases

def Forest.row : List NodeId → Forest
  | [] => .nil
  | id :: rest => .cons id .nil (row rest)

theorem Forest.roots_row (ids : List NodeId) : (row ids).roots = ids := by
  induction ids with
  | nil => rfl
  | cons id rest ih => rw [row, roots, ih]

theorem Forest.ids_row (ids : List NodeId) : (row ids).ids = ids := by
  induction ids with
  | nil => rfl
  | cons id rest ih => rw [row, Forest.ids, ih, Forest.ids, List.nil_append]

theorem File.spells_row {file : File} {ids : List NodeId}
    (leaves : ∀ id ∈ ids, file.children id = []) : file.Spells (.row ids) := by
  induction ids with
  | nil => trivial
  | cons id rest ih =>
    rw [List.forall_mem_cons] at leaves
    exact ⟨leaves.1, trivial, ih leaves.2⟩

def rungName (i : Nat) : String := String.ofList (List.replicate (i + 1) 'a')

theorem rungName_inj {i j : Nat} (same : rungName i = rungName j) : i = j := by
  have lengths := congrArg List.length (String.ofList_injective same)
  rw [List.length_replicate, List.length_replicate] at lengths
  exact Nat.succ.inj lengths

/-- Of a ladder of `n` aliases the symbols before `n` refer to the next one, and symbol `n` is a
function. -/
def Symbol.rung (n i : Nat) : Symbol where
  name := rungName i
  kind := if i < n then .synonym (rungName (i + 1)) none else .function
  declaredAt := ⟨0, "main", i + 1⟩

theorem Symbol.target?_rung {n i : Nat} {target : String} :
    (Symbol.rung n i).target? = some target ↔ i < n ∧ target = rungName (i + 1) := by
  by_cases before : i < n
  · simp [Symbol.target?, rung, before, eq_comm]
  · simp [Symbol.target?, rung, before]

def File.ladder (n : Nat) : File where
  path := "main"
  nodes := ({ kind := .root, children := List.range' 1 (n + 1) } ::
    (List.range (n + 1)).map fun i => { kind := (Symbol.rung n i).nodeKind, parent := some root }).toArray
  rooted := Nat.succ_pos _

def Module.ladder (n : Nat) : Module where
  name := "program"
  files := [File.ladder n]

variable {n i j : Nat}

namespace File

theorem node?_ladder (inside : i ≤ n) : (ladder n).node? (i + 1) =
    some { kind := (Symbol.rung n i).nodeKind, parent := some root } := by
  simp [node?, ladder, Nat.lt_succ_of_le inside]

theorem isTree_ladder (n : Nat) : (ladder n).IsTree (.row (List.range' 1 (n + 1))) where
  spells := by
    refine ⟨(Forest.roots_row _).symm, spells_row fun id member => ?_, trivial⟩
    obtain ⟨i, inside, rfl⟩ := List.mem_range'.mp member
    rw [Nat.one_mul, Nat.add_comm, children, node?_ladder (Nat.le_of_lt_succ inside)]
    rfl
  nodup := by
    rw [Forest.ids_row]
    exact List.nodup_cons.mpr ⟨by simp [root], List.nodup_range'⟩
  inRange id member := by
    rw [Forest.ids_row, List.mem_range'_1] at member
    have size : (ladder n).size = 1 + (n + 1) := by simp [File.size, ladder, Nat.add_comm]
    rw [size]
    exact member.2

theorem declaration?_ladder (inside : i ≤ n) :
    (ladder n).declaration? (i + 1) = some (Symbol.rung n i) := by
  have kind : (ladder n).kind? (i + 1) = some (Symbol.rung n i).nodeKind := by
    rw [kind?, node?_ladder inside, Option.map_some]
  unfold declaration?
  rw [kind]
  by_cases refers : i < n
  · simp only [Symbol.nodeKind, Symbol.rung, if_pos refers]
    rfl
  · simp only [Symbol.nodeKind, Symbol.rung, if_neg refers]
    rfl

end File

namespace Module

theorem numbered_ladder (n : Nat) : (ladder n).Numbered := numbered_singleton rfl

theorem declarations_ladder (n : Nat) :
    (ladder n).declarations = (List.range (n + 1)).map (Symbol.rung n) := by
  have file : (File.ladder n).declarations = (List.range (n + 1)).map (Symbol.rung n) := by
    rw [File.declarations, (File.isTree_ladder n).preorder_eq, Forest.ids_row]
    have rootless : (File.ladder n).declaration? File.root = none := rfl
    rw [List.filterMap_cons_none rootless, List.range'_eq_map_range, List.filterMap_map,
      ← List.filterMap_eq_map]
    refine List.filterMap_congr fun i member => ?_
    rw [Function.comp_apply, Nat.add_comm]
    exact File.declaration?_ladder (Nat.le_of_lt_succ (List.mem_range.mp member))
  rw [Module.declarations, ladder, List.flatMap_singleton, file]

theorem getElem?_ladder {symbol : Symbol} :
    (ladder n).declarations[i]? = some symbol ↔ i ≤ n ∧ Symbol.rung n i = symbol := by
  rw [declarations_ladder, List.getElem?_map, Option.map_eq_some_iff]
  constructor
  · rintro ⟨k, found, rfl⟩
    obtain ⟨inside, rfl⟩ := List.getElem?_eq_some_iff.mp found
    rw [List.length_range] at inside
    rw [List.getElem_range]
    exact ⟨Nat.le_of_lt_succ inside, rfl⟩
  · rintro ⟨inside, rfl⟩
    exact ⟨i, List.getElem?_range (Nat.lt_succ_of_le inside), rfl⟩

theorem distinct_ladder (n : Nat) : ((ladder n).declarations.map (·.name)).Nodup := by
  rw [declarations_ladder, List.map_map]
  exact List.nodup_range.map fun i j same => rungName_inj same

theorem isAlias_ladder : IsAlias (ladder n).declarations i ↔ i < n := by
  constructor
  · rintro ⟨symbol, target, entry, aims⟩
    obtain ⟨-, rfl⟩ := getElem?_ladder.mp entry
    exact (Symbol.target?_rung.mp aims).1
  · intro before
    exact ⟨_, _, getElem?_ladder.mpr ⟨Nat.le_of_lt before, rfl⟩,
      Symbol.target?_rung.mpr ⟨before, rfl⟩⟩

theorem refersTo_ladder : RefersTo (ladder n).declarations i j ↔ i < n ∧ j = i + 1 := by
  constructor
  · rintro ⟨symbol, referent, entry, found, aims⟩
    obtain ⟨-, rfl⟩ := getElem?_ladder.mp entry
    obtain ⟨-, rfl⟩ := getElem?_ladder.mp found
    obtain ⟨before, same⟩ := Symbol.target?_rung.mp aims
    exact ⟨before, rungName_inj same⟩
  · rintro ⟨before, rfl⟩
    exact ⟨_, _, getElem?_ladder.mpr ⟨Nat.le_of_lt before, rfl⟩, getElem?_ladder.mpr ⟨before, rfl⟩,
      Symbol.target?_rung.mpr ⟨before, rfl⟩⟩

theorem targetsDeclared_ladder (n : Nat) : TargetsDeclared (ladder n).declarations := by
  intro symbol member target aims
  obtain ⟨i, entry⟩ := List.getElem?_of_mem member
  obtain ⟨-, rfl⟩ := getElem?_ladder.mp entry
  obtain ⟨before, rfl⟩ := Symbol.target?_rung.mp aims
  exact ⟨_, List.mem_of_getElem? (getElem?_ladder.mpr ⟨before, rfl⟩), rfl⟩

/-- What refers to what comes before it. -/
theorem acyclic_ladder (n i : Nat) :
    ¬ Relation.TransGen (RefersTo (ladder n).declarations) i i := by
  intro cycle
  have before : ∀ {j}, Relation.TransGen (RefersTo (ladder n).declarations) i j → i < j := by
    intro j path
    induction path with
    | single first =>
      rw [(refersTo_ladder.mp first).2]
      exact Nat.lt_succ_self i
    | tail _ last ih =>
      rw [(refersTo_ladder.mp last).2]
      exact Nat.lt_succ_of_lt ih
  exact Nat.lt_irrefl i (before cycle)

/-- By the steps that are left to the function. -/
theorem chain_ladder {k : Nat} (left : i + k + 1 = n) : Chain (ladder n).declarations i k n := by
  induction k generalizing i with
  | zero =>
    refine .function (refersTo_ladder.mpr ⟨by omega, by omega⟩) ?_
    refine ⟨_, getElem?_ladder.mpr ⟨Nat.le_refl n, rfl⟩, ?_⟩
    exact Option.eq_none_iff_forall_ne_some.mpr fun target aims =>
      Nat.lt_irrefl n (Symbol.target?_rung.mp aims).1
  | succ k ih =>
    exact .later (refersTo_ladder.mpr ⟨by omega, rfl⟩) (Nat.lt_succ_self i) (ih (by omega))

theorem need_ladder (before : i < n) : need (ladder n).declarations i = (n - i : ℕ) := by
  obtain ⟨k, left⟩ := Nat.exists_eq_add_of_lt before
  have rounds : n - i = k + 1 := by omega
  rw [rounds, (chain_ladder left.symm).need_eq (distinct_ladder n)]
  rfl

theorem need_ladder_le (isAlias : IsAlias (ladder n).declarations i) :
    need (ladder n).declarations i ≤ n := by
  rw [need_ladder (isAlias_ladder.mp isAlias)]
  exact_mod_cast Nat.sub_le n i

end Module

end StagedLowering
