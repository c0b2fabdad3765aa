import StagedLowering.Proofs.Reachable
import StagedLowering.Proofs.Rebinding

/-!
# Bound calls

Calls can be bound exactly if every reachable one without a target names a function
(`bindCalls_cases`). A call that has a target already keeps it, whatever its callee names
(`SymbolTable.bind`).
-/

namespace StagedLowering

/-- The kind that a node has once calls are bound. -/
def SymbolTable.bind (table : SymbolTable) : NodeKind → NodeKind
  | .call callee none => .call callee (table.functionFor callee)
  | kind => kind

namespace File

def Bindable (symbols : SymbolTable) (file : File) (id : NodeId) : Prop :=
  ∀ callee, file.kind? id = some (.call callee none) → ∃ f, symbols.functionFor callee = some f

structure Bound (symbols : SymbolTable) (file other : File) : Prop where
  rebound : file.Rebound NodeKind.isCall other
  kinds : ∀ id, file.Reachable id → other.kind? id = (file.kind? id).map symbols.bind

variable {symbols : SymbolTable} {file : File} {id other : NodeId} {callee : String}

theorem map_bind_of_not_open (notOpen : ∀ callee, file.kind? id ≠ some (.call callee none)) :
    (file.kind? id).map symbols.bind = file.kind? id := by
  cases found : file.kind? id with
  | none => rfl
  | some kind =>
    cases kind with
    | call callee target =>
      cases target with
      | none => exact absurd found (notOpen callee)
      | some target => rfl
    | _ => rfl

/-- Binding the first call on its own changes nothing for the others, even if it comes again. -/
theorem map_bind_setKind {f : SymbolId} (found : file.kind? id = some (.call callee none))
    (known : symbols.functionFor callee = some f) (other : NodeId) :
    ((file.setKind id (.call callee (some f))).kind? other).map symbols.bind =
      (file.kind? other).map symbols.bind := by
  rw [kind?_setKind (lt_of_kind? found)]
  split
  · next same =>
    rw [← same, found, Option.map_some, Option.map_some, SymbolTable.bind, SymbolTable.bind, known]
    exact nofun
  · rfl

structure BoundAmong (symbols : SymbolTable) (ids : List NodeId) (file other : File) : Prop where
  rebound : file.Rebound NodeKind.isCall other
  kinds : ∀ id, other.kind? id =
    if id ∈ ids then (file.kind? id).map symbols.bind else file.kind? id

/-- The first of some nodes that is a call without a target whose callee names no function. -/
structure FirstUnknown (symbols : SymbolTable) (file : File) (ids before : List NodeId) (id : NodeId)
    (callee : String) : Prop where
  first : ∃ after, ids = before ++ id :: after
  passed : ∀ other ∈ before, file.Bindable symbols other
  open_ : file.kind? id = some (.call callee none)
  unknown : symbols.functionFor callee = none

theorem FirstUnknown.not_bindable {ids before : List NodeId}
    (stuck : file.FirstUnknown symbols ids before id callee) : ¬ file.Bindable symbols id := by
  intro bindable
  obtain ⟨f, known⟩ := bindable callee stuck.open_
  rw [stuck.unknown] at known
  cases known

theorem FirstUnknown.mem {ids before : List NodeId}
    (stuck : file.FirstUnknown symbols ids before id callee) : id ∈ ids := by
  obtain ⟨after, rfl⟩ := stuck.first
  simp

theorem BoundAmong.bound {last : File} (among : file.BoundAmong symbols file.preorder last) :
    file.Bound symbols last where
  rebound := among.rebound
  kinds id reachable := by rw [among.kinds, if_pos (mem_preorder.mpr reachable)]

theorem boundAmong_nil (symbols : SymbolTable) (file : File) : file.BoundAmong symbols [] file where
  rebound := (carried_rebound _).refl file
  kinds id := by rw [if_neg List.not_mem_nil]

theorem bindable_setKind {f : SymbolId} (found : file.kind? id = some (.call callee none))
    (known : symbols.functionFor callee = some f) :
    (file.setKind id (.call callee (some f))).Bindable symbols other ↔ file.Bindable symbols other := by
  unfold Bindable
  rw [kind?_setKind (lt_of_kind? found)]
  split
  · next same =>
    subst same
    refine ⟨fun _ again foundAgain => ?_, fun _ again foundAgain => by cases foundAgain⟩
    cases found.symm.trans foundAgain
    exact ⟨f, known⟩
  · rfl

/-- A call that is bound first is bound among the others. -/
theorem BoundAmong.cons_open {f : SymbolId} {ids : List NodeId} {last : File}
    (found : file.kind? id = some (.call callee none))
    (known : symbols.functionFor callee = some f)
    (among : (file.setKind id (.call callee (some f))).BoundAmong symbols ids last) :
    file.BoundAmong symbols (id :: ids) last where
  rebound := by
    have first : file.Rebound NodeKind.isCall (file.setKind id (.call callee (some f))) :=
      rebound_setKind found rfl rfl
    exact (carried_rebound _).trans first among.rebound
  kinds other := by
    rw [among.kinds, map_bind_setKind found known]
    by_cases same : other = id
    · subst same
      rw [if_pos List.mem_cons_self, kind?_setKind (lt_of_kind? found), if_pos rfl, found,
        Option.map_some, SymbolTable.bind, known, ite_self]
    · rw [kind?_setKind (lt_of_kind? found), if_neg (Ne.symm same)]
      simp [same]

/-- Another node counts as bound among the others, since binding keeps it. -/
theorem BoundAmong.cons_closed {ids : List NodeId} {last : File}
    (closed : ∀ callee, file.kind? id ≠ some (.call callee none))
    (among : file.BoundAmong symbols ids last) : file.BoundAmong symbols (id :: ids) last where
  rebound := among.rebound
  kinds other := by
    rw [among.kinds]
    by_cases same : other = id
    · subst same
      rw [if_pos List.mem_cons_self, map_bind_of_not_open closed, ite_self]
    · simp [same]

/-- The calls among some nodes are bound up to the first whose callee names no function. -/
theorem bindCalls_cases (symbols : SymbolTable) (file : File) (ids : List NodeId) :
    ((∀ id ∈ ids, file.Bindable symbols id) ∧ ∃ last count,
        file.bindCalls symbols ids = (last, .ok count) ∧ file.BoundAmong symbols ids last) ∨
      ∃ before id callee last, file.FirstUnknown symbols ids before id callee ∧
        file.bindCalls symbols ids =
          (last, .error (.reported (.unknownCallee callee) (file.locate id))) ∧
        file.BoundAmong symbols before last := by
  fun_induction bindCalls symbols file ids with
  | case1 file =>
    exact .inl ⟨fun id none => absurd none List.not_mem_nil, file, 0, rfl, boundAmong_nil symbols file⟩
  | case2 file id rest callee found unknown =>
    refine .inr ⟨[], id, callee, file, ⟨⟨rest, rfl⟩, ?_, found, unknown⟩, rfl, boundAmong_nil symbols file⟩
    exact fun other none => absurd none List.not_mem_nil
  | case3 file id rest callee found f known last count ran ih =>
    have bindable : file.Bindable symbols id := by
      intro again foundAgain
      cases found.symm.trans foundAgain
      exact ⟨f, known⟩
    rcases ih with ⟨passes, final, total, ended, among⟩ |
      ⟨before, other, unknown, final, stuck, ended, among⟩
    · cases ran.symm.trans ended
      refine .inl ⟨List.forall_mem_cons.mpr ⟨bindable, fun other member => ?_⟩, last, total + 1, rfl,
        among.cons_open found known⟩
      exact (bindable_setKind found known).mp (passes other member)
    · cases ran.symm.trans ended
      obtain ⟨after, rfl⟩ := stuck.first
      have different : id ≠ other := by
        rintro rfl
        have open_ := stuck.open_
        rw [kind?_setKind (lt_of_kind? found), if_pos rfl] at open_
        cases open_
      have open_ := stuck.open_
      rw [kind?_setKind (lt_of_kind? found), if_neg different] at open_
      refine .inr ⟨id :: before, other, unknown, last, ⟨⟨after, rfl⟩,
        List.forall_mem_cons.mpr ⟨bindable, fun next member => ?_⟩, open_, stuck.unknown⟩, rfl,
        among.cons_open found known⟩
      exact (bindable_setKind found known).mp (stuck.passed next member)
  | case4 file id rest notOpen ih =>
    have closed : ∀ callee, file.kind? id ≠ some (.call callee none) := notOpen
    have bindable : file.Bindable symbols id := fun callee found => absurd found (closed callee)
    rcases ih with ⟨passes, last, count, ended, among⟩ |
      ⟨before, other, unknown, last, stuck, ended, among⟩
    · exact .inl ⟨List.forall_mem_cons.mpr ⟨bindable, passes⟩, last, count, ended,
        among.cons_closed closed⟩
    · obtain ⟨after, rfl⟩ := stuck.first
      exact .inr ⟨id :: before, other, unknown, last, ⟨⟨after, rfl⟩,
        List.forall_mem_cons.mpr ⟨bindable, stuck.passed⟩, stuck.open_, stuck.unknown⟩, ended,
        among.cons_closed closed⟩

end File

/-! ### All files -/

/-- Files are bound in order up to the first call whose callee names no function. -/
theorem bindFiles_cases (symbols : SymbolTable) (files : List File) :
    ((∀ file ∈ files, ∀ id, file.Reachable id → file.Bindable symbols id) ∧ ∃ last count,
        bindFiles symbols files = (last, .ok count) ∧
          List.Forall₂ (fun file other => file.BoundAmong symbols file.preorder other) files last) ∨
      ∃ passed file rest, files = passed ++ file :: rest ∧
        (∀ file ∈ passed, ∀ id, file.Reachable id → file.Bindable symbols id) ∧
        ∃ before id callee, file.FirstUnknown symbols file.preorder before id callee ∧
          ∃ others last, bindFiles symbols files = (others ++ last :: rest,
              .error (.reported (.unknownCallee callee) (file.locate id))) ∧
            List.Forall₂ (fun file other => file.BoundAmong symbols file.preorder other) passed others ∧
            file.BoundAmong symbols before last := by
  induction files with
  | nil => exact .inl ⟨fun _ none => absurd none List.not_mem_nil, [], 0, rfl, .nil⟩
  | cons file rest ih =>
    rw [bindFiles]
    rcases file.bindCalls_cases symbols file.preorder with
      ⟨passes, last, count, ran, among⟩ | ⟨before, id, callee, last, stuck, ran, among⟩
    · rw [ran]
      have bindable : ∀ id, file.Reachable id → file.Bindable symbols id :=
        fun id reachable => passes id (File.mem_preorder.mpr reachable)
      rcases ih with ⟨all, files, more, ended, bound⟩ |
        ⟨passed, first, later, rfl, all, before, id, callee, stuck, others, partly, ended, bound, among'⟩
      · rw [ended]
        exact .inl ⟨List.forall_mem_cons.mpr ⟨bindable, all⟩, last :: files, _, rfl,
          .cons among bound⟩
      · rw [ended]
        exact .inr ⟨file :: passed, first, later, rfl, List.forall_mem_cons.mpr ⟨bindable, all⟩,
          before, id, callee, stuck, last :: others, partly, rfl, .cons among bound, among'⟩
    · rw [ran]
      exact .inr ⟨[], file, rest, rfl, fun _ none => absurd none List.not_mem_nil, before, id, callee,
        stuck, [], last, rfl, .nil, among⟩

/-- However the binding of calls ends, it has changed what calls are bound to and nothing else. -/
theorem bindCalls_rebound {σ : Type} :
    (bindCalls : Run σ Module Failure Unit).Keeps (OnUnits (Module.Rebound NodeKind.isCall)) := by
  intro state
  rw [bindCalls_apply]
  rcases bindFiles_cases state.context.symbols state.unit.files with
    ⟨-, files, count, ran, bound⟩ |
      ⟨passed, file, rest, split, -, before, id, callee, -, others, last, ran, bound, among⟩
  · rw [ran]
    exact ⟨rfl, bound.imp fun _ _ among => among.rebound⟩
  · rw [ran]
    refine ⟨rfl, ?_⟩
    rw [split]
    refine List.rel_append (bound.imp fun _ _ among => among.rebound) (.cons among.rebound ?_)
    exact List.forall₂_same.mpr fun file _ => (File.carried_rebound _).refl file

/-- Binding succeeds exactly if every reachable call without a target names a function. -/
theorem bindCalls_cases {σ : Type} (state : State σ Module) :
    ((∀ file ∈ state.unit.files, ∀ id, file.Reachable id →
          file.Bindable state.context.symbols id) ∧ ∃ files count,
        bindCalls state = (.ok (), { state with
          unit := { state.unit with files }, context := state.context.bump "calls_bound" count }) ∧
        List.Forall₂ (File.Bound state.context.symbols) state.unit.files files) ∨
      ((∃ file ∈ state.unit.files, ∃ id, file.Reachable id ∧
          ¬ file.Bindable state.context.symbols id) ∧ ∃ failure last,
        bindCalls state = (.error (.error failure), last)) := by
  rw [bindCalls_apply]
  rcases bindFiles_cases state.context.symbols state.unit.files with
    ⟨passes, files, count, ran, bound⟩ |
      ⟨passed, file, rest, split, -, before, id, callee, stuck, others, last, ran, -, -⟩
  · rw [ran]
    exact .inl ⟨passes, files, count, rfl, bound.imp fun _ _ among => among.bound⟩
  · rw [ran]
    exact .inr ⟨⟨file, by simp [split], id, File.mem_preorder.mp stuck.mem, stuck.not_bindable⟩, _, _, rfl⟩

end StagedLowering
