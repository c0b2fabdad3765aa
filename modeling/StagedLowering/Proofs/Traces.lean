import StagedLowering.Proofs.ModuleLowering

/-!
# Tracing nodes back

What has become of the nodes of a module when its files are lowered: the calls that are reachable in
the end were so before, and each has the target it had or the function its callee names
(`Module.Readied.callsFrom`). `Module.verify_ok_iff` says what a verified module is like.
-/

namespace StagedLowering

variable {table : SymbolTable} {file other : File}

theorem SymbolTable.bind_call (table : SymbolTable) (callee : String) (old : Option SymbolId) :
    table.bind (.call callee old) = .call callee (old.or (table.functionFor callee)) := by
  cases old with
  | none => rfl
  | some target => rfl

namespace File

structure Traced (table : SymbolTable) (file other : File) : Prop where
  rebound : file.Rebound (fun kind => kind.isSynonym || kind.isCall) other
  calls : ∀ id callee old, file.Reachable id → file.kind? id = some (.call callee old) →
    other.kind? id = some (.call callee (old.or (table.functionFor callee)))

theorem Rebound.traced {last : File} (resolved : file.Rebound NodeKind.isSynonym other)
    (bound : other.Bound table last) : file.Traced table last where
  rebound := by
    refine (carried_rebound _).trans (resolved.mono fun kind fixed => ?_)
      (bound.rebound.mono fun kind fixed => ?_)
    · exact (Bool.or_eq_false_iff.mp fixed).1
    · exact (Bool.or_eq_false_iff.mp fixed).2
  calls id callee old reachable kind := by
    have same := resolved.others id _ kind rfl
    rw [bound.kinds id (resolved.reachable_iff.mpr reachable), same, Option.map_some,
      SymbolTable.bind_call]

/-- The calls of a lowered file were calls before, and each has the target it had or else the
function that its callee names. -/
def CallsFrom (table : SymbolTable) (file lowered : File) : Prop :=
  ∀ id callee target, lowered.Reachable id → lowered.kind? id = some (.call callee target) →
    file.Reachable id ∧ ∃ old, file.kind? id = some (.call callee old) ∧
      target = old.or (table.functionFor callee)

theorem Traced.callsFrom (traced : file.Traced table other) (lowerable : other.Lowerable 0) :
    file.CallsFrom table (other.lowered 0) := by
  intro id callee target reachable kind
  have plain := isTemporary_of_isCall (isCall_iff.mpr ⟨callee, target, kind⟩)
  obtain ⟨repaired, same⟩ := lowerable.old reachable plain
  have before := traced.rebound.reachable_iff.mp (reachable_of_repaired repaired)
  have last : other.kind? id = some (.call callee target) := same.symm.trans kind
  obtain ⟨old, found⟩ := exists_call_of_unbound (traced.rebound.unbound id) last
  have now := traced.calls id callee old before found
  rw [last] at now
  cases now
  exact ⟨before, old, found, rfl⟩

end File

namespace Module.Readied

variable {rounds : Nat} {m resolved : Module} {files : List File}
  (ready : m.Readied rounds table resolved files)

include ready

theorem traced : List.Forall₂ (File.Traced table) m.files files := by
  refine (forall₂_comp ready.rebound.2 ready.bound).imp fun file last between => ?_
  obtain ⟨middle, resolved, bound⟩ := between
  exact resolved.traced bound

theorem callsFrom (lowerable : ∀ file ∈ files, file.Lowerable 0) :
    List.Forall₂ (File.CallsFrom table) m.files (files.map (File.lowered 0)) := by
  rw [List.forall₂_map_right_iff]
  have passing := (List.forall₂_and_left _ _).mpr ⟨lowerable, ready.traced.flip⟩
  refine passing.flip.imp fun file other both => ?_
  obtain ⟨passes, traced⟩ := both
  exact File.Traced.callsFrom traced passes

end Module.Readied

/-! ### Verification -/

theorem File.checkCalls_ok_iff :
    file.checkCalls table = .ok () ↔ ∀ id callee target, file.Reachable id →
      file.kind? id = some (.call callee target) →
      ∃ function, target = some function ∧ table.isFunction function = true := by
  unfold checkCalls
  rw [forM_ok_iff]
  constructor
  · intro passes id callee target reachable kind
    have checked := passes id (mem_preorder.mpr reachable)
    rw [kind] at checked
    dsimp only at checked
    split at checked
    · next function => exact (Option.any_eq_true _ _).mp function
    · cases checked
  · intro bound id member
    split
    · next callee target kind =>
      have function := bound id callee target (mem_preorder.mp member) kind
      rw [if_pos ((Option.any_eq_true _ _).mpr function)]
    · rfl

theorem Module.verify_ok_iff {m : Module} :
    m.verify table = .ok () ↔ m.checkLinks = .ok () ∧ ∀ file ∈ m.files, file.checkCalls table = .ok () := by
  rw [← forM_ok_iff]
  show (m.checkLinks >>= fun _ => m.files.forM (·.checkCalls table)) = .ok () ↔ _
  cases m.checkLinks with
  | error violation => exact ⟨nofun, fun both => nomatch both.1⟩
  | ok done => exact ⟨fun later => ⟨rfl, later⟩, fun both => both.2⟩

end StagedLowering
