import StagedLowering.Pass.Verify
import StagedLowering.Proofs.Frames
import StagedLowering.Proofs.Links

/-!
# Rebinding

Calls and aliases carry what they are bound to in their kind. A file that was rebound (`Rebound`)
differs from the old one in that alone, and only at nodes that could change.
-/

namespace StagedLowering

namespace NodeKind

def unbound : NodeKind → NodeKind
  | call callee _ => call callee none
  | synonym name target _ => synonym name target none
  | kind => kind

variable {kind : NodeKind} {name target callee : String}

theorem unbound_eq_root (same : kind.unbound = root) : kind = root := by
  cases kind <;> cases same
  rfl

theorem unbound_eq_call (same : kind.unbound = call callee none) :
    ∃ target, kind = call callee target := by
  cases kind <;> cases same
  exact ⟨_, rfl⟩

theorem unbound_eq_synonym (same : kind.unbound = synonym name target none) :
    ∃ resolved, kind = synonym name target resolved := by
  cases kind <;> cases same
  exact ⟨_, rfl⟩

end NodeKind

namespace File

variable {file other last : File} {may : NodeKind → Bool} {id : NodeId}

section unbound

variable (same : (other.kind? id).map NodeKind.unbound = (file.kind? id).map NodeKind.unbound)

include same

theorem isBlock_of_unbound : other.isBlock id = file.isBlock id := by
  have read : ∀ file : File,
      file.isBlock id = ((file.kind? id).map NodeKind.unbound).any (·.isBlock) := by
    intro file
    unfold isBlock
    rcases file.kind? id with _ | kind
    · rfl
    · cases kind <;> rfl
  rw [read other, read file, same]

theorem isTemporary_of_unbound : other.isTemporary id = file.isTemporary id := by
  have read : ∀ file : File,
      file.isTemporary id = ((file.kind? id).map NodeKind.unbound).any (·.isTemporary) := by
    intro file
    unfold isTemporary
    rcases file.kind? id with _ | kind
    · rfl
    · cases kind <;> rfl
  rw [read other, read file, same]

theorem kind?_of_unbound_root (root : file.kind? id = some .root) : other.kind? id = some .root := by
  rw [root, Option.map_some, Option.map_eq_some_iff] at same
  obtain ⟨kind, found, unbound⟩ := same
  rw [found, NodeKind.unbound_eq_root unbound]

theorem exists_call_of_unbound {callee : String} {target : Option SymbolId}
    (call : other.kind? id = some (.call callee target)) :
    ∃ old, file.kind? id = some (.call callee old) := by
  rw [call, Option.map_some, eq_comm, Option.map_eq_some_iff] at same
  obtain ⟨kind, found, unbound⟩ := same
  obtain ⟨old, rfl⟩ := NodeKind.unbound_eq_call unbound
  exact ⟨old, found⟩

theorem exists_synonym_of_unbound {name target : String} {resolved : Option SymbolId}
    (synonym : other.kind? id = some (.synonym name target resolved)) :
    ∃ old, file.kind? id = some (.synonym name target old) := by
  rw [synonym, Option.map_some, eq_comm, Option.map_eq_some_iff] at same
  obtain ⟨kind, found, unbound⟩ := same
  obtain ⟨old, rfl⟩ := NodeKind.unbound_eq_synonym unbound
  exact ⟨old, found⟩

end unbound

/-- The same file but for what nodes are bound to, if their kinds are among those that may change. -/
structure Rebound (may : NodeKind → Bool) (file other : File) : Prop where
  address : other.address = file.address
  size : other.size = file.size
  children : ∀ id, other.children id = file.children id
  parent? : ∀ id, other.parent? id = file.parent? id
  unbound : ∀ id, (other.kind? id).map NodeKind.unbound = (file.kind? id).map NodeKind.unbound
  others : ∀ id kind, file.kind? id = some kind → may kind = false → other.kind? id = some kind

theorem carried_rebound (may : NodeKind → Bool) : Carried (Rebound may) where
  refl _ := ⟨rfl, rfl, fun _ => rfl, fun _ => rfl, fun _ => rfl, fun _ _ found _ => found⟩
  trans first second := {
    address := second.address.trans first.address
    size := second.size.trans first.size
    children := fun id => (second.children id).trans (first.children id)
    parent? := fun id => (second.parent? id).trans (first.parent? id)
    unbound := fun id => (second.unbound id).trans (first.unbound id)
    others := fun id kind found fixed => second.others id kind (first.others id kind found fixed) fixed }

theorem rebound_setKind {old new : NodeKind} (found : file.kind? id = some old)
    (same : new.unbound = old.unbound) (changes : may old = true) :
    file.Rebound may (file.setKind id new) where
  address := rfl
  size := size_setKind ..
  children other := children_setKind ..
  parent? other := parent?_setKind ..
  unbound other := by
    rw [kind?_setKind (lt_of_kind? found)]
    split
    · next here =>
      subst here
      rw [found, Option.map_some, Option.map_some, same]
    · rfl
  others other kind present fixed := by
    rw [kind?_setKind (lt_of_kind? found), if_neg]
    · exact present
    · rintro rfl
      cases found.symm.trans present
      rw [changes] at fixed
      cases fixed

namespace Rebound

variable (rebound : file.Rebound may other)

include rebound

theorem mono {more : NodeKind → Bool} (wider : ∀ kind, more kind = false → may kind = false) :
    file.Rebound more other :=
  { rebound with others := fun id kind found fixed => rebound.others id kind found (wider kind fixed) }

theorem reachable_iff : other.Reachable id ↔ file.Reachable id :=
  reachable_congr rebound.size rebound.children

theorem treeShaped (shaped : file.TreeShaped) : other.TreeShaped :=
  shaped.congr rebound.size rebound.children

end Rebound

end File

/-! ### Aliases -/

namespace Module

def Rebound (may : NodeKind → Bool) : Module → Module → Prop := FileByFile (File.Rebound may)

theorem carried_rebound (may : NodeKind → Bool) : Carried (Rebound may) :=
  (File.carried_rebound may).fileByFile

theorem rebound_resolveAt {m resolved : Module} {place : Location} {function : SymbolId}
    (done : m.resolveAt place function = some resolved) :
    m.Rebound NodeKind.isSynonym resolved := by
  obtain ⟨file, found, rfl | ⟨name, target, old, kind, rfl⟩⟩ := resolveAt_some done
  · exact (carried_rebound _).refl _
  · exact (File.carried_rebound _).setFile found (File.rebound_setKind kind rfl rfl)

theorem rebound_resolveAlias {symbols changed : SymbolTable} {m resolved : Module}
    {id : SymbolId} (done : resolveAlias symbols m id = .ok (some (changed, resolved))) :
    m.Rebound NodeKind.isSynonym resolved := by
  unfold resolveAlias at done
  split at done
  · split at done
    · cases done
    · split at done
      · cases done
      · split at done
        · cases done
        · next written =>
          cases done
          exact rebound_resolveAt written
  · cases done
    exact (carried_rebound _).refl _

theorem rebound_resolveAliases (symbols : SymbolTable) (m : Module) (residual : Nat)
    (ids : List SymbolId) :
    m.Rebound NodeKind.isSynonym (resolveAliases symbols m residual ids).2.1 := by
  fun_induction resolveAliases symbols m residual ids with
  | case1 symbols m residual => exact (carried_rebound _).refl m
  | case2 symbols m residual id rest stop failed => exact (carried_rebound _).refl m
  | case3 symbols m residual id rest pending ih => exact ih
  | case4 symbols m residual id rest changed resolved done ih =>
    exact (carried_rebound _).trans (rebound_resolveAlias done) ih

end Module

end StagedLowering
