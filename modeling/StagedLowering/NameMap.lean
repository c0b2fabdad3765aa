/-!
# Maps by name

Entries are kept in the order of their names, code point by code point, so two maps that answer
alike are equal. `get?_insert` and `get?_erase` say what each change does to a lookup.
-/

namespace StagedLowering

theorem NameMap.sorted_nil {α : Type} : ([] : List (String × α)).Pairwise (·.1 < ·.1) := .nil

structure NameMap (α : Type) where
  entries : List (String × α) := []
  sorted : entries.Pairwise (·.1 < ·.1) := by exact NameMap.sorted_nil

namespace NameMap

variable {α : Type}

def insertEntry (name : String) (value : α) : List (String × α) → List (String × α)
  | [] => [(name, value)]
  | (key, old) :: rest =>
    if name < key then (name, value) :: (key, old) :: rest
    else if name = key then (name, value) :: rest
    else (key, old) :: insertEntry name value rest

theorem mem_insertEntry {name : String} {value : α} {entries : List (String × α)}
    {entry : String × α} (member : entry ∈ insertEntry name value entries) :
    entry = (name, value) ∨ entry ∈ entries := by
  induction entries with
  | nil => simpa [insertEntry] using member
  | cons head rest ih =>
    obtain ⟨key, old⟩ := head
    rw [insertEntry] at member
    grind

theorem sorted_insertEntry {name : String} {value : α} {entries : List (String × α)}
    (sorted : entries.Pairwise (·.1 < ·.1)) :
    (insertEntry name value entries).Pairwise (·.1 < ·.1) := by
  induction entries with
  | nil => simp [insertEntry]
  | cons head rest ih =>
    obtain ⟨key, old⟩ := head
    obtain ⟨below, sorted⟩ := List.pairwise_cons.mp sorted
    rw [insertEntry]
    split
    · next less =>
      refine List.pairwise_cons.mpr ⟨?_, List.pairwise_cons.mpr ⟨below, sorted⟩⟩
      rintro entry (_ | ⟨_, member⟩)
      · exact less
      · exact String.lt_trans less (below entry member)
    · split
      · next same => exact List.pairwise_cons.mpr ⟨same ▸ below, sorted⟩
      · next notLess notSame =>
        refine List.pairwise_cons.mpr ⟨fun entry member => ?_, ih sorted⟩
        rcases mem_insertEntry member with rfl | member
        · exact Std.lt_of_le_of_ne (String.not_lt.mp notLess) (Ne.symm notSame)
        · exact below entry member

def get? (map : NameMap α) (name : String) : Option α := map.entries.lookup name

def size (map : NameMap α) : Nat := map.entries.length

def insert (map : NameMap α) (name : String) (value : α) : NameMap α where
  entries := insertEntry name value map.entries
  sorted := sorted_insertEntry map.sorted

def erase (map : NameMap α) (name : String) : NameMap α where
  entries := map.entries.filter (·.1 != name)
  sorted := map.sorted.filter _

theorem lookup_insertEntry (name other : String) (value : α) (entries : List (String × α)) :
    (insertEntry name value entries).lookup other =
      if other = name then some value else entries.lookup other := by
  induction entries with
  | nil => grind [insertEntry]
  | cons head rest ih => grind [insertEntry]

theorem lookup_filter_ne (name other : String) (entries : List (String × α)) :
    (entries.filter (·.1 != name)).lookup other =
      if other = name then none else entries.lookup other := by
  induction entries with
  | nil => simp
  | cons head rest ih => grind

@[simp] theorem get?_insert (map : NameMap α) (name other : String) (value : α) :
    (map.insert name value).get? other = if other = name then some value else map.get? other :=
  lookup_insertEntry name other value map.entries

@[simp] theorem get?_erase (map : NameMap α) (name other : String) :
    (map.erase name).get? other = if other = name then none else map.get? other :=
  lookup_filter_ne name other map.entries

end NameMap
end StagedLowering
