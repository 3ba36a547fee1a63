/-! Values under names. A name stands for one value: putting another one there replaces
it. The entries are in no order that means anything; whoever wants the names in order
has them sorted. -/

namespace RoomCipher

/-- Names, none of them twice, each with its value. -/
structure Roster (α : Type) where
  entries : List (String × α)
  distinct : (entries.map (·.1)).Nodup

namespace Roster

variable {α : Type}

def empty : Roster α := ⟨[], .nil⟩

def get? (roster : Roster α) (name : String) : Option α :=
  roster.entries.lookup name

def erase (roster : Roster α) (name : String) : Roster α where
  entries := roster.entries.filter fun entry => entry.1 ≠ name
  distinct := roster.distinct.sublist (List.filter_sublist.map _)

def put (roster : Roster α) (name : String) (value : α) : Roster α where
  entries := (name, value) :: (roster.erase name).entries
  distinct := by
    refine List.nodup_cons.mpr ⟨fun member => ?_, (roster.erase name).distinct⟩
    obtain ⟨entry, kept, same⟩ := List.mem_map.mp member
    exact of_decide_eq_true (List.mem_filter.mp kept).2 same

/-- The names in ascending order. -/
def names (roster : Roster α) : List String :=
  (roster.entries.map (·.1)).mergeSort fun name other => decide (name ≤ other)

def size (roster : Roster α) : Nat :=
  roster.entries.length

end Roster

end RoomCipher
