import RoomCipher.Roster

/-! Looking things up in a roster. What is found under a name is what was put there
last, whatever was put or erased under other names. However the entries lie, their
names come out in ascending order, each of them once, and there are as many names as
entries. -/
namespace RoomCipher.RosterLaws
open Roster

variable {α : Type}

/-! ### What is found -/

theorem lookup_cons (held name : String) (value : α) (rest : List (String × α)) :
    ((held, value) :: rest).lookup name = if name = held then some value else rest.lookup name := by
  rw [List.lookup_cons]
  by_cases same : name = held
  · simp [same]
  · rw [beq_false_of_ne same, if_neg same]

theorem lookup_filter (entries : List (String × α)) (name other : String) :
    (entries.filter fun entry => entry.1 ≠ name).lookup other =
      if other = name then none else entries.lookup other := by
  induction entries with
  | nil => simp
  | cons entry rest ih =>
    obtain ⟨held, old⟩ := entry
    rw [List.filter_cons, lookup_cons]
    by_cases erased : held = name
    · subst erased
      rw [if_neg (by simp), ih]
      split <;> rfl
    · rw [if_pos (decide_eq_true erased), lookup_cons, ih]
      by_cases here : other = held
      · rw [if_pos here, if_pos here, if_neg (here ▸ erased)]
      · rw [if_neg here, if_neg here]

theorem get?_erase (roster : Roster α) (name other : String) :
    (roster.erase name).get? other = if other = name then none else roster.get? other :=
  lookup_filter roster.entries name other

theorem get?_put (roster : Roster α) (name other : String) (value : α) :
    (roster.put name value).get? other =
      if other = name then some value else roster.get? other := by
  have entries : (roster.put name value).get? other =
      ((name, value) :: (roster.erase name).entries).lookup other := rfl
  rw [entries, lookup_cons]
  by_cases here : other = name
  · rw [if_pos here, if_pos here]
  · rw [if_neg here, if_neg here]
    exact (get?_erase roster name other).trans (if_neg here)

theorem erase_absent {roster : Roster α} (absent : roster.get? name = none) :
    roster.erase name = roster := by
  obtain ⟨entries, distinct⟩ := roster
  have different := List.lookup_eq_none_iff.mp absent
  have kept : (entries.filter fun entry => entry.1 ≠ name) = entries :=
    List.filter_eq_self.mpr fun entry member =>
      decide_eq_true (Ne.symm (bne_iff_ne.mp (different entry member)))
  simp only [erase, kept]

/-! ### The names -/

theorem mem_names (roster : Roster α) (name : String) :
    name ∈ roster.names ↔ ∃ value, roster.get? name = some value := by
  rw [← Option.isSome_iff_exists, get?, List.lookup_isSome_iff, names, List.mem_mergeSort,
    List.mem_map]
  refine exists_congr fun entry => and_congr_right fun _ => ?_
  rw [beq_iff_eq, eq_comm]

theorem names_empty : (empty : Roster α).names = [] :=
  List.mergeSort_nil

/-- The names in a roster after one has been put there. -/
theorem mem_names_put (roster : Roster α) (name other : String) (value : α) :
    other ∈ (roster.put name value).names ↔ other = name ∨ other ∈ roster.names := by
  simp only [mem_names, get?_put]
  by_cases same : other = name <;> simp [same]

theorem length_names (roster : Roster α) : roster.names.length = roster.size := by
  rw [names, List.length_mergeSort, List.length_map, size]

/-- A roster without names is the one that nothing has been put in. -/
theorem eq_empty {roster : Roster α} (nobody : roster.names = []) : roster = empty := by
  have none := length_names roster
  rw [nobody] at none
  obtain ⟨entries, distinct⟩ := roster
  cases List.eq_nil_of_length_eq_zero none.symm
  rfl

theorem names_distinct (roster : Roster α) : roster.names.Nodup :=
  (List.mergeSort_perm _ _).nodup_iff.mpr roster.distinct

/-- The names ascend, as they are sorted and none of them comes twice. -/
theorem names_ascending (roster : Roster α) : roster.names.Pairwise (· < ·) := by
  have sorted : roster.names.Pairwise fun name other => decide (name ≤ other) = true := by
    refine List.pairwise_mergeSort (fun a b c below above => ?_) (fun a b => ?_) _
    · exact decide_eq_true
        (String.le_trans (of_decide_eq_true below) (of_decide_eq_true above))
    · simpa using String.le_total a b
  refine List.Pairwise.imp₂ (fun name other ordered different => ?_) sorted (names_distinct roster)
  exact Std.lt_of_le_of_ne (of_decide_eq_true ordered) different

end RoomCipher.RosterLaws
