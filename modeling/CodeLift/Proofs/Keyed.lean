import CodeLift.Keyed

/-!
# Reading a map

What a key has is what was last put there. A key has one entry at most, so the entries of a key are the value it has.
-/

namespace CodeLift

namespace Keyed

variable {κ ν : Type} [DecidableEq κ]

@[simp]
theorem find?_empty (key : κ) : (empty : Keyed κ ν).find? key = none := rfl

/-- A key that is put has the value it was given, and the others have what they had. -/
theorem find?_put (m : Keyed κ ν) (key : κ) (value : ν) (other : κ) :
    (m.put key value).find? other = if other = key then some value else m.find? other := by
  simp only [find?, put, List.find?_append]
  by_cases hkey : other = key
  · subst hkey
    have hnone : (m.entries.filter (·.1 != other)).find? (·.1 == other) = none := by
      rw [List.find?_eq_none]
      intro entry hentry
      simpa using (List.mem_filter.1 hentry).2
    simp [hnone]
  · have hsame : (m.entries.filter (·.1 != key)).find? (·.1 == other) = m.entries.find? (·.1 == other) := by
      rw [List.find?_filter]
      congr 1
      funext entry
      by_cases hentry : entry.1 = other
      · simp [hentry, hkey]
      · simp [hentry]
    have hlast : ([(key, value)] : List (κ × ν)).find? (·.1 == other) = none := by simp [Ne.symm hkey]
    rw [hsame, hlast, Option.or_none, if_neg hkey]

@[simp]
theorem find?_put_self (m : Keyed κ ν) (key : κ) (value : ν) : (m.put key value).find? key = some value := by
  rw [find?_put, if_pos rfl]

/-- Changing the values changes what each key has. -/
theorem find?_map {μ : Type} (f : ν → μ) (m : Keyed κ ν) (key : κ) : (m.map f).find? key = (m.find? key).map f := by
  simp only [find?, map, List.find?_map, Option.map_map]
  rfl

/-- The entries of a key are the value it has. -/
theorem filter_entries (m : Keyed κ ν) (key : κ) :
    m.entries.filter (·.1 == key) = ((m.find? key).map fun value => (key, value)).toList := by
  obtain ⟨entries, hnodup⟩ := m
  simp only [find?]
  induction entries with
  | nil => rfl
  | cons entry rest ih =>
    obtain ⟨hnew, hrest⟩ := List.nodup_cons.1 hnodup
    by_cases hkey : entry.1 = key
    · subst hkey
      -- No later entry has the key.
      have hnone : rest.filter (·.1 == entry.1) = [] := by
        rw [List.filter_eq_nil_iff]
        intro other hother hsame
        exact hnew (List.mem_map.2 ⟨other, hother, eq_of_beq hsame⟩)
      simp [hnone]
    · simp [hkey, ih hrest]

end Keyed

end CodeLift
