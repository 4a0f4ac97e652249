/-!
# Values by key

A map from keys to values as a list of entries, no two of which have the same key. The order of the entries is that of the last
writes; what is looked up does not depend on it.
-/

namespace CodeLift

/-- Values by key. -/
structure Keyed (κ ν : Type) where
  entries : List (κ × ν)
  nodup : (entries.map (·.1)).Nodup
  deriving DecidableEq, Repr

namespace Keyed

variable {κ ν : Type}

/-- No values. -/
def empty : Keyed κ ν := ⟨[], .nil⟩

/-- The values, each changed in the same way. -/
def map {μ : Type} (f : ν → μ) (m : Keyed κ ν) : Keyed κ μ where
  entries := m.entries.map fun (key, value) => (key, f value)
  nodup := by
    rw [List.map_map]
    exact m.nodup

variable [DecidableEq κ]

/-- The value of a key. -/
def find? (m : Keyed κ ν) (key : κ) : Option ν := (m.entries.find? (·.1 == key)).map (·.2)

/-- Gives a key a value, in place of the one it had. -/
def put (m : Keyed κ ν) (key : κ) (value : ν) : Keyed κ ν where
  entries := m.entries.filter (·.1 != key) ++ [(key, value)]
  nodup := by
    rw [List.map_append, List.map_cons, List.map_nil]
    refine List.nodup_append.2 ⟨m.nodup.sublist (List.filter_sublist.map _), by simp, ?_⟩
    intro other hother other' hother'
    obtain ⟨entry, hentry, rfl⟩ := List.mem_map.1 hother
    rw [List.mem_singleton.1 hother']
    simpa using (List.mem_filter.1 hentry).2

end Keyed

end CodeLift
