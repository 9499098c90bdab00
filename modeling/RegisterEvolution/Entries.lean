/-!
# `Entries` — values by key, in the order of first mention

A list of pairs in which each key occurs once. Writing to a key that is there replaces its value in place; a new key
goes to the end.
-/

namespace RegisterEvolution

/-- Values by key. -/
abbrev Entries (κ α : Type) := List (κ × α)

namespace Entries

variable {κ α : Type} [BEq κ]

/-- The value of a key. -/
def get? (key : κ) : Entries κ α → Option α
  | [] => none
  | (k, v) :: rest => if k == key then some v else get? key rest

/-- The entries with the value of a key replaced or added. -/
def put (key : κ) (value : α) : Entries κ α → Entries κ α
  | [] => [(key, value)]
  | (k, v) :: rest => if k == key then (k, value) :: rest else (k, v) :: put key value rest

/-- The entries that a list of pairs gives when later pairs overwrite earlier ones. -/
def ofPairs (pairs : List (κ × α)) : Entries κ α := pairs.foldl (fun entries (k, v) => entries.put k v) []

theorem get?_put [LawfulBEq κ] (key other : κ) (value : α) (entries : Entries κ α) :
    get? other (put key value entries) = if key == other then some value else get? other entries := by
  induction entries with
  | nil => rfl
  | cons entry rest ih =>
    obtain ⟨k, v⟩ := entry
    by_cases hk : k = key
    · subst hk
      by_cases ho : k = other <;> simp [put, get?, ho]
    · have hb : (k == key) = false := by simpa using hk
      by_cases ho : k = other
      · subst ho
        have hn : (key == k) = false := by simpa using Ne.symm hk
        simp [put, get?, hb, hn]
      · have hn : (k == other) = false := by simpa using ho
        simp [put, get?, hb, hn, ih]

end Entries

end RegisterEvolution
