/-!
# Association tables

A table lists keys with their values. Every insertion replaces the entry of
its key in place or appends a new entry, so a table built by insertions names
each key once, in the order of first insertion. Tables serve scopes, frames,
fields and methods alike. No cost is claimed: a look-up walks the list.
-/

namespace Scriptlet

/-- Entries in order of first insertion. -/
structure Table (κ α : Type) where
  /-- The keys with their values. -/
  entries : List (κ × α) := []

namespace Table

variable {κ α : Type} [DecidableEq κ]

/-- The table without entries. -/
def empty : Table κ α := {}

/-- The value of the first entry with this key. -/
def find (key : κ) : List (κ × α) → Option α
  | [] => none
  | (k, a) :: rest => if k = key then some a else find key rest

/-- Replace the value of the first entry with this key, or append an entry. -/
def put (key : κ) (value : α) : List (κ × α) → List (κ × α)
  | [] => [(key, value)]
  | (k, a) :: rest => if k = key then (k, value) :: rest else (k, a) :: put key value rest

/-- The value stored for a key. -/
def get? (t : Table κ α) (key : κ) : Option α := find key t.entries

/-- Whether a key has an entry. -/
def contains (t : Table κ α) (key : κ) : Bool := (t.get? key).isSome

/-- Store a value for a key; the last value stored for a key wins. -/
def insert (t : Table κ α) (key : κ) (value : α) : Table κ α := ⟨put key value t.entries⟩

/-- Store several entries from left to right. -/
def insertAll (t : Table κ α) (entries : List (κ × α)) : Table κ α :=
  entries.foldl (fun table entry => table.insert entry.1 entry.2) t

/-- The table that several insertions build. -/
def ofList (entries : List (κ × α)) : Table κ α := empty.insertAll entries

/-- The keys in order of first insertion. -/
def keys (t : Table κ α) : List κ := t.entries.map Prod.fst

/-- The empty table stores nothing. -/
@[simp] theorem get?_empty (key : κ) : (empty : Table κ α).get? key = none := rfl

/-- Reading after writing in one list of entries. -/
theorem find_put (key other : κ) (value : α) (entries : List (κ × α)) :
    find other (put key value entries) = if key = other then some value else find other entries := by
  induction entries with
  | nil => simp [put, find]
  | cons entry rest ih =>
    obtain ⟨k, a⟩ := entry
    by_cases hk : k = key
    · subst hk
      by_cases ho : k = other <;> simp [put, find, ho]
    · by_cases ho : k = other
      · subst ho
        simp [put, find, hk, Ne.symm hk]
      · simp [put, find, hk, ho, ih]

/-- Reading after writing: the written key has the new value, all others keep theirs. -/
@[simp] theorem get?_insert (t : Table κ α) (key other : κ) (value : α) :
    (t.insert key value).get? other = if key = other then some value else t.get? other :=
  find_put key other value t.entries

/-- Writing makes the key present and removes none. -/
@[simp] theorem contains_insert (t : Table κ α) (key other : κ) (value : α) :
    (t.insert key value).contains other = (decide (key = other) || t.contains other) := by
  by_cases h : key = other <;> simp [contains, h]

end Table

end Scriptlet
