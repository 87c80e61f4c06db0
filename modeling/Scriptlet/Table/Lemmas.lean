import Scriptlet.Table

/-!
# Tables built from other tables

A table that insertions built names each key once, so that storing its entries
in another table puts it before that one. Storing the images of some values
under their keys gives the image of what storing the values gives.
-/

namespace Scriptlet.Table

variable {κ α β : Type} [DecidableEq κ]

/-- A table names each key once. -/
def Wellformed (t : Table κ α) : Prop := (t.entries.map Prod.fst).Nodup

/-- Storing a value adds no key but its own. -/
theorem mem_keys_put {key other : κ} {value : α} {entries : List (κ × α)}
    (h : other ∈ (put key value entries).map Prod.fst) :
    other = key ∨ other ∈ entries.map Prod.fst := by
  induction entries with
  | nil => exact Or.inl (List.mem_singleton.mp h)
  | cons entry rest ih =>
    obtain ⟨k, a⟩ := entry
    unfold put at h
    split at h
    · rcases List.mem_cons.mp h with rfl | hrest
      · exact Or.inr List.mem_cons_self
      · exact Or.inr (List.mem_cons_of_mem k hrest)
    · rcases List.mem_cons.mp h with rfl | hrest
      · exact Or.inr List.mem_cons_self
      · exact (ih hrest).imp_right (List.mem_cons_of_mem k)

omit [DecidableEq κ] in
/-- The empty table names no key. -/
theorem wellformed_empty : (empty : Table κ α).Wellformed := List.nodup_nil

/-- Storing a value keeps a table well-formed. -/
theorem Wellformed.insert {t : Table κ α} (h : t.Wellformed) (key : κ) (value : α) :
    (t.insert key value).Wellformed := by
  have hput : ∀ entries : List (κ × α), (entries.map Prod.fst).Nodup →
      ((put key value entries).map Prod.fst).Nodup := by
    intro entries
    induction entries with
    | nil => exact fun _ => List.nodup_cons.mpr ⟨List.not_mem_nil, List.nodup_nil⟩
    | cons entry rest ih =>
      obtain ⟨k, a⟩ := entry
      intro hnodup
      obtain ⟨hk, hrest⟩ := List.nodup_cons.mp hnodup
      unfold put
      split
      · exact List.nodup_cons.mpr ⟨hk, hrest⟩
      · rename_i hne
        refine List.nodup_cons.mpr ⟨?_, ih hrest⟩
        intro hmem
        exact (mem_keys_put hmem).elim hne hk
  exact hput t.entries h

/-- A key that no entry has is not found. -/
theorem find_eq_none {key : κ} {entries : List (κ × α)} (h : key ∉ entries.map Prod.fst) :
    find key entries = none := by
  induction entries with
  | nil => rfl
  | cons entry rest ih =>
    obtain ⟨k, a⟩ := entry
    obtain ⟨hk, hrest⟩ := not_or.mp (mt List.mem_cons.mpr h)
    unfold find
    rw [if_neg (Ne.symm hk)]
    exact ih hrest

/-- A key that a table does not contain has no value in it. -/
theorem get?_eq_none {t : Table κ α} {key : κ} (h : ¬ t.contains key = true) :
    t.get? key = none := Option.not_isSome_iff_eq_none.mp h

/-- Entries with different keys, stored in a table, are found before its own. -/
theorem get?_insertAll (t : Table κ α) {entries : List (κ × α)}
    (h : (entries.map Prod.fst).Nodup) (key : κ) :
    (t.insertAll entries).get? key = (find key entries).or (t.get? key) := by
  induction entries generalizing t with
  | nil => rfl
  | cons entry rest ih =>
    obtain ⟨k, a⟩ := entry
    obtain ⟨hk, hrest⟩ := List.nodup_cons.mp h
    have hstep : (t.insertAll ((k, a) :: rest)).get? key =
        (find key rest).or ((t.insert k a).get? key) := ih (t.insert k a) hrest
    rw [hstep, get?_insert]
    by_cases heq : k = key
    · subst heq
      rw [find_eq_none hk, if_pos rfl]
      simp [find]
    · rw [if_neg heq]
      simp [find, heq]

/-- A table, stored in another, is looked at before it. -/
theorem Wellformed.get?_insertAll {u : Table κ α} (h : u.Wellformed) (t : Table κ α) (key : κ) :
    (t.insertAll u.entries).get? key = (u.get? key).or (t.get? key) :=
  Table.get?_insertAll t h key

/-- Entries with other keys make no difference to a key. -/
theorem get?_insertAll_of_ne (t : Table κ α) {entries : List (κ × α)} {key : κ}
    (h : ∀ entry ∈ entries, entry.1 ≠ key) : (t.insertAll entries).get? key = t.get? key := by
  induction entries generalizing t with
  | nil => rfl
  | cons entry rest ih =>
    obtain ⟨hentry, hrest⟩ := List.forall_mem_cons.mp h
    refine (ih (t.insert entry.1 entry.2) hrest).trans ?_
    rw [get?_insert, if_neg hentry]

/-- The images of values are stored as the values are. -/
theorem get?_ofList_map (f : α → β) (key : α → κ) (items : List α) (sought : κ) :
    (ofList (items.map fun a => (key a, f a))).get? sought =
      ((ofList (items.map fun a => (key a, a))).get? sought).map f := by
  have hall : ∀ (t : Table κ α) (u : Table κ β), u.get? sought = (t.get? sought).map f →
      (u.insertAll (items.map fun a => (key a, f a))).get? sought =
        ((t.insertAll (items.map fun a => (key a, a))).get? sought).map f := by
    induction items with
    | nil => exact fun _ _ h => h
    | cons a rest ih =>
      intro t u h
      refine ih _ _ ?_
      rw [get?_insert, get?_insert]
      split
      · rfl
      · exact h
  exact hall empty empty rfl

/-- What is found behind storing some values was there before or is one of them. -/
theorem get?_insertAll_mem {key : α → κ} {items : List α} {t : Table κ α} {sought : κ} {value : α}
    (h : (t.insertAll (items.map fun a => (key a, a))).get? sought = some value) :
    t.get? sought = some value ∨ value ∈ items := by
  induction items generalizing t with
  | nil => exact Or.inl h
  | cons a rest ih =>
    rcases ih h with hfound | hmem
    · rw [get?_insert] at hfound
      split at hfound
      · cases hfound
        exact Or.inr List.mem_cons_self
      · exact Or.inl hfound
    · exact Or.inr (List.mem_cons_of_mem a hmem)

end Scriptlet.Table
