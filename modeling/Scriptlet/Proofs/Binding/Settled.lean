import Scriptlet.Proofs.Binding.Walked
import Scriptlet.Proofs.Binding.Shape
import Scriptlet.Table.Lemmas

/-!
# What is settled before a program runs

A source without static failures has places that are legal and shaped by the
grammar, and the recorded distance at each use is the distance of its name in
the scopes that are open there. The recorded distances of later sources are
about other numbers, so that what is settled for one source stays settled.
-/

namespace Scriptlet

namespace Binding

/-- The recorded distance at a use is that of its name. -/
def Site.Recorded (hops : Hops) (site : Site) : Prop :=
  match site.act with
  | .use id name _ => hops.get? id = distance? site.scopes name.lexeme
  | .declare _ => True
  | .branch _ => True

/-- All that is known of a place before the program runs. -/
structure Site.Settled (hops : Hops) (site : Site) : Prop where
  /-- The scoping rules are kept. -/
  legal : site.Legal
  /-- The grammar is kept. -/
  shaped : site.Shaped
  /-- The distance is recorded. -/
  recorded : site.Recorded hops

variable {site : Site} {sites seen : List Site} {hops other : Hops} {n m id : Nat}

/-- A place records nothing but the distance at its own number. -/
theorem Site.get?_record_of_ne (hops : Hops) (h : site.id? ≠ some id) :
    (site.record hops).get? id = hops.get? id := by
  unfold Site.record
  split
  · rename_i own name how hact
    have hne : own ≠ id := by
      intro heq
      apply h
      unfold Site.id?
      rw [hact, heq]
    split
    · rw [Table.get?_insert, if_neg hne]
    · rfl
  · rfl
  · rfl

/-- A number that no place has gets no distance. -/
theorem get?_foldl_record_of_not_mem (hops : Hops) (h : id ∉ sites.filterMap Site.id?) :
    (sites.foldl Site.record hops).get? id = hops.get? id := by
  induction sites generalizing hops with
  | nil => rfl
  | cons site rest ih =>
    have hsite : site.id? ≠ some id := fun hid =>
      h (List.mem_filterMap.mpr ⟨site, List.mem_cons_self, hid⟩)
    have hrest : id ∉ rest.filterMap Site.id? := by
      intro hmem
      obtain ⟨other, hother, hid⟩ := List.mem_filterMap.mp hmem
      exact h (List.mem_filterMap.mpr ⟨other, List.mem_cons_of_mem site hother, hid⟩)
    rw [List.foldl_cons, ih _ hrest, Site.get?_record_of_ne hops hsite]

/-- What is recorded at a number does not depend on other numbers. -/
theorem Site.Recorded.congr (h : site.Recorded hops)
    (heq : ∀ id, site.id? = some id → other.get? id = hops.get? id) : site.Recorded other := by
  unfold Site.Recorded at h ⊢
  split
  · rename_i id name how hact
    rw [hact] at h
    have hid : site.id? = some id := by
      unfold Site.id?
      rw [hact]
    exact (heq id hid).trans h
  · trivial
  · trivial

/-- A use records the distance of its name where none was recorded before. -/
theorem Site.recorded_record (h : ∀ id, site.id? = some id → hops.get? id = none) :
    site.Recorded (site.record hops) := by
  unfold Site.Recorded Site.record
  cases hact : site.act with
  | use id name how =>
    have hnone : hops.get? id = none := by
      apply h
      unfold Site.id?
      rw [hact]
    dsimp only
    split
    · rename_i d hd
      rw [Table.get?_insert, if_pos rfl, hd]
    · rename_i hd
      rw [hnone, hd]
  | declare name => trivial
  | branch s => trivial

/-- Uses with different numbers all find their distances recorded. -/
theorem recorded_foldl_record (hnodup : (sites.filterMap Site.id?).Nodup)
    (hnone : ∀ id ∈ sites.filterMap Site.id?, hops.get? id = none) :
    ∀ site ∈ sites, site.Recorded (sites.foldl Site.record hops) := by
  induction sites generalizing hops with
  | nil => exact fun _ hmem => absurd hmem List.not_mem_nil
  | cons site rest ih =>
    have hapart : ∀ id, site.id? = some id → id ∉ rest.filterMap Site.id? := by
      intro id hid
      rw [List.filterMap_cons_some hid] at hnodup
      exact (List.nodup_cons.mp hnodup).1
    have hrest : (rest.filterMap Site.id?).Nodup := by
      cases hid : site.id? with
      | none => rwa [List.filterMap_cons_none hid] at hnodup
      | some id =>
        rw [List.filterMap_cons_some hid] at hnodup
        exact (List.nodup_cons.mp hnodup).2
    have hmem : ∀ id ∈ rest.filterMap Site.id?, id ∈ (site :: rest).filterMap Site.id? := by
      intro id hid
      obtain ⟨other, hother, hid⟩ := List.mem_filterMap.mp hid
      exact List.mem_filterMap.mpr ⟨other, List.mem_cons_of_mem site hother, hid⟩
    intro other hother
    rcases List.mem_cons.mp hother with rfl | hother
    · have hown : other.Recorded (other.record hops) := Site.recorded_record fun id hid =>
        hnone id (List.mem_filterMap.mpr ⟨other, List.mem_cons_self, hid⟩)
      exact hown.congr fun id hid => get?_foldl_record_of_not_mem _ (hapart id hid)
    · refine ih hrest ?_ other hother
      intro id hid
      have hne : site.id? ≠ some id := fun heq => hapart id heq hid
      rw [Site.get?_record_of_ne hops hne]
      exact hnone id (hmem id hid)

/-- Recording distances names each number once. -/
theorem wellformed_foldl_record (h : hops.Wellformed) :
    (sites.foldl Site.record hops).Wellformed := by
  induction sites generalizing hops with
  | nil => exact h
  | cons site rest ih =>
    apply ih
    unfold Site.record
    split
    · split
      · exact h.insert _ _
      · exact h
    · exact h
    · exact h

/-- The places seen so far are settled by the distances recorded so far, and the
numbers from `n` on are still free. -/
structure Settles (seen : List Site) (hops : Hops) (n : Nat) : Prop where
  /-- Every place is settled. -/
  settled : ∀ site ∈ seen, site.Settled hops
  /-- No two uses have one number. -/
  nodup : (seen.filterMap Site.id?).Nodup
  /-- The numbers of the places are taken. -/
  below : ∀ site ∈ seen, ∀ id, site.id? = some id → id < n
  /-- Nothing is recorded for a free number. -/
  free : ∀ id, n ≤ id → hops.get? id = none

namespace Settles

/-- Nothing seen, nothing recorded. -/
theorem start : Settles [] {} 0 :=
  ⟨fun _ hmem => absurd hmem List.not_mem_nil, List.nodup_nil,
    fun _ hmem => absurd hmem List.not_mem_nil, fun _ _ => rfl⟩

/-- Numbers may be given away without use. -/
theorem skip (h : Settles seen hops n) (hle : n ≤ m) : Settles seen hops m :=
  ⟨h.settled, h.nodup, fun site hmem id hid => Nat.lt_of_lt_of_le (h.below site hmem id hid) hle,
    fun id hid => h.free id (Nat.le_trans hle hid)⟩

/-- The places of one more program are settled when its distances are learned,
and those seen before stay so. -/
theorem learn (h : Settles seen hops n) (horderly : Orderly n m sites)
    (hlegal : ∀ site ∈ sites, site.Legal) :
    Settles (seen ++ sites) (hops.insertAll (sites.foldl Site.record {}).entries) m := by
  have hwell : (sites.foldl Site.record {}).Wellformed :=
    wellformed_foldl_record Table.wellformed_empty
  have hget := hwell.get?_insertAll hops
  have hold : ∀ id, id ∉ sites.filterMap Site.id? →
      (hops.insertAll (sites.foldl Site.record {}).entries).get? id = hops.get? id := by
    intro id hid
    rw [hget, get?_foldl_record_of_not_mem _ hid]
    rfl
  have hrecorded : ∀ site ∈ sites, site.Recorded (sites.foldl Site.record {}) :=
    recorded_foldl_record horderly.nodup fun _ _ => rfl
  refine ⟨?_, ?_, ?_, ?_⟩
  · intro site hmem
    rcases List.mem_append.mp hmem with hseen | hsite
    · have hsettled := h.settled site hseen
      refine ⟨hsettled.legal, hsettled.shaped, hsettled.recorded.congr fun id hid => hold id ?_⟩
      intro hid'
      have hlow := h.below site hseen id hid
      have hhigh := horderly.range id hid'
      omega
    · refine ⟨hlegal site hsite, horderly.shaped site hsite, ?_⟩
      refine (hrecorded site hsite).congr fun id hid => ?_
      have hid' := horderly.range id (List.mem_filterMap.mpr ⟨site, hsite, hid⟩)
      rw [hget, h.free id hid'.1, Option.or_none]
  · rw [List.filterMap_append, List.nodup_append]
    refine ⟨h.nodup, horderly.nodup, ?_⟩
    intro id hseen id' hmem heq
    obtain ⟨site, hsite, hid⟩ := List.mem_filterMap.mp hseen
    have hlow := h.below site hsite id hid
    have hhigh := horderly.range id' hmem
    omega
  · intro site hmem id hid
    rcases List.mem_append.mp hmem with hseen | hsite
    · exact Nat.lt_of_lt_of_le (h.below site hseen id hid) horderly.le
    · exact (horderly.range id (List.mem_filterMap.mpr ⟨site, hsite, hid⟩)).2
  · intro id hid
    rw [hold id ?_, h.free id (Nat.le_trans horderly.le hid)]
    intro hmem
    have hhigh := horderly.range id hmem
    omega

end Settles

end Binding

end Scriptlet
