import Scriptlet.Proofs.Receiver.Tidy

/-!
# Watching the receiver

A watch looks at every reading of the receiver. It asks for the bound method inside whose
activation the program is then, for the property access that produced that method, and for
its receiver as the value that is read; otherwise it stops the program with an alarm. So the
receiver is evaluated to that value, or the watch is set off. Where a tidy machine stands at a
place, the watch is not set off.
-/

namespace Scriptlet.Receiver

open Binding Machine

variable {root m : Machine} {seen : List Site} {scopes : List Scope} {k? : Option Method}
  {id : Nat} {name : Token}

/-- The receiver of a bound method is read inside an activation of the method, at a place in
the method, with so many scopes open inside the method. -/
structure ReadsReceiver (root : Machine) (seen : List Site) (m : Machine) (id : Nat)
    (name : Token) (k : Method) (inner : List Scope) : Prop where
  /-- The place is in the method. -/
  place : ⟨inner ++ k.scopes, .use id name .receiver⟩ ∈ k.places
  /-- No other class is in between. -/
  innermost : ∀ scope ∈ inner, scope.contains receiverName = false
  /-- The declaration of the class is at known places. -/
  declared : k.owner.places ⊆ seen
  /-- The method is bound to its receiver, an object of the class. -/
  bound : k.BoundIn m.store
  /-- It was produced by a property access on the receiver. -/
  produced : Produced root k.object k.function m
  /-- The outermost of the scopes inside the method is that of an activation of it. -/
  activation : ∃ links activation, inner.length = links + 1 ∧
    m.store.ancestor? m.scope links = some activation ∧
    m.store.enclosing? activation = some k.frame ∧ Activated root k.function activation m
  /-- What is read is the receiver. -/
  value : readName id name m = .ok (.object k.object) m

open Classical in
/-- Every reading of a receiver that is not so stops the program with an alarm. -/
noncomputable def watching (root : Machine) (seen : List Site) (alarm : Stop) : Names where
  read id name := fun m =>
    if name.lexeme = receiverName → ∃ k inner, ReadsReceiver root seen m id name k inner then
      readName id name m
    else .error alarm m
  write := writeName

/-- Where a machine stands, the receiver is read as it should be. -/
theorem Stands.reads (h : Stands root seen scopes k? m)
    (hsite : ⟨scopes, .use id name .receiver⟩ ∈ placesIn seen k?) :
    ∃ k inner, ReadsReceiver root seen m id name k inner := by
  obtain ⟨hlegal, hshaped, hrecorded⟩ := h.settled hsite
  have hname : name.lexeme = receiverName := hshaped
  obtain ⟨holder, hmem, hholder⟩ : ∃ scope ∈ scopes.tail, scope.contains receiverName = true :=
    hlegal
  obtain ⟨k, inner, rfl, rfl, hinner, hframe, hbound, hdeclared⟩ :=
    h.lies.reach ⟨holder, List.mem_of_mem_tail hmem, hholder⟩
  have hdistance : m.hops.get? id = some inner.length :=
    hrecorded.trans (hname ▸ distance?_receiver hinner k)
  have hfits := h.tidy.functions _ _ hbound.function
  obtain ⟨links, hlinks⟩ : ∃ links, inner.length = links + 1 := by
    refine Nat.exists_eq_succ_of_ne_zero fun hnone => ?_
    rw [hnone] at hframe
    have hsame : m.scope = k.frame := Option.some.inj hframe
    have hplain := h.plain
    rw [hsame, hbound.binds] at hplain
    cases hplain
  obtain ⟨activation, hactivation, hlink⟩ := ancestor?_succ (hlinks ▸ hframe)
  obtain ⟨caller, closure, hcaller, hcaptured, hcall⟩ :=
    h.tidy.calls activation k.frame hlink hbound.binds
  -- The call was one of the method, which is alone in its frame.
  obtain rfl := hfits.alone caller closure hcaller hcaptured hbound.binds
  refine ⟨k, inner, hsite, hinner, hdeclared, hbound, hfits.produced _ hbound.receiver,
    ⟨links, activation, hlinks, hactivation, hlink, hcall⟩, ?_⟩
  unfold readName Store.readIn frameOf?
  rw [hdistance]
  dsimp only
  rw [hframe, Option.bind_some, hname, hbound.receiver]

end Scriptlet.Receiver
