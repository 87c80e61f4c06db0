import Scriptlet.Machine.Run
import Scriptlet.Proofs.Binding.Sites

/-!
# Watching accesses to names

A watch looks at every access to a name at its recorded distance. It compares
the chain of frames at that moment with the scopes that were open at the place
of the access when the program was bound, and stops the program with an alarm
if they do not match. A watch that is never set off changes nothing.
-/

namespace Scriptlet

open Binding

/-- Whether a place is the use of a name with a number, to write or to read it. -/
def Binding.Site.uses (site : Site) (id : Nat) (name : Token) (writes : Bool) : Bool :=
  match site.act with
  | .use own other how => own == id && other == name && (how == .write) == writes
  | .declare _ => false
  | .branch _ => false

namespace Machine

/-- The chain of frames matches a place at which a name is used at a distance: the
name is declared so many scopes out, there is one frame for each open scope and
then the globals, and the frame so many links out binds the name. Only an
assignment in the initial value of the name itself may find it unbound. -/
def Matches (m : Machine) (site : Site) (name : String) (writes : Bool) (d : Nat) : Prop :=
  distance? site.scopes name = some d ∧
    m.store.ancestor? m.scope site.scopes.length = some m.globals ∧
    m.store.enclosing? m.globals = none ∧
    ((m.store.ancestor? m.scope d).any (fun frame => m.store.binds frame name) = true ∨
      writes = true ∧ isPending site.scopes name = true)

instance (m : Machine) (site : Site) (name : String) (writes : Bool) (d : Nat) :
    Decidable (m.Matches site name writes d) :=
  inferInstanceAs (Decidable (_ ∧ _ ∧ _ ∧ _))

/-- An access is lawful if its name has no recorded distance, or if it belongs to a
place that the chain of frames matches. -/
def Lawful (seen : List Site) (m : Machine) (id : Nat) (name : Token) (writes : Bool) : Prop :=
  ∀ d ∈ m.hops.get? id, ∃ site ∈ seen, site.uses id name writes = true ∧
    m.Matches site name.lexeme writes d

instance (seen : List Site) (m : Machine) (id : Nat) (name : Token) (writes : Bool) :
    Decidable (Lawful seen m id name writes) :=
  inferInstanceAs (Decidable (∀ d ∈ m.hops.get? id, ∃ site ∈ seen, _ ∧ _))

/-- Every access that is not lawful stops the program with an alarm. -/
def Names.watched (seen : List Site) (alarm : Stop) : Names where
  read id name := fun m =>
    if Lawful seen m id name false then readName id name m else .error alarm m
  write id name value := fun m =>
    if Lawful seen m id name true then writeName id name value m else .error alarm m

variable {seen : List Site} {m : Machine} {id d : Nat} {name : Token}

/-- A name at a recorded distance is looked up in the frame so many links out. -/
theorem frameOf?_of_recorded (hd : m.hops.get? id = some d) :
    m.frameOf? id name = m.store.ancestor? m.scope d := by
  unfold frameOf?
  rw [hd]

/-- A lawful reading at a recorded distance never finds its name undefined. -/
theorem readName_of_lawful (h : Lawful seen m id name false) (hd : m.hops.get? id = some d) :
    ∃ value, readName id name m = .ok value m := by
  obtain ⟨site, -, -, -, -, -, hbound⟩ := h d hd
  have hbinds := hbound.resolve_right fun hwrites => by cases hwrites.1
  obtain ⟨frame, hframe, hframeBinds⟩ := (Option.any_eq_true _ _).mp hbinds
  obtain ⟨value, hvalue⟩ := Option.isSome_iff_exists.mp hframeBinds
  refine ⟨value, ?_⟩
  unfold readName Store.readIn
  rw [frameOf?_of_recorded hd, hframe, Option.bind_some, hvalue]

/-- A lawful assignment at a recorded distance finds its name undefined only in
the initial value of the name itself. -/
theorem writeName_of_lawful (h : Lawful seen m id name true) (hd : m.hops.get? id = some d)
    (value : Value) :
    (∃ after, writeName id name value m = .ok () after) ∨
      ∃ site ∈ seen, site.uses id name true = true ∧ isPending site.scopes name.lexeme = true := by
  obtain ⟨site, hsite, huses, -, -, -, hbound⟩ := h d hd
  rcases hbound with hbinds | ⟨-, hpending⟩
  · left
    obtain ⟨frame, hframe, hframeBinds⟩ := (Option.any_eq_true _ _).mp hbinds
    unfold writeName
    rw [frameOf?_of_recorded hd, hframe, Option.filter_some, if_pos hframeBinds]
    exact ⟨_, rfl⟩
  · exact Or.inr ⟨site, hsite, huses, hpending⟩

end Machine

end Scriptlet
