import Scriptlet.Proofs.Lexical.Follows
import Scriptlet.Proofs.Lexical.Watch

/-!
# Accesses to names side by side

Where a machine and a state stand at a place, a name of the place that is
settled means the same on both sides: at its recorded distance lies the frame
of its location, and without a recorded distance it is global. So reading and
overwriting it go side by side, and no access sets off the watch.
-/

namespace Scriptlet.Lexical

open Binding Machine

variable {seen : List Site} {hops : Hops} {initialising : Option String} {scopes : List Scope}
  {p : Pairing} {id : Nat} {name : Token} {how : Use}

namespace Stands

/-- A settled use is lawful where the machine stands at its place. -/
theorem lawful (h : Stands seen hops initialising scopes p)
    (hinit : initialising ≠ some receiverName) (hsite : ⟨scopes, .use id name how⟩ ∈ seen)
    (hsettled : Site.Settled hops ⟨scopes, .use id name how⟩) :
    Lawful seen p.machine id name (how == .write) := by
  intro d hd
  rw [h.agrees.distances, hsettled.recorded] at hd
  obtain ⟨outer, location, houter, -, -, hbound⟩ := h.lies.reach hd
  refine ⟨⟨scopes, .use id name how⟩, hsite, by simp [Site.uses], hd, h.lies.chain,
    h.agrees.outermost, ?_⟩
  rw [houter]
  rcases hbound with ⟨hinit', hpending⟩ | hbinds
  · cases how with
    | write => exact Or.inr ⟨rfl, hpending⟩
    | read =>
      have hlegal : isPending scopes name.lexeme = false := hsettled.legal
      rw [hpending] at hlegal
      cases hlegal
    | receiver =>
      have hshaped : name.lexeme = receiverName := hsettled.shaped
      exact absurd (hshaped ▸ hinit') hinit
  · exact Or.inl hbinds

/-- A name without a location is global, and so it is for the machine. -/
theorem frameOf?_global (h : Stands seen hops initialising scopes p)
    (hrecorded : hops.get? id = distance? scopes name.lexeme)
    (hname : distance? scopes name.lexeme = none) :
    p.state.env.find? name.lexeme = none ∧
      p.machine.frameOf? id name =
        if p.machine.store.binds p.machine.globals name.lexeme = true then some p.machine.globals
        else none := by
  refine ⟨h.lies.find?_eq_none hname, ?_⟩
  unfold frameOf?
  rw [h.agrees.distances, hrecorded, hname]
  exact Store.nearest?_of_alone h.agrees.outermost h.agrees.exists_globals name.lexeme

/-- A name with a location lies for the machine in the frame of that location. -/
theorem frameOf?_local (h : Stands seen hops initialising scopes p)
    (hrecorded : hops.get? id = distance? scopes name.lexeme) {d : Nat}
    (hname : distance? scopes name.lexeme = some d) :
    ∃ outer location, p.machine.frameOf? id name = some outer ∧
      p.state.env.find? name.lexeme = some location ∧
      p.layout[location]? = some (outer, name.lexeme) := by
  obtain ⟨outer, location, houter, hlocation, hplace, -⟩ := h.lies.reach hname
  have hd : p.machine.hops.get? id = some d := by
    rw [h.agrees.distances, hrecorded, hname]
  exact ⟨outer, location, (frameOf?_of_recorded hd).trans houter, hlocation, hplace⟩

/-- A name has the same value on both sides. -/
theorem value?_eq (h : Stands seen hops initialising scopes p)
    (hrecorded : hops.get? id = distance? scopes name.lexeme) :
    (p.machine.frameOf? id name).bind (fun frame => p.machine.store.local? frame name.lexeme) =
      p.state.value? name.lexeme := by
  cases hname : distance? scopes name.lexeme with
  | none =>
    obtain ⟨hfind, hframe⟩ := h.frameOf?_global hrecorded hname
    have hvalue : p.state.value? name.lexeme = p.machine.store.local? p.machine.globals name.lexeme := by
      unfold State.value?
      rw [hfind]
      exact h.agrees.globals name.lexeme
    rw [hframe, hvalue]
    split
    · rfl
    · rename_i hunbound
      exact (Option.not_isSome_iff_eq_none.mp hunbound).symm
  | some d =>
    obtain ⟨outer, location, hframe, hfind, hplace⟩ := h.frameOf?_local hrecorded hname
    have hvalue : p.state.value? name.lexeme = p.machine.store.local? outer name.lexeme := by
      unfold State.value?
      rw [hfind]
      dsimp only
      rw [h.agrees.values location outer name.lexeme hplace]
      rfl
    rw [hframe, hvalue]
    rfl

/-- Overwriting a name that has a value leads back to the same place. -/
theorem overwrite (h : Stands seen hops initialising scopes p)
    (hrecorded : hops.get? id = distance? scopes name.lexeme) {frame : FrameId}
    (hframe : p.machine.frameOf? id name = some frame) (value : Value) :
    Stands seen hops initialising scopes
        ⟨p.layout, { p.machine with store := p.machine.store.define frame name.lexeme value },
          p.state.put name.lexeme value⟩ ∧
      Leads none p
        ⟨p.layout, { p.machine with store := p.machine.store.define frame name.lexeme value },
          p.state.put name.lexeme value⟩ := by
  cases hname : distance? scopes name.lexeme with
  | none =>
    obtain ⟨hfind, hglobal⟩ := h.frameOf?_global hrecorded hname
    rw [hglobal] at hframe
    split at hframe
    · cases hframe
      have hput : p.state.put name.lexeme value =
          { p.state with globals := p.state.globals.insert name.lexeme value } := by
        unfold State.put
        rw [hfind]
      have hleads := Leads.define h.agrees.exists_globals name.lexeme value
      rw [hput]
      exact ⟨h.keep (h.agrees.assignGlobal name.lexeme value) (hleads _) rfl, hleads _⟩
    · cases hframe
  | some d =>
    obtain ⟨outer, location, houter, hfind, hplace⟩ := h.frameOf?_local hrecorded hname
    rw [houter] at hframe
    cases hframe
    have hput : p.state.put name.lexeme value =
        { p.state with cells := p.state.cells.setIfInBounds location (some value) } := by
      unfold State.put
      rw [hfind]
    have hsize := (h.agrees.placed _ _ (List.mem_of_getElem? hplace)).1
    have hleads := Leads.define hsize name.lexeme value
    rw [hput]
    exact ⟨h.keep (h.agrees.assign hplace value) (hleads _) rfl, hleads _⟩

variable (alarm : Stop)

/-- Reading a settled name. -/
theorem read (h : Stands seen hops initialising scopes p)
    (hinit : initialising ≠ some receiverName) (hsite : ⟨scopes, .use id name how⟩ ∈ seen)
    (hsettled : Site.Settled hops ⟨scopes, .use id name how⟩) (hreads : (how == .write) = false) :
    Follows seen hops p (Machine.readName id name) ((Names.watched seen alarm).read id name)
      (Lexical.readName name) fun _ q => Stands seen hops initialising scopes q ∧ Leads none p q := by
  have hlawful := h.lawful hinit hsite hsettled
  rw [hreads] at hlawful
  constructor
  · exact if_pos hlawful
  · have hvalue := h.value?_eq hsettled.recorded
    unfold Machine.readName Store.readIn Lexical.readName
    rw [hvalue]
    cases p.state.value? name.lexeme with
    | some value => exact ⟨rfl, p.layout, h, .refl none p⟩
    | none => exact ⟨rfl, p.layout, h.agrees⟩

/-- Overwriting a settled name. -/
theorem write (h : Stands seen hops initialising scopes p)
    (hinit : initialising ≠ some receiverName) (hsite : ⟨scopes, .use id name .write⟩ ∈ seen)
    (hsettled : Site.Settled hops ⟨scopes, .use id name .write⟩) (value : Value) :
    Follows seen hops p (Machine.writeName id name value)
      ((Names.watched seen alarm).write id name value) (Lexical.writeName name value)
      fun _ q => Stands seen hops initialising scopes q ∧ Leads none p q := by
  have hlawful := h.lawful hinit hsite hsettled
  constructor
  · exact if_pos hlawful
  · have hvalue := h.value?_eq hsettled.recorded
    unfold Machine.writeName Lexical.writeName
    cases hframe : p.machine.frameOf? id name with
    | none =>
      rw [hframe] at hvalue
      rw [← hvalue]
      exact ⟨rfl, p.layout, h.agrees⟩
    | some frame =>
      rw [hframe] at hvalue
      rw [← hvalue, Option.filter_some, Option.bind_some]
      cases hlocal : p.machine.store.local? frame name.lexeme with
      | none =>
        rw [if_neg (by simp [Store.binds, hlocal])]
        exact ⟨rfl, p.layout, h.agrees⟩
      | some old =>
        rw [if_pos (by simp [Store.binds, hlocal])]
        exact ⟨rfl, p.layout, h.overwrite hsettled.recorded hframe value⟩

end Stands

end Scriptlet.Lexical
