import Scriptlet.Proofs.Lexical.Standing

/-!
# Actions that go side by side

Three actions go side by side from a pairing: one of the machine, the same one
with its accesses to names watched, and one of the state under lexical scoping.
The first two do the same. The first and the third end with one value or stop
for one reason, and leave machine and state in agreement. There is one rule for
each primitive action.
-/

namespace Scriptlet.Lexical

open Binding Machine

variable {α β : Type} (seen : List Site) (hops : Hops)

/-- How two actions have ended: with one value, as claimed, or stopped for one
reason and in agreement. -/
def EndsAlike (claim : α → Pairing → Prop) :
    EStateM.Result Stop Scriptlet.Machine α → EStateM.Result Stop State α → Prop
  | .ok a m, .ok b r => b = a ∧ ∃ layout, claim a ⟨layout, m, r⟩
  | .error stop m, .error stop' r => stop' = stop ∧ ∃ layout, Agrees seen hops ⟨layout, m, r⟩
  | .ok _ _, .error _ _ => False
  | .error _ _, .ok _ _ => False

/-- From a pairing an action of the machine does the same as a watched one, and
ends like an action of the state. -/
structure Follows (p : Pairing) (plain watched : Scriptlet.Run α) (lexical : Run α)
    (claim : α → Pairing → Prop) : Prop where
  /-- The watch is not set off. -/
  watch : watched p.machine = plain p.machine
  /-- Both end alike. -/
  ends : EndsAlike seen hops claim (plain p.machine) (lexical p.state)

variable {seen : List Site} {hops : Hops} {p : Pairing}

namespace Follows

variable {plain watched : Scriptlet.Run α} {lexical : Run α} {claim : α → Pairing → Prop}

/-- Less may be claimed. -/
theorem mono {weaker : α → Pairing → Prop} (h : Follows seen hops p plain watched lexical claim)
    (himp : ∀ a q, claim a q → weaker a q) : Follows seen hops p plain watched lexical weaker := by
  refine ⟨h.watch, ?_⟩
  have hends := h.ends
  revert hends
  cases plain p.machine <;> cases lexical p.state
  · rintro ⟨heq, layout, hclaim⟩
    exact ⟨heq, layout, himp _ _ hclaim⟩
  · exact id
  · exact id
  · exact id

/-- Actions that do what others do from another pairing. -/
theorem of_eq {plain' watched' : Scriptlet.Run α} {lexical' : Run α} {q : Pairing}
    (h : Follows seen hops q plain' watched' lexical' claim)
    (hplain : plain p.machine = plain' q.machine) (hwatched : watched p.machine = watched' q.machine)
    (hlexical : lexical p.state = lexical' q.state) :
    Follows seen hops p plain watched lexical claim := by
  constructor
  · rw [hplain, hwatched, h.watch]
  · rw [hplain, hlexical]
    exact h.ends

/-- Ending with a value. -/
theorem pure {a : α} (h : claim a p) :
    Follows seen hops p (Pure.pure a) (Pure.pure a) (Pure.pure a) claim :=
  ⟨rfl, rfl, p.layout, h⟩

/-- Stopping. -/
theorem stop (h : Agrees seen hops p) (reason : Stop) :
    Follows seen hops p (fun m => .error reason m) (fun m => .error reason m)
      (fun r => .error reason r) claim :=
  ⟨rfl, rfl, p.layout, h⟩

/-- Taking a result over. -/
theorem ofExcept {result : Except RuntimeError α} (hagrees : Agrees seen hops p)
    (h : ∀ a, claim a p) :
    Follows seen hops p (Machine.ofExcept result) (Machine.ofExcept result)
      (Machine.ofExcept result) claim := by
  cases result with
  | ok a => exact pure (h a)
  | error e => exact stop hagrees (.fault e)

/-- One action after another. -/
theorem bind {next next' : α → Scriptlet.Run β} {further : α → Run β} {result : β → Pairing → Prop}
    (h : Follows seen hops p plain watched lexical claim)
    (hnext : ∀ a q, claim a q → Follows seen hops q (next a) (next' a) (further a) result) :
    Follows seen hops p (plain >>= next) (watched >>= next') (lexical >>= further) result := by
  obtain ⟨hwatch, hends⟩ := h
  have hplain : (plain >>= next) p.machine = EStateM.bind plain next p.machine := rfl
  have hwatched : (watched >>= next') p.machine = EStateM.bind watched next' p.machine := rfl
  have hlexical : (lexical >>= further) p.state = EStateM.bind lexical further p.state := rfl
  unfold EStateM.bind at hplain hwatched hlexical
  rw [hwatch] at hwatched
  revert hends hplain hwatched hlexical
  cases plain p.machine with
  | ok a m =>
    cases lexical p.state with
    | ok b r =>
      rintro ⟨rfl, layout, hclaim⟩ hplain hwatched hlexical
      exact (hnext b ⟨layout, m, r⟩ hclaim).of_eq hplain hwatched hlexical
    | error stop r => exact fun hends => hends.elim
  | error reason m =>
    cases lexical p.state with
    | ok b r => exact fun hends => hends.elim
    | error reason' r =>
      rintro ⟨rfl, layout, hagrees⟩ hplain hwatched hlexical
      exact (stop hagrees reason').of_eq hplain hwatched hlexical

/-- Acting at another place and coming back. -/
theorem within {inside : α → Pairing → Prop} {frame : FrameId} {env : Env}
    (h : Follows seen hops ⟨p.layout, { p.machine with scope := frame }, { p.state with env }⟩
      plain watched lexical inside)
    (hback : ∀ a q, inside a q → claim a
      ⟨q.layout, { q.machine with scope := p.machine.scope }, { q.state with env := p.state.env }⟩) :
    Follows seen hops p (Machine.within frame plain) (Machine.within frame watched)
      (Lexical.within env lexical) claim := by
  obtain ⟨hwatch, hends⟩ := h
  constructor
  · unfold Machine.within
    rw [hwatch]
  · unfold Machine.within Lexical.within
    revert hends
    cases plain { p.machine with scope := frame } with
    | ok a m =>
      cases lexical { p.state with env } with
      | ok b r =>
        rintro ⟨rfl, layout, hinside⟩
        exact ⟨rfl, layout, hback b ⟨layout, m, r⟩ hinside⟩
      | error stop r => exact id
    | error reason m =>
      cases lexical { p.state with env } with
      | ok b r => exact id
      | error reason' r =>
        rintro ⟨rfl, layout, hagrees⟩
        exact ⟨rfl, layout, hagrees.elsewhere _ _⟩

end Follows

end Scriptlet.Lexical
