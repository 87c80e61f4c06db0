import Scriptlet.Machine

/-!
# What actions leave behind

An action inside another frame leaves the current frame as it was, whether the
action returns a value or stops. A reading of the clock counts in both cases.
-/

namespace Scriptlet.Machine

/-- The machine that an action leaves behind. -/
def reached {α : Type} : EStateM.Result Stop Machine α → Machine
  | .ok _ m => m
  | .error _ m => m

/-- However an action inside another frame ends, the current frame is the same again. -/
theorem reached_within_scope {α : Type} (frame : FrameId) (action : Run α) (m : Machine) :
    (reached (within frame action m)).scope = m.scope := by
  unfold within
  cases action { m with scope := frame } <;> rfl

/-- A reading of the clock counts, whether it shows a time or not. -/
theorem reached_readClock (line : Nat) (m : Machine) : reached (readClock line m) =
    { m with clock := { m.clock with calls := m.clock.calls + 1 } } := by
  unfold readClock
  cases m.clock.time? <;> rfl

end Scriptlet.Machine
