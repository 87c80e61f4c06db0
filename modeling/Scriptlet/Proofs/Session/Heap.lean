import Scriptlet.Proofs.Machine.Heap
import Scriptlet.Proofs.Session.Analysis

/-!
# What the store of a session keeps

A session goes from its start by changes of its machine and by recording distances,
whatever its sources are and however their runs end. So what every step keeps is kept
from any point of a session to any later one.
-/

namespace Scriptlet.Session

open Machine

/-- Running a source from the outermost frame is a sequence of steps. -/
theorem run_steps {s : Session} (h : s.machine.scope = s.machine.globals) (fuel : Nat)
    (source : String) : Steps (Move .recorded) s.machine (s.run fuel source).2.machine := by
  rcases hseen : analyse s.nextId source with ⟨n, errors | ⟨program, hops⟩⟩
  · rw [run_of_refused hseen]
    exact .refl _
  · rw [run_of_bound hseen, ended_session]
    dsimp only
    rw [reached_interpret h]
    exact (Steps.once (.learn _)).trans
      ((executeProgramBy_goes .recorded fuel program _).mono fun _ _ => .change)

/-- Running sources one after the other from the outermost frame is a sequence of steps. -/
theorem runAll_steps {s : Session} (h : s.machine.scope = s.machine.globals)
    (runs : List (Nat × String)) :
    Steps (Move .recorded) s.machine (s.runAll runs).2.machine := by
  induction runs generalizing s with
  | nil => exact .refl _
  | cons first rest ih =>
    obtain ⟨fuel, source⟩ := first
    exact (run_steps h fuel source).trans (ih (runAll_outermost h [(fuel, source)]))

end Scriptlet.Session
