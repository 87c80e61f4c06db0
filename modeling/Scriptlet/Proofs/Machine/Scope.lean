import Scriptlet.Proofs.Machine.Steps
import Scriptlet.Proofs.Session.Runs

/-!
# The current frame is the same before and after

No step leaves the current frame or the outermost one changed. So evaluating,
executing and calling come back to the frame in which they began, in whatever
way they end, and between the statements of a program that is run the current
frame is the outermost one. Coming back to the globals behind a failure is then
never a change.
-/

namespace Scriptlet.Machine

/-- Steps end in the frame in which they began, and keep the outermost frame. -/
theorem Steps.scope_globals {names : Names} {m after : Machine}
    (h : Steps (Change names) m after) : after.scope = m.scope ∧ after.globals = m.globals :=
  ⟨h.rest.2.1, h.rest.2.2.1⟩

/-- An action that makes steps comes back to the frame in which it began. -/
theorem Goes.scope {α : Type} {names : Names} {action : Run α} {m : Machine}
    (h : Goes names action m) : (reached (action m)).scope = m.scope := (Steps.scope_globals h).1

/-- Expressions are evaluated and statements executed by steps. -/
theorem evaluate_execute_go (fuel : Nat) :
    (∀ e m, Goes .recorded (evaluate fuel e) m) ∧ ∀ s m, Goes .recorded (execute fuel s) m :=
  evaluateBy_executeBy_go .recorded fuel

/-- Behind steps from the outermost frame the current frame is the outermost one. -/
theorem Goes.outermost {α : Type} {names : Names} {action : Run α} {m : Machine}
    (h : Goes names action m) (hm : m.scope = m.globals) :
    (reached (action m)).scope = (reached (action m)).globals := by
  obtain ⟨hscope, hglobals⟩ := Steps.scope_globals h
  rw [hscope, hglobals, hm]

/-- From the outermost frame an action by steps never has to be brought back. -/
theorem backToGlobals_eq {α : Type} {names : Names} {action : Run α} {m : Machine}
    (h : Goes names action m) (hm : m.scope = m.globals) : backToGlobals action m = action m := by
  have hout := h.outermost hm
  unfold backToGlobals
  cases haction : action m with
  | ok a after => rfl
  | error stop after =>
    rw [haction] at hout
    have hscope : after.scope = after.globals := hout
    have hsame : { after with scope := after.globals } = after := by
      cases after
      cases hscope
      rfl
    dsimp only
    rw [hsame]

/-- Flushing leaves the machine alone. -/
theorem reached_flush (m : Machine) : reached (flush m) = m := by
  unfold flush
  cases m.sink.flush <;> rfl

/-- Running a program with its distances from the outermost frame is learning them,
executing the statements and flushing: nothing has to be brought back. -/
theorem interpret_eq {m : Machine} (hm : m.scope = m.globals) (fuel : Nat) (program : Program)
    (hops : Hops) :
    interpret fuel program hops m = (do
      learn hops
      executeProgramBy .recorded fuel program
      flush : Run Unit) m := by
  have hlearned : backToGlobals (executeProgramBy .recorded fuel program)
      { m with hops := m.hops.insertAll hops.entries } =
      executeProgramBy .recorded fuel program { m with hops := m.hops.insertAll hops.entries } :=
    backToGlobals_eq (executeProgramBy_goes .recorded fuel program _) hm
  change EStateM.bind (backToGlobals _) (fun _ => flush) _ =
    EStateM.bind (executeProgramBy _ _ _) (fun _ => flush) _
  unfold EStateM.bind
  rw [hlearned]

/-- A program runs alike when its statements do, however names are looked up. -/
theorem interpretBy_congr {names names' : Names} {fuel : Nat} {program : Program} {hops : Hops}
    {m : Machine} (h : executeProgramBy names fuel program
        { m with hops := m.hops.insertAll hops.entries } =
      executeProgramBy names' fuel program { m with hops := m.hops.insertAll hops.entries }) :
    interpretBy names fuel program hops m = interpretBy names' fuel program hops m := by
  have hback : backToGlobals (executeProgramBy names fuel program)
        { m with hops := m.hops.insertAll hops.entries } =
      backToGlobals (executeProgramBy names' fuel program)
        { m with hops := m.hops.insertAll hops.entries } := by
    unfold backToGlobals
    rw [h]
  change EStateM.bind (backToGlobals _) (fun _ => flush) _ =
    EStateM.bind (backToGlobals _) (fun _ => flush) _
  unfold EStateM.bind
  rw [hback]

/-- Running a program from the outermost frame leads where its statements lead. -/
theorem reached_interpret {m : Machine} (hm : m.scope = m.globals) (fuel : Nat)
    (program : Program) (hops : Hops) :
    reached (interpret fuel program hops m) = reached (executeProgramBy .recorded fuel program
      { m with hops := m.hops.insertAll hops.entries }) := by
  rw [interpret_eq hm]
  change reached (EStateM.bind (executeProgramBy _ _ _) (fun _ => flush) _) = _
  unfold EStateM.bind
  cases executeProgramBy .recorded fuel program
    { m with hops := m.hops.insertAll hops.entries } with
  | ok _ after => exact reached_flush after
  | error stop after => rfl

/-- Running a program from the outermost frame ends there. -/
theorem interpret_outermost {m : Machine} (hm : m.scope = m.globals) (fuel : Nat)
    (program : Program) (hops : Hops) :
    (reached (interpret fuel program hops m)).scope =
      (reached (interpret fuel program hops m)).globals := by
  rw [reached_interpret hm]
  exact (executeProgramBy_goes .recorded fuel program
    { m with hops := m.hops.insertAll hops.entries }).outermost hm

end Scriptlet.Machine

namespace Scriptlet.Session

open Machine

/-- Between sources the current frame of a session is the outermost one. -/
theorem runAll_outermost {s : Session} (h : s.machine.scope = s.machine.globals)
    (runs : List (Nat × String)) :
    (s.runAll runs).2.machine.scope = (s.runAll runs).2.machine.globals := by
  have hrun : ∀ (s : Session) fuel source, s.machine.scope = s.machine.globals →
      (s.run fuel source).2.machine.scope = (s.run fuel source).2.machine.globals := by
    intro s fuel source hs
    unfold run runBy executeBy
    dsimp only
    split
    · exact hs
    · rename_i program hops _
      have hout := interpret_outermost hs fuel program hops
      unfold interpret at hout
      revert hout
      cases interpretBy .recorded fuel program hops s.machine <;> exact id
  induction runs generalizing s with
  | nil => exact h
  | cons first rest ih =>
    obtain ⟨fuel, source⟩ := first
    exact ih (hrun s fuel source h)

/-- However evaluating, executing, executing a block or calling ends, from whatever
machine it began, the current frame is the one it began with. So between any two
statements that a session executes at the top level, whatever the program and its
distances are, the current frame is the outermost one, and coming back to it
behind a failure changes nothing. -/
theorem scope_restored (fuel : Nat) :
    (∀ m : Machine,
      (∀ e, (reached (evaluate fuel e m)).scope = m.scope) ∧
      (∀ s, (reached (execute fuel s m)).scope = m.scope) ∧
      (∀ frame body, (reached (within frame (executeAll (execute fuel) body) m)).scope = m.scope) ∧
      ∀ callee paren arguments,
        (reached (callValue (execute fuel) callee paren arguments m)).scope = m.scope) ∧
    ∀ sink clock runs earlier later (hops : Hops),
      let m := ((start sink clock).runAll runs).2.machine
      let between := reached ((do
        learn hops
        executeProgramBy .recorded fuel earlier : Run Unit) m)
      m.scope = m.globals ∧ between.scope = m.globals ∧ between.globals = m.globals ∧
      interpret fuel (earlier ++ later) hops m = (do
        learn hops
        executeProgramBy .recorded fuel (earlier ++ later)
        flush : Run Unit) m := by
  obtain ⟨he, hs⟩ := evaluate_execute_go fuel
  constructor
  · intro m
    refine ⟨fun e => (he e m).scope, fun s => (hs s m).scope, ?_, ?_⟩
    · exact fun frame body => reached_within_scope frame _ m
    · exact fun callee paren arguments => (callValue_goes hs callee paren arguments m).scope
  · intro sink clock runs earlier later hops m between
    have hm : m.scope = m.globals := runAll_outermost rfl runs
    have hbetween := Steps.scope_globals (executeProgramBy_goes .recorded fuel earlier
      { m with hops := m.hops.insertAll hops.entries })
    exact ⟨hm, hbetween.1.trans hm, hbetween.2, interpret_eq hm fuel (earlier ++ later) hops⟩

end Scriptlet.Session
