import Scriptlet.Proofs.Receiver.Run
import Scriptlet.Proofs.Session.Runs

/-!
# The receiver in a session

A session stays tidy from source to source, so that no source ever reads another value for
the receiver than the object whose property access produced the method around it.
-/

namespace Scriptlet.Receiver

open Binding Machine

variable {root : Machine} {seen : List Site} {s : Session}

/-- Between two sources a session has a tidy machine at the top level, and the numbers to
come are free. -/
structure Ready (root : Machine) (seen : List Site) (s : Session) : Prop where
  /-- The machine is tidy. -/
  tidy : Tidy root seen s.machine
  /-- It is at the top level. -/
  outermost : s.machine.scope = s.machine.globals
  /-- What the sources so far have settled. -/
  settles : Settles seen s.machine.hops s.nextId

/-- A machine is tidy before its first statement. -/
theorem tidy_start (sink : Sink) (clock : Clock) :
    Tidy (Machine.start sink clock) [] (Machine.start sink clock) where
  history := .start
  rooted := rooted_start sink clock
  settled := fun _ hmem => absurd hmem List.not_mem_nil
  free := rfl
  functions := fun _ _ h => by cases h
  classes := fun _ _ h => by cases h
  calls := by
    intro frame outer hlink
    have hframe : frame < 1 := Store.lt_size_of_enclosing hlink
    obtain rfl := Nat.lt_one_iff.mp hframe
    cases hlink

/-- A session is ready before its first source. -/
theorem Ready.start (sink : Sink) (clock : Clock) :
    Ready (Machine.start sink clock) [] (Session.start sink clock) :=
  ⟨tidy_start sink clock, rfl, .start⟩

/-- A source does not set off the watch, and leaves the session ready for the next one. -/
theorem Ready.run (h : Ready root seen s) (fuel : Nat) (source : String) :
    (∀ alarm, s.runBy (watching root (seen ++ (Session.analyse s.nextId source).places) alarm) fuel
        source = s.run fuel source) ∧
      Steps ReceiverStep s.machine (s.run fuel source).2.machine ∧
      Ready root (seen ++ (Session.analyse s.nextId source).places) (s.run fuel source).2 := by
  have hle := Session.le_analyse_nextId s.nextId source
  rcases hseen : Session.analyse s.nextId source with ⟨n, errors | ⟨program, hops⟩⟩
  · rw [hseen] at hle
    have hplaces : seen ++ (⟨n, .error errors⟩ : Session.Analysis).places = seen :=
      List.append_nil seen
    rw [hplaces, Session.run_of_refused hseen]
    exact ⟨fun alarm => Session.runBy_of_refused hseen _ fuel, .refl _, h.tidy, h.outermost,
      h.settles.skip hle⟩
  · have hsettles := Session.Settles.analyse h.settles hseen
    obtain ⟨hstep, htidy⟩ := h.tidy.learn (s.machine.hops.insertAll hops.entries)
      (List.subset_append_left seen program.sites) hsettles.settled
    have hstands : Stands root (seen ++ program.sites) [] none
        { s.machine with hops := s.machine.hops.insertAll hops.entries } := by
      refine ⟨htidy, ?_, ?_⟩
      · rw [h.outermost]
        exact htidy.free
      · rw [h.outermost]
        exact .outermost
    have hfaithful := fun alarm =>
      hstands.program alarm fuel program (List.subset_append_right seen program.sites)
    have hkept := (hfaithful .exhausted).kept
    obtain ⟨-, -, hscope, hglobals⟩ := receivers_of_steps hkept.steps
    have hsession : (s.run fuel source).2 = ⟨reached (executeProgramBy .recorded fuel program
        { s.machine with hops := s.machine.hops.insertAll hops.entries }), n⟩ := by
      rw [Session.run_of_bound hseen, Session.ended_session, reached_interpret h.outermost]
    refine ⟨fun alarm => ?_, ?_, ?_⟩
    · rw [Session.runBy_of_bound hseen, Session.run_of_bound hseen]
      exact congrArg (Session.ended n) (interpretBy_congr (hfaithful alarm).watch)
    · rw [hsession]
      exact (Steps.once hstep).trans hkept.steps
    · rw [hsession]
      refine ⟨hkept.tidy, hscope.trans (h.outermost.trans hglobals.symm), ?_⟩
      rw [(Steps.rest (executeProgramBy_goes .recorded fuel program _)).1]
      exact hsettles

/-- Sources one after the other leave a session ready. -/
theorem Ready.runAll (h : Ready root seen s) (runs : List (Nat × String)) :
    Steps ReceiverStep s.machine (s.runAll runs).2.machine ∧
      Ready root (seen ++ Session.placesOfAll s runs) (s.runAll runs).2 := by
  induction runs generalizing seen s with
  | nil => exact ⟨.refl _, (List.append_nil seen).symm ▸ h⟩
  | cons first rest ih =>
    obtain ⟨fuel, source⟩ := first
    obtain ⟨-, hsteps, hready⟩ := h.run fuel source
    obtain ⟨hothers, hlast⟩ := ih hready
    refine ⟨hsteps.trans hothers, ?_⟩
    unfold Session.placesOfAll
    rw [← List.append_assoc]
    exact hlast

end Scriptlet.Receiver

namespace Scriptlet.Session

open Binding Machine Receiver

end Scriptlet.Session
