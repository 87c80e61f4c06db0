import Scriptlet.Proofs.Machine.Scope
import Scriptlet.Proofs.Machine.Truncated
import Scriptlet.Proofs.Session.Analysis

/-!
# Sessions whose output fills up

A source that is run when the output has room for so many more bytes fares as with
room for any number of bytes, if what it prints fits. Else its run fails for lack of
room, and just the bytes that fit were printed.
-/

namespace Scriptlet

namespace Machine

/-- A run that fails for lack of room comes back to the outermost frame. -/
theorem scope_of_full {fuel : Nat} {program : Program} {hops : Hops} {m after : Machine}
    (h : interpret fuel program hops m = .error (.sink .full) after) :
    after.scope = m.globals ∧ after.globals = m.globals := by
  generalize hlearned : { m with hops := m.hops.insertAll hops.entries } = learned
  have hglobals : (reached (executeProgramBy .recorded fuel program learned)).globals =
      m.globals := by
    rw [(executeProgramBy_goes .recorded fuel program learned).scope_globals.2, ← hlearned]
  change EStateM.bind (backToGlobals _) (fun _ => flush) { m with hops := _ } = _ at h
  rw [hlearned] at h
  unfold EStateM.bind backToGlobals at h
  revert hglobals h
  cases executeProgramBy .recorded fuel program learned with
  | ok _ ended =>
    -- Flushing fails in a way of its own.
    intro _ h
    dsimp only at h
    unfold flush Sink.flush at h
    split at h
    · cases h
    · rename_i hfault
      split at hfault <;> cases hfault
      cases h
  | error stop ended =>
    intro hglobals h
    cases h
    exact ⟨hglobals, hglobals⟩

end Machine

namespace Session

open Machine

/-- A session that writes elsewhere. -/
def writingTo (s : Session) (sink : Sink) : Session := { s with machine := { s.machine with sink } }

/-- A session on a machine with limited room. -/
theorem ended_limited {result : EStateM.Result Stop Machine Unit} {written : Array UInt8}
    (nextId limit : Nat) (h : (reached result).sink = { written }) :
    ended nextId (onMachine (limited limit) result) =
      ((ended nextId result).1,
        (ended nextId result).2.writingTo { written, capacity := some limit }) := by
  have hlimited : (reached result).limited limit =
      { reached result with sink := { written, capacity := some limit } } := by
    unfold limited
    rw [h]
  cases result with
  | ok _ after => exact congrArg (fun m => (Outcome.ok, Session.mk m nextId)) hlimited
  | error stop after =>
    exact congrArg (fun m => (Outcome.ofStop stop, Session.mk m nextId)) hlimited

/-- Whatever was printed before, a source that is run when the output has room for so many more
bytes does the same as with room for any number when all it prints there fits. Else it fails
for lack of room, having printed as many bytes of that as fit, and the current frame is the
outermost one. -/
theorem full_sink_truncates (s : Session) (fuel : Nat) (source : String) (kept : Array UInt8)
    (limit : Nat) :
    let capacity := some (kept.size + limit)
    let free := (s.writingTo { written := kept }).run fuel source
    let full := (s.writingTo { written := kept, capacity }).run fuel source
    ∃ printed, free.2.machine.sink = { written := kept ++ printed } ∧
      (printed.size ≤ limit →
        full = (free.1, free.2.writingTo { written := kept ++ printed, capacity })) ∧
      (limit < printed.size →
        full.1 = .failed (.output SinkFault.full.message) ∧
        full.2.machine.sink = { written := kept ++ printed.take limit, capacity } ∧
        full.2.machine.scope = s.machine.globals ∧ full.2.machine.globals = s.machine.globals ∧
        full.2.nextId = free.2.nextId) := by
  intro capacity free full
  rcases hseen : analyse s.nextId source with ⟨n, errors | ⟨program, hops⟩⟩
  · have hfree : free = (.refused errors, ⟨{ s.machine with sink := { written := kept } }, n⟩) :=
      run_of_refused (s := s.writingTo { written := kept }) hseen fuel
    have hfull : full =
        (.refused errors, ⟨{ s.machine with sink := { written := kept, capacity } }, n⟩) :=
      run_of_refused (s := s.writingTo { written := kept, capacity }) hseen fuel
    refine ⟨#[], ?_, fun _ => ?_, fun himpossible => absurd himpossible (Nat.not_lt_zero _)⟩
    · rw [hfree, Array.append_empty]
    · rw [hfree, hfull, Array.append_empty]
      rfl
  · let m : Machine := { s.machine with sink := { written := kept } }
    have hfree : free = ended n (interpret fuel program hops m) :=
      run_of_bound (s := s.writingTo { written := kept }) hseen fuel
    have hfull : full = ended n (interpret fuel program hops (m.limited (kept.size + limit))) :=
      run_of_bound (s := s.writingTo { written := kept, capacity }) hseen fuel
    obtain ⟨⟨printed, hprinted⟩, hfits, hover⟩ :=
      interpret_truncates (kept.size + limit) fuel program hops m rfl
    have hsink : (reached (interpret fuel program hops m)).sink = { written := kept ++ printed } :=
      hprinted
    have hsize : (reached (interpret fuel program hops m)).sink.written.size =
        kept.size + printed.size := by
      rw [hsink, Array.size_append]
    rw [hsize] at hfits hover
    refine ⟨printed, ?_, fun hroom => ?_, fun hshort => ?_⟩
    · rw [hfree, ended_session, hsink]
    · rw [hfree, hfull, hfits (by omega)]
      exact ended_limited n (kept.size + limit) hsink
    · obtain ⟨after, hafter, hkept⟩ := hover (Nat.le_add_right _ _) (by omega)
      obtain ⟨hscope, hglobals⟩ := scope_of_full hafter
      rw [hsink, Sink.take_append_add] at hkept
      rw [hfree, hfull, hafter, ended_session, ended_session]
      exact ⟨rfl, hkept, hscope, hglobals, rfl⟩

end Session

end Scriptlet
