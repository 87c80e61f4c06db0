import Scriptlet.Proofs.Session.Analysis

/-!
# Sources one after the other

A session is reached from its start by running sources, each with some fuel.
Of the sources that are let through, the places are collected in order.
-/

namespace Scriptlet.Session

open Binding

/-- The places of a source that is let through. -/
def Analysis.places (seen : Analysis) : List Site :=
  match seen.result with
  | .error _ => []
  | .ok (program, _) => program.sites

/-- Run sources one after the other, each with its fuel: the outcomes in order, and
the session behind the last source. -/
def runAll : Session → List (Nat × String) → List Outcome × Session
  | s, [] => ([], s)
  | s, (fuel, source) :: rest =>
    let first := s.run fuel source
    let others := runAll first.2 rest
    (first.1 :: others.1, others.2)

/-- The places of all sources that are let through, when they run one after the other. -/
def placesOfAll : Session → List (Nat × String) → List Site
  | _, [] => []
  | s, (fuel, source) :: rest =>
    (analyse s.nextId source).places ++ placesOfAll (s.run fuel source).2 rest

end Scriptlet.Session
