import Scriptlet.Grammar.Stmt
import Scriptlet.Machine.Run

/-!
# Sessions

A session runs one source after the other on one machine, so that later sources
see the globals of earlier ones. Expression numbers go on from source to
source, because the recorded distances of all sources share one table. A source
with a static failure is not run at all.
-/

namespace Scriptlet

/-- How a source fares. -/
inductive Outcome where
  /-- It ran to its end. -/
  | ok
  /-- It was refused before running. -/
  | refused (errors : List Diagnostic)
  /-- It stopped with a failure. -/
  | failed (error : Diagnostic)
  /-- It did not end within its fuel. -/
  | unfinished
deriving DecidableEq, Repr

namespace Outcome

/-- The exit code of a program that ends so. -/
def exitCode : Outcome → Nat
  | ok => 0
  | refused _ => 65
  | failed _ => 70
  | unfinished => 70

/-- Every report, in order. -/
def errors : Outcome → List Diagnostic
  | ok => []
  | refused errors => errors
  | failed error => [error]
  | unfinished => []

/-- The outcome of a run that stopped. -/
def ofStop : Stop → Outcome
  | .fault e => failed e.diagnostic
  | .sink f => failed (.output f.message)
  | .exhausted => unfinished

end Outcome

/-- A session. -/
structure Session where
  /-- The machine on which every source runs. -/
  machine : Machine
  /-- The number of the next expression. -/
  nextId : Nat := 0

namespace Session

/-- A session before its first source. -/
def start (sink : Sink) (clock : Clock) : Session := ⟨Machine.start sink clock, 0⟩

/-- What is known of a source before it runs: the number of the next expression,
and the program with its distances or else the failures. -/
structure Analysis where
  /-- The number of the next expression. -/
  nextId : Nat
  /-- The program, bound, or every failure in order. -/
  result : Except (List Diagnostic) (Program × Hops)

/-- Look at a source whose expressions are numbered from `n` on. Lexical and
grammatical failures are reported together; scoping is looked at only when
there are none. -/
def analyse (n : Nat) (source : String) : Analysis :=
  let scanned := scan source
  let parsed := parse scanned.tokens n
  let errors := scanned.errors.map LexError.diagnostic
    ++ parsed.errors.map SyntaxError.diagnostic
  if errors ≠ [] then ⟨parsed.nextId, .error errors⟩
  else
    let bound := bindProgram parsed.program
    if bound.errors ≠ [] then ⟨parsed.nextId, .error (bound.errors.map ScopeError.diagnostic)⟩
    else ⟨parsed.nextId, .ok (parsed.program, bound.hops)⟩

/-- Run a bound program on the machine of a session. -/
def executeBy (names : Machine.Names) (s : Session) (fuel : Nat) (program : Program)
    (hops : Hops) : Outcome × Session :=
  match Machine.interpretBy names fuel program hops s.machine with
  | .ok _ machine => (.ok, { s with machine })
  | .error stop machine => (.ofStop stop, { s with machine })

/-- Run a source unless it has a static failure. -/
def runBy (names : Machine.Names) (s : Session) (fuel : Nat) (source : String) :
    Outcome × Session :=
  let seen := analyse s.nextId source
  let s := { s with nextId := seen.nextId }
  match seen.result with
  | .error errors => (.refused errors, s)
  | .ok (program, hops) => s.executeBy names fuel program hops

/-- Run a source with its names at their recorded distances. -/
def run : Session → Nat → String → Outcome × Session := runBy .recorded

end Session

end Scriptlet
