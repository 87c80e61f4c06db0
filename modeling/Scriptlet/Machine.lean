import Scriptlet.Binding
import Scriptlet.Sink
import Scriptlet.Store.Printer

/-!
# The machine

A machine is the state of a running program: its store, the frame in which
names are defined now, the outermost frame, the recorded distances of names, the
output and the clock. An action on the machine returns a value or stops, and
the state it reached survives in both cases. Actions whose length is not
bounded by the program take fuel; running out of fuel is kept apart from every
failure of the program.
-/

namespace Scriptlet

/-- The outside clock: the reading of each call to come, by its number. -/
structure Clock where
  /-- What the clock shows at its first, second, … reading: the seconds since the
  epoch, below zero before it. -/
  reading : Nat → Float := fun _ => 0
  /-- How often it was read. -/
  calls : Nat := 0

/-- The time that the next reading shows. There is none before the epoch. -/
def Clock.time? (clock : Clock) : Option Float :=
  let seconds := clock.reading clock.calls
  if seconds < 0 then none else some seconds

/-- Why an action gives no value. -/
inductive Stop where
  /-- The program failed. -/
  | fault (error : RuntimeError)
  /-- The output failed. -/
  | sink (fault : SinkFault)
  /-- The fuel did not suffice. -/
  | exhausted
deriving DecidableEq, Repr

/-- How a statement ends: at its end, or by returning from the routine around it. -/
inductive Flow where
  | normal
  | returned (value : Value)
deriving DecidableEq, Repr

/-- The state of a running program. -/
structure Machine where
  /-- Everything made so far. -/
  store : Store
  /-- The outermost frame. -/
  globals : FrameId
  /-- The frame in which names are defined now. -/
  scope : FrameId
  /-- How many links out each bound name is found. -/
  hops : Hops
  /-- The output. -/
  sink : Sink
  /-- The clock. -/
  clock : Clock

/-- An action on a state: it returns a value or stops. -/
abbrev Action := EStateM Stop

/-- An action on a machine. -/
abbrev Run := Action Machine

namespace Machine

/-- The host function that reads the clock. -/
def clockFunction : Native := ⟨"clock", 0⟩

/-- A machine before its first statement: one frame, which binds the clock. -/
def start (sink : Sink) (clock : Clock) : Machine where
  store := { frames := #[{ bindings := Table.empty.insert "clock" (.native clockFunction) }] }
  globals := 0
  scope := 0
  hops := {}
  sink
  clock

/-- Stop for lack of fuel. -/
def exhausted {σ α : Type} : Action σ α := fun m => .error .exhausted m

/-- Fail on a line. -/
def fail {σ α : Type} (line : Nat) (fault : RuntimeFault) : Action σ α :=
  fun m => .error (.fault ⟨line, fault⟩) m

/-- Take a result over into an action. -/
def ofExcept {σ α : Type} : Except RuntimeError α → Action σ α
  | .ok a => pure a
  | .error e => fun m => .error (.fault e) m

/-- Ask about the store. -/
def ask {α : Type} (f : Store → α) : Run α := fun m => .ok (f m.store) m

/-- Make something in the store. -/
def make {α : Type} (f : Store → α × Store) : Run α := fun m =>
  let (a, store) := f m.store
  .ok a { m with store }

/-- Change the store. -/
def change (f : Store → Store) : Run Unit := fun m => .ok () { m with store := f m.store }

/-- The frame in which names are defined now. -/
def currentScope : Run FrameId := fun m => .ok m.scope m

/-- Define a name in the current frame. -/
def define (name : String) (value : Value) : Run Unit := fun m =>
  .ok () { m with store := m.store.define m.scope name value }

/-- Act inside another frame and come back to the current one, however the action ends. -/
def within {α : Type} (frame : FrameId) (action : Run α) : Run α := fun m =>
  match action { m with scope := frame } with
  | .ok a after => .ok a { after with scope := m.scope }
  | .error stop after => .error stop { after with scope := m.scope }

/-- The frame in which the name of an expression is looked up: so many links
out if it is bound, else the globals. -/
def frameOf? (m : Machine) (id : Nat) (name : Token) : Option FrameId :=
  match m.hops.get? id with
  | some links => m.store.ancestor? m.scope links
  | none => m.store.nearest? m.globals name.lexeme

/-- Read the name of an expression. -/
def readName (id : Nat) (name : Token) : Run Value := fun m =>
  match m.store.readIn (m.frameOf? id name) name with
  | .ok value => .ok value m
  | .error e => .error (.fault e) m

/-- Overwrite the name of an expression. The frame is found first, so that the
store is not held while it changes. -/
def writeName (id : Nat) (name : Token) (value : Value) : Run Unit := fun m =>
  match (m.frameOf? id name).filter fun frame => m.store.binds frame name.lexeme with
  | some frame => .ok () { m with store := m.store.define frame name.lexeme value }
  | none => .error (.fault (.undefined name)) m

/-- How the names of expressions are read and overwritten, by the number of the
expression and its name. -/
structure Names where
  /-- Read a name. -/
  read : Nat → Token → Run Value
  /-- Overwrite a name. -/
  write : Nat → Token → Value → Run Unit

/-- Names are read and overwritten at their recorded distances. -/
def Names.recorded : Names := ⟨readName, writeName⟩

/-- Print a value on a line of its own. -/
def printLine (value : Value) : Run Unit := fun m =>
  let (failure, sink) := m.sink.write (m.store.render value ++ "\n").toUTF8.data
  match failure with
  | none => .ok () { m with sink }
  | some f => .error (.sink f) { m with sink }

/-- Flush the output. -/
def flush : Run Unit := fun m =>
  match m.sink.flush with
  | none => .ok () m
  | some f => .error (.sink f) m

/-- Read the clock in a call on a line. The reading counts also when it shows no time. -/
def readClock (line : Nat) : Run Value := fun m =>
  let after := { m with clock := { m.clock with calls := m.clock.calls + 1 } }
  match m.clock.time? with
  | some seconds => .ok (.number seconds) after
  | none => .error (.fault ⟨line, .clockBeforeEpoch⟩) after

end Machine

end Scriptlet
