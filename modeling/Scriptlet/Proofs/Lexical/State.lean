import Scriptlet.Machine

/-!
# Names as locations

The state of a program under lexical scoping. A local name stands for a
location, fixed where the name is declared; the names in force at a place are a
map that is never changed, only extended, and a function keeps the map of the
place of its declaration. Names that the map does not list are global and live
in one table. Nothing here counts scopes or links frames.
-/

namespace Scriptlet.Lexical

/-- The place of a local value. -/
abbrev Location := Nat

/-- The local names in force at a place, with their locations; at the top level
there are none and none can be declared. -/
abbrev Env := Option (Table String Location)

/-- A routine with the names that are in force at its declaration. -/
structure Closure where
  /-- The declaration. -/
  routine : Routine
  /-- The names that its body finds. -/
  env : Env

/-- A class: its name and its methods. -/
structure ClassInfo where
  /-- The name of the class. -/
  name : String
  /-- The methods by name; of two with one name the later. -/
  methods : Table String Closure

/-- The state of a running program. -/
structure State where
  /-- The values of the locations; a location without a value is not initialised. -/
  cells : Array (Option Value) := #[]
  /-- The global names with their values. -/
  globals : Table String Value
  /-- The functions by number. -/
  functions : Array Closure := #[]
  /-- The classes by number. -/
  classes : Array ClassInfo := #[]
  /-- The objects by number. -/
  objects : Array Object := #[]
  /-- The local names in force. -/
  env : Env := none
  /-- The output. -/
  sink : Sink
  /-- The clock. -/
  clock : Clock

/-- The names in force inside a block or a call are at first those around it. -/
def Env.inside (env : Env) : Env := some (env.getD .empty)

/-- The location of a local name. -/
def Env.find? (env : Env) (name : String) : Option Location := env.bind (·.get? name)

namespace State

/-- A state before the first statement: the only global is the clock. -/
def start (sink : Sink) (clock : Clock) : State where
  globals := Table.empty.insert "clock" (.native Machine.clockFunction)
  sink
  clock

/-- The value of a name, unless it is not declared or not initialised. -/
def value? (s : State) (name : String) : Option Value :=
  match s.env.find? name with
  | some location => s.cells[location]?.join
  | none => s.globals.get? name

/-- Give a name a value. -/
def put (s : State) (name : String) (value : Value) : State :=
  match s.env.find? name with
  | some location => { s with cells := s.cells.setIfInBounds location (some value) }
  | none => { s with globals := s.globals.insert name value }

/-- Declare a local name: it stands for a fresh location, not initialised yet. -/
def declare (s : State) (name : String) : State :=
  match s.env with
  | none => s
  | some names =>
    { s with env := some (names.insert name s.cells.size), cells := s.cells.push none }

/-- Declare a name and give it a value. -/
def introduce (s : State) (name : String) (value : Value) : State :=
  (s.declare name).put name value

/-- Add a function. -/
def addFunction (s : State) (closure : Closure) : FunctionId × State :=
  (s.functions.size, { s with functions := s.functions.push closure })

/-- Add a class. -/
def addClass (s : State) (info : ClassInfo) : ClassId × State :=
  (s.classes.size, { s with classes := s.classes.push info })

/-- Add an object. -/
def addObject (s : State) (object : Object) : ObjectId × State :=
  (s.objects.size, { s with objects := s.objects.push object })

/-- Set a field of an object. -/
def setField (s : State) (object : ObjectId) (name : String) (value : Value) : State :=
  { s with objects := s.objects.modify object fun o =>
      { o with fields := o.fields.insert name value } }

/-- Giving a name a value keeps the names in force. -/
@[simp] theorem env_put (s : State) (name : String) (value : Value) :
    (s.put name value).env = s.env := by
  unfold put
  split <;> rfl

/-- Behind a declaration with a value the names in force are those of the declaration. -/
theorem env_introduce (s : State) (name : String) (value : Value) :
    (s.introduce name value).env = (s.declare name).env :=
  env_put (s.declare name) name value

/-- A function may be added before or behind. -/
theorem addFunction_put (s : State) (name : String) (value : Value) (closure : Closure) :
    ((s.put name value).addFunction closure).2 = (s.addFunction closure).2.put name value := by
  unfold put addFunction
  dsimp only
  split <;> rfl

/-- A class may be added before or behind. -/
theorem addClass_put (s : State) (name : String) (value : Value) (info : ClassInfo) :
    ((s.put name value).addClass info).2 = (s.addClass info).2.put name value := by
  unfold put addClass
  dsimp only
  split <;> rfl

/-- Declaring a name adds no function. -/
@[simp] theorem functions_declare (s : State) (name : String) :
    (s.declare name).functions = s.functions := by
  unfold declare
  split <;> rfl

/-- Declaring a name adds no class. -/
@[simp] theorem classes_declare (s : State) (name : String) :
    (s.declare name).classes = s.classes := by
  unfold declare
  split <;> rfl

/-- How many arguments a value takes when called; none if it cannot be called. -/
def arity? (s : State) : Value → Option Nat
  | .native f => some f.arity
  | .function id => s.functions[id]?.map fun c => c.routine.parameters.length
  | .classRef _ => some 0
  | _ => none

/-- The name of a class. -/
def className (s : State) (id : ClassId) : String := (s.classes[id]?.map ClassInfo.name).getD ""

/-- A value as it is printed. -/
def render (s : State) : Value → String
  | .nil => "nil"
  | .bool b => if b then "true" else "false"
  | .number x => Decimal.plain x
  | .text t => t
  | .native _ => "<native fn>"
  | .function id =>
    "<fn " ++ (s.functions[id]?.map fun c => c.routine.name.lexeme).getD "" ++ ">"
  | .classRef id => s.className id
  | .object id => (s.objects[id]?.map fun o => s.className o.classId).getD "" ++ " instance"

end State

/-- An action on a state. -/
abbrev Run := Action State

/-- Ask about the state. -/
def ask {α : Type} (f : State → α) : Run α := fun s => .ok (f s) s

/-- Make something in the state. -/
def make {α : Type} (f : State → α × State) : Run α := fun s =>
  let (a, after) := f s
  .ok a after

/-- Change the state. -/
def change (f : State → State) : Run Unit := fun s => .ok () (f s)

/-- Act with other names in force and come back, however the action ends. -/
def within {α : Type} (env : Env) (action : Run α) : Run α := fun s =>
  match action { s with env } with
  | .ok a after => .ok a { after with env := s.env }
  | .error stop after => .error stop { after with env := s.env }

/-- Read a name. -/
def readName (name : Token) : Run Value := fun s =>
  match s.value? name.lexeme with
  | some value => .ok value s
  | none => .error (.fault (.undefined name)) s

/-- Overwrite a name that has a value. -/
def writeName (name : Token) (value : Value) : Run Unit := fun s =>
  match s.value? name.lexeme with
  | some _ => .ok () (s.put name.lexeme value)
  | none => .error (.fault (.undefined name)) s

/-- Print a value on a line of its own. -/
def printLine (value : Value) : Run Unit := fun s =>
  let (failure, sink) := s.sink.write (s.render value ++ "\n").toUTF8.data
  match failure with
  | none => .ok () { s with sink }
  | some f => .error (.sink f) { s with sink }

/-- Flush the output. -/
def flush : Run Unit := fun s =>
  match s.sink.flush with
  | none => .ok () s
  | some f => .error (.sink f) s

/-- Read the clock in a call on a line. -/
def readClock (line : Nat) : Run Value := fun s =>
  let after := { s with clock := { s.clock with calls := s.clock.calls + 1 } }
  match s.clock.time? with
  | some seconds => .ok (.number seconds) after
  | none => .error (.fault ⟨line, .clockBeforeEpoch⟩) after

end Scriptlet.Lexical
