import Scriptlet.Machine.Run
import Scriptlet.Proofs.Lexical.State
import Scriptlet.Session

/-!
# Running programs under lexical scoping

The meaning of programs in terms of names and locations alone: the numbers of
expressions and the recorded distances are not looked at. Fuel is spent as the
machine spends it, so that programs can be compared that do not end.
-/

namespace Scriptlet.Lexical

open Machine (exhausted fail ofExcept evaluateAll executeAll repeatWhile)

/-- Declare names with their values from left to right. -/
def introduceAll (s : State) (entries : List (String × Value)) : State :=
  entries.foldl (fun s entry => s.introduce entry.1 entry.2) s

/-- Bind a method to an object: a location more, which holds the receiver. -/
def bindMethod (object : ObjectId) (method : Closure) : Run Value := do
  let id ← within method.env.inside do
    change fun s => s.introduce Binding.receiverName (.object object)
    make fun s => s.addFunction ⟨method.routine, s.env⟩
  return .function id

/-- A property of an object: a field if there is one, else a method bound to it. -/
def property (object : ObjectId) (name : Token) : Run Value := do
  let found ← ask fun s => s.objects[object]?
  if let some value := found.bind fun o => o.fields.get? name.lexeme then
    return value
  let method ← ask fun s => (found.bind fun o => s.classes[o.classId]?).bind fun c =>
    c.methods.get? name.lexeme
  match method with
  | some closure => bindMethod object closure
  | none => fail name.line (.undefinedProperty name.lexeme)

/-- The methods of a class declared at a place; of two with one name the later. -/
def methodTable (env : Env) (methods : List Routine) : Table String Closure :=
  Table.ofList (methods.map fun r => (r.name.lexeme, ⟨r, env⟩))

/-- Call a closure with as many arguments as it has parameters. -/
def callClosure (execute : Stmt → Run Flow) (closure : Closure) (arguments : List Value) :
    Run Value := do
  match ← within closure.env.inside (do
    change fun s => introduceAll s ((closure.routine.parameters.map Token.lexeme).zip arguments)
    executeAll execute closure.routine.body) with
  | .returned value => return value
  | .normal => return .nil

/-- Call a value that takes as many arguments as are given. -/
def enter (execute : Stmt → Run Flow) (callee : Value) (paren : Token)
    (arguments : List Value) : Run Value := do
  match callee with
  | .function id =>
    match ← ask fun s => s.functions[id]? with
    | some closure => callClosure execute closure arguments
    | none => return .nil
  | .classRef id =>
    let object ← make fun s => s.addObject { classId := id }
    return .object object
  | _ => readClock paren.line

/-- Call a value: it must be callable and take as many arguments as are given. -/
def callValue (execute : Stmt → Run Flow) (callee : Value) (paren : Token)
    (arguments : List Value) : Run Value := do
  match ← ask fun s => s.arity? callee with
  | none => fail paren.line .notCallable
  | some arity =>
    if arguments.length = arity then enter execute callee paren arguments
    else fail paren.line (.wrongArity arity arguments.length)

mutual

/-- Evaluate an expression. -/
def evaluate : Nat → Expr → Run Value
  | 0, _ => exhausted
  | fuel + 1, e =>
    match e with
    | .literal _ value => pure value.value
    | .group _ inner => evaluate fuel inner
    | .unary _ operator operand => do
      let value ← evaluate fuel operand
      ofExcept (applyUnary operator value)
    | .binary _ left operator right => do
      let a ← evaluate fuel left
      let b ← evaluate fuel right
      ofExcept (applyBinary operator a b)
    | .logical _ left operator right => do
      let a ← evaluate fuel left
      if decides operator a then return a else evaluate fuel right
    | .var _ name => readName name
    | .receiver _ keyword => readName keyword
    | .assign _ name value => do
      let a ← evaluate fuel value
      writeName name a
      return a
    | .call _ callee paren arguments => do
      let f ← evaluate fuel callee
      let given ← evaluateAll (evaluate fuel) arguments
      callValue (execute fuel) f paren given
    | .get _ object name => do
      match ← evaluate fuel object with
      | .object id => property id name
      | _ => fail name.line .noProperties
    | .set _ object name value => do
      match ← evaluate fuel object with
      | .object id =>
        let a ← evaluate fuel value
        change fun s => s.setField id name.lexeme a
        return a
      | _ => fail name.line .noFields

/-- Execute a statement. A local name is declared before its initial value is
evaluated; functions and classes find their own names. -/
def execute : Nat → Stmt → Run Flow
  | 0, _ => exhausted
  | fuel + 1, s =>
    match s with
    | .expr value => do
      let _ ← evaluate fuel value
      return .normal
    | .print value => do
      let a ← evaluate fuel value
      printLine a
      return .normal
    | .var name none => do
      change fun s => s.introduce name.lexeme .nil
      return .normal
    | .var name (some initial) => do
      change fun s => s.declare name.lexeme
      let a ← evaluate fuel initial
      change fun s => s.put name.lexeme a
      return .normal
    | .block body => do
      let env ← ask State.env
      within env.inside (executeAll (execute fuel) body)
    | .ifThen condition yes => do
      let a ← evaluate fuel condition
      if a.isTruthy then execute fuel yes else return .normal
    | .ifElse condition yes no => do
      let a ← evaluate fuel condition
      if a.isTruthy then execute fuel yes else execute fuel no
    | .loop condition body => repeatWhile (evaluate fuel condition) (execute fuel body) fuel
    | .function routine => do
      change fun s => s.declare routine.name.lexeme
      let id ← make fun s => s.addFunction ⟨routine, s.env⟩
      change fun s => s.put routine.name.lexeme (.function id)
      return .normal
    | .ret _ none => return .returned .nil
    | .ret _ (some value) => do
      let a ← evaluate fuel value
      return .returned a
    | .classDecl name methods => do
      change fun s => s.declare name.lexeme
      let id ← make fun s => s.addClass ⟨name.lexeme, methodTable s.env methods⟩
      change fun s => s.put name.lexeme (.classRef id)
      return .normal

end

/-- Execute the statements of a program in order; a `return` at the top level
ends only its own statement. -/
def executeProgram (fuel : Nat) : Program → Run Unit
  | [] => pure ()
  | s :: rest => do
    let _ ← execute fuel s
    executeProgram fuel rest

/-- Run a program at the top level, and flush the output at the end. -/
def interpret (fuel : Nat) (program : Program) : Run Unit := do
  within none (executeProgram fuel program)
  flush

/-- A session under lexical scoping. -/
structure Session where
  /-- The state in which every source runs. -/
  state : State
  /-- The number of the next expression. -/
  nextId : Nat := 0

namespace Session

/-- A session before its first source. -/
def start (sink : Sink) (clock : Clock) : Session := ⟨State.start sink clock, 0⟩

/-- Run a source unless it has a static failure. Of what is known of the source
only the program is used. -/
def run (s : Session) (fuel : Nat) (source : String) : Outcome × Session :=
  let seen := Scriptlet.Session.analyse s.nextId source
  let s := { s with nextId := seen.nextId }
  match seen.result with
  | .error errors => (.refused errors, s)
  | .ok (program, _) =>
    match interpret fuel program s.state with
    | .ok _ state => (.ok, { s with state })
    | .error stop state => (.ofStop stop, { s with state })

end Session

end Scriptlet.Lexical
