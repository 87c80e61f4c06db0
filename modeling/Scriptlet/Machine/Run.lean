import Scriptlet.Machine
import Scriptlet.Machine.Operators

/-!
# Running programs

Expressions are evaluated and statements executed by mutual recursion on fuel:
every step inward, every call and every turn of a loop takes one unit, and none
is used up on the way back. Operands are evaluated from left to right. The
frame in which names are defined is the same before and after every action,
also when the action fails.
-/

namespace Scriptlet.Machine

/-- Evaluate expressions from left to right. -/
def evaluateAll {σ : Type} (evaluate : Expr → Action σ Value) : List Expr → Action σ (List Value)
  | [] => pure []
  | e :: rest => do
    let value ← evaluate e
    let others ← evaluateAll evaluate rest
    return value :: others

/-- Execute statements in order until one of them returns. -/
def executeAll {σ : Type} (execute : Stmt → Action σ Flow) : List Stmt → Action σ Flow
  | [] => pure .normal
  | s :: rest => do
    match ← execute s with
    | .returned value => return .returned value
    | .normal => executeAll execute rest

/-- Repeat a body while a condition holds, until the body returns. -/
def repeatWhile {σ : Type} (condition : Action σ Value) (body : Action σ Flow) :
    Nat → Action σ Flow
  | 0 => exhausted
  | fuel + 1 => do
    let holds ← condition
    if holds.isTruthy then
      match ← body with
      | .returned value => return .returned value
      | .normal => repeatWhile condition body fuel
    else
      return .normal

/-- The frame of a call: the parameters bound to the arguments in order, inside
the frame of the closure. -/
def callFrame (closure : Closure) (arguments : List Value) : Frame where
  bindings := Table.empty.insertAll ((closure.routine.parameters.map Token.lexeme).zip arguments)
  enclosing := some closure.frame

/-- Bind a method to an object, in a frame of its own that binds the receiver. -/
def bindMethod (object : ObjectId) (method : Closure) : Run Value := do
  let frame ← make fun s => s.addFrame
    { bindings := Table.empty.insert Binding.receiverName (.object object)
      enclosing := some method.frame }
  let id ← make fun s => s.addFunction ⟨method.routine, frame⟩
  return .function id

/-- A property of an object: a field if there is one, else a method bound to it. -/
def property (object : ObjectId) (name : Token) : Run Value := do
  let found ← ask fun s => s.objects[object]?
  if let some value := found.bind fun o => o.fields.get? name.lexeme then
    return value
  let method ← ask fun s => (found.bind fun o => s.classes[o.classId]?).bind fun c =>
    c.methods.get? name.lexeme
  match method with
  | some closure => bindMethod object closure
  | none => fail name.line (.undefinedProperty name.lexeme)

/-- The methods of a class declared in a frame; of two with one name the later. -/
def methodTable (frame : FrameId) (methods : List Routine) : Table String Closure :=
  Table.ofList (methods.map fun r => (r.name.lexeme, ⟨r, frame⟩))

/-- Call a closure with as many arguments as it has parameters. -/
def callClosure (execute : Stmt → Run Flow) (closure : Closure) (arguments : List Value) :
    Run Value := do
  let frame ← make fun s => s.addFrame (callFrame closure arguments)
  match ← within frame (executeAll execute closure.routine.body) with
  | .returned value => return value
  | .normal => return .nil

/-- Call a value that takes as many arguments as are given. -/
def enter (execute : Stmt → Run Flow) (callee : Value) (paren : Token)
    (arguments : List Value) : Run Value := do
  match callee with
  | .function id =>
    match ← ask fun s => s.functions[id]? with
    | some closure => callClosure execute closure arguments
    | none => return .nil
  | .classRef id =>
    let object ← make fun s => s.addObject { classId := id }
    return .object object
  | _ => readClock paren.line

/-- Call a value: it must be callable and take as many arguments as are given. -/
def callValue (execute : Stmt → Run Flow) (callee : Value) (paren : Token)
    (arguments : List Value) : Run Value := do
  match ← ask fun s => s.arity? callee with
  | none => fail paren.line .notCallable
  | some arity =>
    if arguments.length = arity then enter execute callee paren arguments
    else fail paren.line (.wrongArity arity arguments.length)

mutual

/-- Evaluate an expression. -/
def evaluateBy (names : Names) : Nat → Expr → Run Value
  | 0, _ => exhausted
  | fuel + 1, e =>
    match e with
    | .literal _ value => pure value.value
    | .group _ inner => evaluateBy names fuel inner
    | .unary _ operator operand => do
      let value ← evaluateBy names fuel operand
      ofExcept (applyUnary operator value)
    | .binary _ left operator right => do
      let a ← evaluateBy names fuel left
      let b ← evaluateBy names fuel right
      ofExcept (applyBinary operator a b)
    | .logical _ left operator right => do
      let a ← evaluateBy names fuel left
      if decides operator a then return a else evaluateBy names fuel right
    | .var id name => names.read id name
    | .receiver id keyword => names.read id keyword
    | .assign id name value => do
      let a ← evaluateBy names fuel value
      names.write id name a
      return a
    | .call _ callee paren arguments => do
      let f ← evaluateBy names fuel callee
      let given ← evaluateAll (evaluateBy names fuel) arguments
      callValue (executeBy names fuel) f paren given
    | .get _ object name => do
      match ← evaluateBy names fuel object with
      | .object id => property id name
      | _ => fail name.line .noProperties
    | .set _ object name value => do
      match ← evaluateBy names fuel object with
      | .object id =>
        let a ← evaluateBy names fuel value
        change fun s => s.setField id name.lexeme a
        return a
      | _ => fail name.line .noFields

/-- Execute a statement. -/
def executeBy (names : Names) : Nat → Stmt → Run Flow
  | 0, _ => exhausted
  | fuel + 1, s =>
    match s with
    | .expr value => do
      let _ ← evaluateBy names fuel value
      return .normal
    | .print value => do
      let a ← evaluateBy names fuel value
      printLine a
      return .normal
    | .var name none => do
      define name.lexeme .nil
      return .normal
    | .var name (some initial) => do
      let a ← evaluateBy names fuel initial
      define name.lexeme a
      return .normal
    | .block body => do
      let scope ← currentScope
      let frame ← make fun s => s.addFrame { enclosing := some scope }
      within frame (executeAll (executeBy names fuel) body)
    | .ifThen condition yes => do
      let a ← evaluateBy names fuel condition
      if a.isTruthy then executeBy names fuel yes else return .normal
    | .ifElse condition yes no => do
      let a ← evaluateBy names fuel condition
      if a.isTruthy then executeBy names fuel yes else executeBy names fuel no
    | .loop condition body =>
      repeatWhile (evaluateBy names fuel condition) (executeBy names fuel body) fuel
    | .function routine => do
      let scope ← currentScope
      let id ← make fun s => s.addFunction ⟨routine, scope⟩
      define routine.name.lexeme (.function id)
      return .normal
    | .ret _ none => return .returned .nil
    | .ret _ (some value) => do
      let a ← evaluateBy names fuel value
      return .returned a
    | .classDecl name methods => do
      let scope ← currentScope
      let id ← make fun s => s.addClass ⟨name.lexeme, methodTable scope methods⟩
      define name.lexeme (.classRef id)
      return .normal

end

/-- Execute the statements of a program in order; a `return` at the top level
ends only its own statement. -/
def executeProgramBy (names : Names) (fuel : Nat) : Program → Run Unit
  | [] => pure ()
  | s :: rest => do
    let _ ← executeBy names fuel s
    executeProgramBy names fuel rest

/-- Add recorded distances to those of earlier programs. -/
def learn (hops : Hops) : Run Unit := fun m =>
  .ok () { m with hops := m.hops.insertAll hops.entries }

/-- Run an action; when it stops, come back to the outermost frame. -/
def backToGlobals {α : Type} (action : Run α) : Run α := fun m =>
  match action m with
  | .ok a after => .ok a after
  | .error stop after => .error stop { after with scope := after.globals }

/-- Run a program with its recorded distances, and flush the output at the end. -/
def interpretBy (names : Names) (fuel : Nat) (program : Program) (hops : Hops) : Run Unit := do
  learn hops
  backToGlobals (executeProgramBy names fuel program)
  flush

/-- Evaluate an expression with its names at their recorded distances. -/
def evaluate : Nat → Expr → Run Value := evaluateBy .recorded

/-- Execute a statement with its names at their recorded distances. -/
def execute : Nat → Stmt → Run Flow := executeBy .recorded

/-- Run a program with its names at their recorded distances. -/
def interpret : Nat → Program → Hops → Run Unit := interpretBy .recorded

end Scriptlet.Machine
