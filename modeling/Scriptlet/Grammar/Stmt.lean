import Scriptlet.Grammar.Expr

/-!
# Reading statements and declarations

Declarations stand at the top level and in blocks only; a branch or a loop body
is a statement. A declaration that cannot be read is noted and skipped, and the
block around it goes on. As with expressions, nested readers are parameters and
are called only after reading a token.
-/

namespace Scriptlet.Grammar

/-- Declarations up to a closing brace or the end. -/
def declarations (declaration : Reader (Option Stmt)) : Nat → Reader (List Stmt)
  | 0 => exhausted
  | fuel + 1 => do
    if (← nextIs .rightBrace) || (← atEnd) then return []
    let first ← declaration
    let others ← declarations declaration fuel
    return first.toList ++ others

/-- The body of a block after its opening brace, with its closing brace. -/
def block (declaration : Reader (Option Stmt)) (fuel : Nat) : Reader (List Stmt) := do
  let body ← declarations declaration fuel
  let _ ← expect .rightBrace .blockClose
  return body

/-- Parameters separated by commas, after `count` earlier ones. -/
def parameters : Nat → Nat → Reader (List Token)
  | 0, _ => exhausted
  | fuel + 1, count => do
    if maxCount ≤ count then
      noteHere (.tooMany .parameters)
    let first ← expect .identifier .parameterName
    match ← accept? .comma with
    | none => return [first]
    | some _ =>
      let others ← parameters fuel (count + 1)
      return first :: others

/-- A function or method from its name on. -/
def routine (kind : RoutineKind) (declaration : Reader (Option Stmt)) (fuel : Nat) :
    Reader Routine := do
  let name ← expect .identifier (.routineName kind)
  let _ ← expect .leftParen (.routineOpen kind)
  let names ← if ← nextIs .rightParen then pure [] else parameters fuel 0
  let _ ← expect .rightParen .parametersClose
  let _ ← expect .leftBrace (.bodyOpen kind)
  let body ← block declaration fuel
  return .mk name names body

/-- Methods up to a closing brace or the end. -/
def methods (method : Reader Routine) : Nat → Reader (List Routine)
  | 0 => exhausted
  | fuel + 1 => do
    if (← nextIs .rightBrace) || (← atEnd) then return []
    let first ← method
    let others ← methods method fuel
    return first :: others

/-- A class after its keyword. -/
def classDeclaration (declaration : Reader (Option Stmt)) (fuel : Nat) : Reader Stmt := do
  let name ← expect .identifier .className
  let _ ← expect .leftBrace .classOpen
  let members ← methods (routine .method declaration fuel) fuel
  let _ ← expect .rightBrace .classClose
  return .classDecl name members

/-- A variable after its keyword. -/
def varDeclaration (fuel : Nat) : Reader Stmt := do
  let name ← expect .identifier .variableName
  let initial ← match ← accept? .equal with
    | some _ => some <$> expression fuel
    | none => pure none
  let _ ← expect .semicolon .variableEnd
  return .var name initial

/-- An expression with its semicolon. -/
def expressionStatement (fuel : Nat) : Reader Stmt := do
  let value ← expression fuel
  let _ ← expect .semicolon .expressionEnd
  return .expr value

/-- An expression, unless the next token is of the given kind. -/
def expressionUnless (kind : Kind) (fuel : Nat) : Reader (Option Expr) := do
  if ← nextIs kind then return none else some <$> expression fuel

/-- The clause before the first semicolon of a `for`, with that semicolon. -/
def forInitial (fuel : Nat) : Reader (Option Stmt) := do
  if let some _ ← accept? .semicolon then
    return none
  if let some _ ← accept? .kwVar then
    return some (← varDeclaration fuel)
  return some (← expressionStatement fuel)

/-- The loop that a `for` stands for: the step follows the body in a block of
their own, and the initial clause stands before the loop in an outer block. -/
def forLoop (initial : Option Stmt) (condition : Expr) (step : Option Expr) (body : Stmt) : Stmt :=
  let body := match step with
    | some e => .block [body, .expr e]
    | none => body
  let loop := .loop condition body
  match initial with
  | some s => .block [s, loop]
  | none => loop

/-- A `for` after its keyword; an absent condition is true. -/
def forStatement (statement : Reader Stmt) (fuel : Nat) : Reader Stmt := do
  let _ ← expect .leftParen .forOpen
  let initial ← forInitial fuel
  let condition ← expressionUnless .semicolon fuel
  let _ ← expect .semicolon .loopConditionEnd
  let step ← expressionUnless .rightParen fuel
  let _ ← expect .rightParen .forClose
  let body ← statement
  let condition ← match condition with
    | some e => pure e
    | none => node (.literal · (.bool true))
  return forLoop initial condition step body

/-- An `if` after its keyword; an `else` belongs to the nearest `if`. -/
def ifStatement (statement : Reader Stmt) (fuel : Nat) : Reader Stmt := do
  let _ ← expect .leftParen .ifOpen
  let condition ← expression fuel
  let _ ← expect .rightParen .ifClose
  let yes ← statement
  match ← accept? .kwElse with
  | some _ =>
    let no ← statement
    return .ifElse condition yes no
  | none => return .ifThen condition yes

/-- A `while` after its keyword. -/
def whileStatement (statement : Reader Stmt) (fuel : Nat) : Reader Stmt := do
  let _ ← expect .leftParen .whileOpen
  let condition ← expression fuel
  let _ ← expect .rightParen .whileClose
  let body ← statement
  return .loop condition body

/-- A `print` after its keyword. -/
def printStatement (fuel : Nat) : Reader Stmt := do
  let value ← expression fuel
  let _ ← expect .semicolon .printEnd
  return .print value

/-- A `return` after its keyword. -/
def returnStatement (keyword : Token) (fuel : Nat) : Reader Stmt := do
  let value ← expressionUnless .semicolon fuel
  let _ ← expect .semicolon .returnEnd
  return .ret keyword value

/-- A statement, from the readers of the declarations and statements nested in it. -/
def statementRule (declaration : Reader (Option Stmt)) (statement : Reader Stmt) (fuel : Nat) :
    Reader Stmt := do
  if let some _ ← accept? .kwFor then
    return ← forStatement statement fuel
  if let some _ ← accept? .kwIf then
    return ← ifStatement statement fuel
  if let some _ ← accept? .kwPrint then
    return ← printStatement fuel
  if let some keyword ← accept? .kwReturn then
    return ← returnStatement keyword fuel
  if let some _ ← accept? .kwWhile then
    return ← whileStatement statement fuel
  if let some _ ← accept? .leftBrace then
    return .block (← block declaration fuel)
  expressionStatement fuel

/-- A declaration or statement, from the readers of those nested in it. -/
def declarationRule (declaration : Reader (Option Stmt)) (statement : Reader Stmt) (fuel : Nat) :
    Reader Stmt := do
  if let some _ ← accept? .kwClass then
    return ← classDeclaration declaration fuel
  if let some _ ← accept? .kwFunc then
    return .function (← routine .function declaration fuel)
  if let some _ ← accept? .kwVar then
    return ← varDeclaration fuel
  statementRule declaration statement fuel

mutual

/-- A declaration or statement; one that cannot be read is noted and skipped. -/
def declaration : Nat → Reader (Option Stmt)
  | 0 => exhausted
  | fuel + 1 => recovering (declarationRule (declaration fuel) (statement fuel) (fuel + 1))

/-- A statement. -/
def statement : Nat → Reader Stmt
  | 0 => exhausted
  | fuel + 1 => statementRule (declaration fuel) (statement fuel) (fuel + 1)

end

/-- Declarations up to the end. -/
def programFrom (declaration : Reader (Option Stmt)) : Nat → Reader Program
  | 0 => exhausted
  | fuel + 1 => do
    if ← atEnd then return []
    let first ← declaration
    let others ← programFrom declaration fuel
    return first.toList ++ others

/-- A whole program. -/
def program (fuel : Nat) : Reader Program := programFrom (declaration fuel) fuel

/-- A cursor before the tokens of a list up to its first end token; a list
without one ends after its last token. -/
def Cursor.start (tokens : List Token) (firstId : Nat) : Cursor where
  rest := tokens.takeWhile fun t => !t.isEnd
  stop := (tokens.find? Token.isEnd).getD (Token.endAt ((tokens.getLast?.map Token.line).getD 1))
  nextId := firstId

end Scriptlet.Grammar

namespace Scriptlet

/-- What reading a list of tokens yields. -/
structure Parsed where
  /-- The statements that could be read, in order. -/
  program : Program
  /-- The violations, in order. -/
  errors : List SyntaxError
  /-- The first expression number not handed out. -/
  nextId : Nat

/-- Read a program, numbering its expressions from `firstId` on. The fuel
exceeds the number of tokens before the end. -/
def parse (tokens : List Token) (firstId : Nat) : Parsed :=
  let start := Grammar.Cursor.start tokens firstId
  match Grammar.program (start.rest.length + 1) start with
  | .ok program c => ⟨program, c.errors, c.nextId⟩
  | .error _ c => ⟨[], c.errors, c.nextId⟩

end Scriptlet
