import Scriptlet.Grammar.Cursor

/-!
# Reading expressions

Each level of precedence is a chain of operands of the next level, grouped to
the left; signs come before an operand, calls and properties after it, and
assignment groups to the right. An expression gets its number when it is
complete, after its parts. The readers take as a parameter the reader of the
expressions nested in them, which they call only after reading a token; so
fuel larger than the number of unread tokens suffices.
-/

namespace Scriptlet.Grammar

/-- The greatest number of arguments or parameters. -/
def maxCount : Nat := 255

/-- The constant that a token stands for. A number or string token stands for
the literal it carries, and for nil when it carries none. -/
def constant? (t : Token) : Option Constant :=
  match t.kind with
  | .kwFalse => some (.bool false)
  | .kwTrue => some (.bool true)
  | .kwNil => some .nil
  | .number | .string =>
    match t.literal with
    | some (.number x) => some (.number x)
    | some (.text s) => some (.text s)
    | none => some .nil
  | _ => none

/-- A constant, a name, the receiver or an expression in parentheses. -/
def primary (nested : Reader Expr) : Reader Expr := do
  if let some value ← acceptMap? constant? then
    return ← node (.literal · value)
  if let some keyword ← accept? .kwThis then
    return ← node (.receiver · keyword)
  if let some name ← accept? .identifier then
    return ← node (.var · name)
  if let some _ ← accept? .leftParen then
    let inner ← nested
    let _ ← expect .rightParen .groupClose
    return ← node (.group · inner)
  missing .expression

/-- Arguments separated by commas, after `count` earlier ones. -/
def arguments (nested : Reader Expr) : Nat → Nat → Reader (List Expr)
  | 0, _ => exhausted
  | fuel + 1, count => do
    if maxCount ≤ count then
      noteHere (.tooMany .arguments)
    let first ← nested
    match ← accept? .comma with
    | none => return [first]
    | some _ =>
      let others ← arguments nested fuel (count + 1)
      return first :: others

/-- The arguments of a call, possibly none, up to the closing parenthesis. -/
def callArguments (nested : Reader Expr) (fuel : Nat) : Reader (List Expr) := do
  if ← nextIs .rightParen then return [] else arguments nested fuel 0

/-- Calls and properties after an operand. -/
def postfixes (nested : Reader Expr) : Nat → Expr → Reader Expr
  | 0, _ => exhausted
  | fuel + 1, operand => do
    if let some _ ← accept? .leftParen then
      let given ← callArguments nested (fuel + 1)
      let paren ← expect .rightParen .argumentsClose
      let call ← node (.call · operand paren given)
      return ← postfixes nested fuel call
    if let some _ ← accept? .dot then
      let name ← expect .identifier .propertyName
      let property ← node (.get · operand name)
      return ← postfixes nested fuel property
    return operand

/-- Signs before an operand. -/
def signed (operand : Reader Expr) : Nat → Reader Expr
  | 0 => exhausted
  | fuel + 1 => do
    match ← acceptAny? [.bang, .minus] with
    | none => operand
    | some operator =>
      let inner ← signed operand fuel
      node (.unary · operator inner)

/-- Operators and operands after a first operand, grouped to the left. -/
def chainFrom (make : Nat → Expr → Token → Expr → Expr) (operators : List Kind)
    (operand : Reader Expr) : Nat → Expr → Reader Expr
  | 0, _ => exhausted
  | fuel + 1, left => do
    match ← acceptAny? operators with
    | none => return left
    | some operator =>
      let right ← operand
      let joined ← node (make · left operator right)
      chainFrom make operators operand fuel joined

/-- Operands joined by operators of one level. -/
def chain (make : Nat → Expr → Token → Expr → Expr) (operators : List Kind)
    (operand : Reader Expr) (fuel : Nat) : Reader Expr := do
  let first ← operand
  chainFrom make operators operand fuel first

/-- An operand with its calls and properties. -/
def call (nested : Reader Expr) (fuel : Nat) : Reader Expr := do
  let operand ← primary nested
  postfixes nested fuel operand

/-- Products and quotients of signed operands. -/
def factor (nested : Reader Expr) (fuel : Nat) : Reader Expr :=
  chain .binary [.star, .slash] (signed (call nested fuel) fuel) fuel

/-- Sums and differences. -/
def term (nested : Reader Expr) (fuel : Nat) : Reader Expr :=
  chain .binary [.minus, .plus] (factor nested fuel) fuel

/-- Comparisons of order. -/
def comparison (nested : Reader Expr) (fuel : Nat) : Reader Expr :=
  chain .binary [.greater, .greaterEqual, .less, .lessEqual] (term nested fuel) fuel

/-- Comparisons of equality. -/
def equality (nested : Reader Expr) (fuel : Nat) : Reader Expr :=
  chain .binary [.bangEqual, .equalEqual] (comparison nested fuel) fuel

/-- Conjunctions. -/
def conjunction (nested : Reader Expr) (fuel : Nat) : Reader Expr :=
  chain .logical [.kwAnd] (equality nested fuel) fuel

/-- Disjunctions. -/
def disjunction (nested : Reader Expr) (fuel : Nat) : Reader Expr :=
  chain .logical [.kwOr] (conjunction nested fuel) fuel

/-- An assignment, or a disjunction alone. The target is read as an expression
and then taken apart; a target of another form is noted at the equals sign, and
the value is dropped. -/
def assignment (nested : Reader Expr) (fuel : Nat) : Reader Expr := do
  let target ← disjunction nested fuel
  match ← accept? .equal with
  | none => return target
  | some sign =>
    let value ← nested
    match target with
    | .var _ name => node (.assign · name value)
    | .get _ object name => node (.set · object name value)
    | other =>
      noteAt sign .invalidTarget
      return other

/-- An expression. -/
def expression : Nat → Reader Expr
  | 0 => exhausted
  | fuel + 1 => assignment (expression fuel) (fuel + 1)

end Scriptlet.Grammar
