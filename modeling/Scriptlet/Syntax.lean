import Scriptlet.Token

/-!
# Syntax trees

Expressions carry a number by which later phases refer to them; a parser hands
the numbers out, a tree built by hand may repeat them. Operators and names are
kept as tokens, so that failures can point at their lines. A loop with clauses
has no form of its own: it is written with blocks and plain loops.
-/

namespace Scriptlet

/-- A value written in a program. -/
inductive Constant where
  | number (value : Float)
  | text (value : String)
  | bool (value : Bool)
  | nil
deriving DecidableEq, Repr

/-- An expression; the first component of each form is its number. -/
inductive Expr where
  | literal (id : Nat) (value : Constant)
  | unary (id : Nat) (operator : Token) (operand : Expr)
  | binary (id : Nat) (left : Expr) (operator : Token) (right : Expr)
  /-- A binary operator that may leave its right operand alone. -/
  | logical (id : Nat) (left : Expr) (operator : Token) (right : Expr)
  | group (id : Nat) (inner : Expr)
  | var (id : Nat) (name : Token)
  /-- The instance on which the enclosing method was called. -/
  | receiver (id : Nat) (keyword : Token)
  | assign (id : Nat) (name : Token) (value : Expr)
  /-- A call with its closing parenthesis. -/
  | call (id : Nat) (callee : Expr) (paren : Token) (arguments : List Expr)
  | get (id : Nat) (object : Expr) (name : Token)
  | set (id : Nat) (object : Expr) (name : Token) (value : Expr)
deriving Repr

/-- The number of an expression. -/
def Expr.id : Expr → Nat
  | literal id _ | unary id _ _ | binary id _ _ _ | logical id _ _ _ | group id _ | var id _
  | receiver id _ | assign id _ _ | call id _ _ _ | get id _ _ | set id _ _ _ => id

/-- The direct parts of an expression, from left to right. -/
def Expr.children : Expr → List Expr
  | literal .. => []
  | unary _ _ operand => [operand]
  | binary _ left _ right => [left, right]
  | logical _ left _ right => [left, right]
  | group _ inner => [inner]
  | var .. => []
  | receiver .. => []
  | assign _ _ value => [value]
  | call _ callee _ arguments => callee :: arguments
  | get _ object _ => [object]
  | set _ object _ value => [object, value]

/-- The token that an expression shows: its operator, its name or its closing parenthesis. -/
def Expr.token? : Expr → Option Token
  | literal .. => none
  | unary _ operator _ => some operator
  | binary _ _ operator _ => some operator
  | logical _ _ operator _ => some operator
  | group .. => none
  | var _ name => some name
  | receiver _ keyword => some keyword
  | assign _ name _ => some name
  | call _ _ paren _ => some paren
  | get _ _ name => some name
  | set _ _ name _ => some name

mutual

/-- A statement. -/
inductive Stmt where
  | expr (value : Expr)
  | print (value : Expr)
  | var (name : Token) (initial : Option Expr)
  | block (body : List Stmt)
  | ifThen (condition : Expr) (yes : Stmt)
  | ifElse (condition : Expr) (yes no : Stmt)
  | loop (condition : Expr) (body : Stmt)
  | function (routine : Routine)
  | ret (keyword : Token) (value : Option Expr)
  | classDecl (name : Token) (methods : List Routine)

/-- A function or method: its name, its parameters and its body. -/
inductive Routine where
  | mk (name : Token) (parameters : List Token) (body : List Stmt)

end

namespace Routine

/-- The name of a routine. -/
def name : Routine → Token
  | mk name _ _ => name

/-- The parameters of a routine. -/
def parameters : Routine → List Token
  | mk _ parameters _ => parameters

/-- The body of a routine. -/
def body : Routine → List Stmt
  | mk _ _ body => body

end Routine

/-- The statements of a source, in order. -/
abbrev Program := List Stmt

end Scriptlet
