import Scriptlet.Diagnostic
import Scriptlet.Syntax
import Scriptlet.Table

/-!
# Binding names to scopes

A walk over a program in source order keeps the stack of open scopes. Blocks
open a scope, routines open one for their parameters and body together, and a
class opens one that holds the receiver. The top level opens none. For every
name that an open scope declares, the walk records how many scopes lie between
the name and its declaration; names that no open scope declares get no entry
and are left to the globals. Violations of the scoping rules are collected, and
the walk goes on behind them.
-/

namespace Scriptlet

/-- A violation of a scoping rule. -/
inductive ScopeFault where
  /-- A name is declared twice in one scope. -/
  | redeclared
  /-- A variable is read in its own initial value. -/
  | ownInitializer
  /-- A `return` stands outside every routine. -/
  | topLevelReturn
  /-- The receiver is named outside every class. -/
  | strayReceiver
deriving DecidableEq, Repr

/-- The wording of a violation. -/
def ScopeFault.message : ScopeFault → String
  | redeclared => "Already a variable with this name in this scope."
  | ownInitializer => "Can't read local variable in its own initializer."
  | topLevelReturn => "Can't return from top-level code."
  | strayReceiver => "Can't use 'this' outside of a class."

/-- A violation at a token. -/
structure ScopeError where
  /-- The token at which the violation shows. -/
  place : Token
  /-- The violation. -/
  fault : ScopeFault
deriving DecidableEq, Repr

/-- The report of a violation. -/
def ScopeError.diagnostic (e : ScopeError) : Diagnostic := .scoping e.place e.fault.message

/-- For each bound name, by the number of its expression, how many scopes out
it is declared. -/
abbrev Hops := Table Nat Nat

namespace Binding

/-- The name under which a method finds its receiver. -/
def receiverName : String := "this"

/-- What surrounds a place in the program. -/
structure Context where
  /-- Whether a routine surrounds it. -/
  inRoutine : Bool := false
  /-- Whether a class surrounds it. -/
  inClass : Bool := false
deriving DecidableEq, Repr

/-- A scope: its names, true once their initial value is complete. -/
abbrev Scope := Table String Bool

/-- The state of the walk. -/
structure Walk where
  /-- The open scopes, the innermost first. -/
  scopes : List Scope := []
  /-- The distances recorded so far. -/
  hops : Hops := {}
  /-- The violations noted so far, in order. -/
  errors : List ScopeError := []

namespace Walk

/-- Note a violation. -/
def note (w : Walk) (place : Token) (fault : ScopeFault) : Walk :=
  { w with errors := w.errors ++ [⟨place, fault⟩] }

/-- Open a scope. -/
def enter (w : Walk) (scope : Scope) : Walk := { w with scopes := scope :: w.scopes }

/-- Close the innermost scope. -/
def leave (w : Walk) : Walk := { w with scopes := w.scopes.tail }

/-- Declare a name in the innermost scope; its initial value is still to come. -/
def declare (w : Walk) (name : Token) : Walk :=
  match w.scopes with
  | [] => w
  | scope :: outer =>
    if scope.contains name.lexeme then w.note name .redeclared
    else { w with scopes := scope.insert name.lexeme false :: outer }

/-- Mark the initial value of a name of the innermost scope as complete. -/
def complete (w : Walk) (name : Token) : Walk :=
  match w.scopes with
  | [] => w
  | scope :: outer => { w with scopes := scope.insert name.lexeme true :: outer }

/-- Declare a name that needs no initial value. -/
def introduce (w : Walk) (name : Token) : Walk := (w.declare name).complete name

/-- Whether the innermost scope declares a name whose initial value is not complete. -/
def isPending (w : Walk) (name : Token) : Bool :=
  match w.scopes with
  | [] => false
  | scope :: _ => scope.get? name.lexeme == some false

/-- How many scopes out a name is declared. -/
def distance? (w : Walk) (name : String) : Option Nat :=
  w.scopes.findIdx? (·.contains name)

/-- Record the distance of a name, if an open scope declares it. -/
def bind (w : Walk) (id : Nat) (name : Token) : Walk :=
  match w.distance? name.lexeme with
  | some d => { w with hops := w.hops.insert id d }
  | none => w

end Walk

mutual

/-- Walk over an expression. -/
def walkExpr (ctx : Context) (w : Walk) : Expr → Walk
  | .literal _ _ => w
  | .unary _ _ operand => walkExpr ctx w operand
  | .binary _ left _ right => walkExpr ctx (walkExpr ctx w left) right
  | .logical _ left _ right => walkExpr ctx (walkExpr ctx w left) right
  | .group _ inner => walkExpr ctx w inner
  | .var id name => (if w.isPending name then w.note name .ownInitializer else w).bind id name
  | .receiver id keyword =>
    if ctx.inClass then w.bind id keyword else w.note keyword .strayReceiver
  | .assign id name value => (walkExpr ctx w value).bind id name
  | .call _ callee _ arguments => walkExprs ctx (walkExpr ctx w callee) arguments
  | .get _ object _ => walkExpr ctx w object
  | .set _ object _ value => walkExpr ctx (walkExpr ctx w value) object

/-- Walk over expressions from left to right. -/
def walkExprs (ctx : Context) (w : Walk) : List Expr → Walk
  | [] => w
  | e :: rest => walkExprs ctx (walkExpr ctx w e) rest

end

/-- Walk over an expression that may be absent. -/
def walkOption (ctx : Context) (w : Walk) : Option Expr → Walk
  | none => w
  | some e => walkExpr ctx w e

mutual

/-- Walk over a statement. -/
def walkStmt (ctx : Context) (w : Walk) : Stmt → Walk
  | .expr value => walkExpr ctx w value
  | .print value => walkExpr ctx w value
  | .var name initial => (walkOption ctx (w.declare name) initial).complete name
  | .block body => (walkStmts ctx (w.enter .empty) body).leave
  | .ifThen condition yes => walkStmt ctx (walkExpr ctx w condition) yes
  | .ifElse condition yes no => walkStmt ctx (walkStmt ctx (walkExpr ctx w condition) yes) no
  | .loop condition body => walkStmt ctx (walkExpr ctx w condition) body
  | .function (.mk name parameters body) =>
    walkRoutine ctx (w.introduce name) (.mk name parameters body)
  | .ret keyword value =>
    walkOption ctx (if ctx.inRoutine then w else w.note keyword .topLevelReturn) value
  | .classDecl name methods =>
    let inside := (w.introduce name).enter (Table.empty.insert receiverName true)
    (walkRoutines { ctx with inClass := true } inside methods).leave

/-- Walk over statements in order. -/
def walkStmts (ctx : Context) (w : Walk) : List Stmt → Walk
  | [] => w
  | s :: rest => walkStmts ctx (walkStmt ctx w s) rest

/-- Walk over the parameters and the body of a routine, in one scope. -/
def walkRoutine (ctx : Context) (w : Walk) : Routine → Walk
  | .mk _ parameters body =>
    let inside := parameters.foldl Walk.introduce (w.enter .empty)
    (walkStmts { ctx with inRoutine := true } inside body).leave

/-- Walk over routines in order. -/
def walkRoutines (ctx : Context) (w : Walk) : List Routine → Walk
  | [] => w
  | r :: rest => walkRoutines ctx (walkRoutine ctx w r) rest

end

end Binding

/-- What binding a program yields. -/
structure Bound where
  /-- How many scopes out each bound name is declared. -/
  hops : Hops
  /-- The violations, in order. -/
  errors : List ScopeError

/-- Bind the names of a program. -/
def bindProgram (program : Program) : Bound :=
  let w := Binding.walkStmts {} {} program
  ⟨w.hops, w.errors⟩

end Scriptlet
