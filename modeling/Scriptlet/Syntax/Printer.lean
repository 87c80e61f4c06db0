import Scriptlet.Decimal.Notation
import Scriptlet.Syntax

/-!
# Trees in parenthesised form

Every form with parts is written as a parenthesis that opens with a head and
lists the parts after it. Text constants are written as they are, without
quotes, so that the written form of a tree with texts can be ambiguous.
-/

namespace Scriptlet

/-- A constant inside a tree. -/
def Constant.render : Constant → String
  | number x => Decimal.tree x
  | text s => s
  | bool b => if b then "true" else "false"
  | nil => "nil"

mutual

/-- The written form of an expression. -/
def Expr.render : Expr → String
  | .literal _ value => value.render
  | .unary _ operator operand => "(" ++ operator.lexeme ++ " " ++ operand.render ++ ")"
  | .binary _ left operator right =>
    "(" ++ operator.lexeme ++ " " ++ left.render ++ " " ++ right.render ++ ")"
  | .logical _ left operator right =>
    "(" ++ operator.lexeme ++ " " ++ left.render ++ " " ++ right.render ++ ")"
  | .group _ inner => "(group " ++ inner.render ++ ")"
  | .var _ name => name.lexeme
  | .receiver _ _ => "this"
  | .assign _ name value => "(= " ++ name.lexeme ++ " " ++ value.render ++ ")"
  | .call _ callee _ arguments => "(call " ++ callee.render ++ Expr.renderAll arguments ++ ")"
  | .get _ object name => "(. " ++ object.render ++ " " ++ name.lexeme ++ ")"
  | .set _ object name value =>
    "(= (. " ++ object.render ++ " " ++ name.lexeme ++ ") " ++ value.render ++ ")"

/-- Expressions one after the other, a space before each. -/
def Expr.renderAll : List Expr → String
  | [] => ""
  | e :: rest => " " ++ e.render ++ Expr.renderAll rest

end

mutual

/-- The written form of a statement. -/
def Stmt.render : Stmt → String
  | .expr value => "(; " ++ value.render ++ ")"
  | .print value => "(print " ++ value.render ++ ")"
  | .var name none => "(var " ++ name.lexeme ++ ")"
  | .var name (some initial) => "(var " ++ name.lexeme ++ " " ++ initial.render ++ ")"
  | .block body => "(block" ++ Stmt.renderAll body ++ ")"
  | .ifThen condition yes => "(if " ++ condition.render ++ " " ++ yes.render ++ ")"
  | .ifElse condition yes no =>
    "(if " ++ condition.render ++ " " ++ yes.render ++ " " ++ no.render ++ ")"
  | .loop condition body => "(while " ++ condition.render ++ " " ++ body.render ++ ")"
  | .function routine => routine.render
  | .ret _ none => "(return)"
  | .ret _ (some value) => "(return " ++ value.render ++ ")"
  | .classDecl name methods => "(class " ++ name.lexeme ++ Routine.renderAll methods ++ ")"

/-- Statements one after the other, a space before each. -/
def Stmt.renderAll : List Stmt → String
  | [] => ""
  | s :: rest => " " ++ s.render ++ Stmt.renderAll rest

/-- The written form of a routine. -/
def Routine.render : Routine → String
  | .mk name parameters body =>
    "(func " ++ name.lexeme ++ " (" ++ " ".intercalate (parameters.map Token.lexeme) ++ ")"
      ++ Stmt.renderAll body ++ ")"

/-- Routines one after the other, a space before each. -/
def Routine.renderAll : List Routine → String
  | [] => ""
  | r :: rest => " " ++ r.render ++ Routine.renderAll rest

end

end Scriptlet
