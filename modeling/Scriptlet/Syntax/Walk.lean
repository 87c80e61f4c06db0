import Scriptlet.Syntax

/-!
# Listing the parts of a tree

An expression is listed before its parts, a statement before the statements in
it, both from left to right.
-/

namespace Scriptlet

mutual

/-- An expression and every expression inside it. -/
def Expr.nodes : Expr → List Expr
  | .literal id value => [.literal id value]
  | .unary id operator operand => .unary id operator operand :: operand.nodes
  | .binary id left operator right =>
    .binary id left operator right :: (left.nodes ++ right.nodes)
  | .logical id left operator right =>
    .logical id left operator right :: (left.nodes ++ right.nodes)
  | .group id inner => .group id inner :: inner.nodes
  | .var id name => [.var id name]
  | .receiver id keyword => [.receiver id keyword]
  | .assign id name value => .assign id name value :: value.nodes
  | .call id callee paren arguments =>
    .call id callee paren arguments :: (callee.nodes ++ Expr.nodesOfAll arguments)
  | .get id object name => .get id object name :: object.nodes
  | .set id object name value => .set id object name value :: (object.nodes ++ value.nodes)

/-- The expressions inside the members of a list. -/
def Expr.nodesOfAll : List Expr → List Expr
  | [] => []
  | e :: rest => e.nodes ++ Expr.nodesOfAll rest

end

/-- The expressions inside an optional expression. -/
def Expr.nodesOfOption : Option Expr → List Expr
  | none => []
  | some e => e.nodes

mutual

/-- Every expression inside a statement. -/
def Stmt.exprs : Stmt → List Expr
  | .expr value => value.nodes
  | .print value => value.nodes
  | .var _ initial => Expr.nodesOfOption initial
  | .block body => Stmt.exprsOfAll body
  | .ifThen condition yes => condition.nodes ++ yes.exprs
  | .ifElse condition yes no => condition.nodes ++ yes.exprs ++ no.exprs
  | .loop condition body => condition.nodes ++ body.exprs
  | .function routine => routine.exprs
  | .ret _ value => Expr.nodesOfOption value
  | .classDecl _ methods => Routine.exprsOfAll methods

/-- Every expression inside a list of statements. -/
def Stmt.exprsOfAll : List Stmt → List Expr
  | [] => []
  | s :: rest => s.exprs ++ Stmt.exprsOfAll rest

/-- Every expression inside a routine. -/
def Routine.exprs : Routine → List Expr
  | .mk _ _ body => Stmt.exprsOfAll body

/-- Every expression inside a list of routines. -/
def Routine.exprsOfAll : List Routine → List Expr
  | [] => []
  | r :: rest => r.exprs ++ Routine.exprsOfAll rest

end

/-- A statement, or a method of a class, as an entry of a listing. -/
inductive Entry where
  | stmt (s : Stmt)
  | method (r : Routine)

mutual

/-- A statement, the statements inside it, and the methods of classes. -/
def Stmt.entries : Stmt → List Entry
  | .expr value => [.stmt (.expr value)]
  | .print value => [.stmt (.print value)]
  | .var name initial => [.stmt (.var name initial)]
  | .block body => .stmt (.block body) :: Stmt.entriesOfAll body
  | .ifThen condition yes => .stmt (.ifThen condition yes) :: yes.entries
  | .ifElse condition yes no => .stmt (.ifElse condition yes no) :: (yes.entries ++ no.entries)
  | .loop condition body => .stmt (.loop condition body) :: body.entries
  | .function routine => .stmt (.function routine) :: routine.bodyEntries
  | .ret keyword value => [.stmt (.ret keyword value)]
  | .classDecl name methods => .stmt (.classDecl name methods) :: Routine.entriesOfAll methods

/-- The entries of a list of statements. -/
def Stmt.entriesOfAll : List Stmt → List Entry
  | [] => []
  | s :: rest => s.entries ++ Stmt.entriesOfAll rest

/-- The entries of the body of a routine. -/
def Routine.bodyEntries : Routine → List Entry
  | .mk _ _ body => Stmt.entriesOfAll body

/-- The entries of a list of methods. -/
def Routine.entriesOfAll : List Routine → List Entry
  | [] => []
  | r :: rest => .method r :: (r.bodyEntries ++ Routine.entriesOfAll rest)

end

end Scriptlet
