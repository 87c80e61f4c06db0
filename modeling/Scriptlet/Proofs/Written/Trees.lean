import Scriptlet.Proofs.Written.Forms
import Scriptlet.Syntax.Printer

/-!
# Trees as words and parentheses

The written form of a tree is the text of words and parentheses: every expression and
every statement with parts is a parenthesis whose first word says which it is. Lists of
parts of any length, such as arguments and bodies, stand in the parenthesis of what has
them, and only the parameters of a routine have a parenthesis of their own.
-/

namespace Scriptlet

/-- A token as a word. -/
def Token.form (t : Token) : Form := .word t.lexeme

mutual

/-- An expression as words and parentheses. -/
def Expr.form : Expr → Form
  | .literal _ value => .word value.render
  | .unary _ operator operand => .list [operator.form, operand.form]
  | .binary _ left operator right => .list [operator.form, left.form, right.form]
  | .logical _ left operator right => .list [operator.form, left.form, right.form]
  | .group _ inner => .list [.word "group", inner.form]
  | .var _ name => name.form
  | .receiver _ _ => .word "this"
  | .assign _ name value => .list [.word "=", name.form, value.form]
  | .call _ callee _ arguments => .list (.word "call" :: callee.form :: Expr.forms arguments)
  | .get _ object name => .list [.word ".", object.form, name.form]
  | .set _ object name value =>
    .list [.word "=", .list [.word ".", object.form, name.form], value.form]

/-- Expressions as words and parentheses. -/
def Expr.forms : List Expr → List Form
  | [] => []
  | e :: rest => e.form :: Expr.forms rest

end

mutual

/-- A statement as words and parentheses. -/
def Stmt.form : Stmt → Form
  | .expr value => .list [.word ";", value.form]
  | .print value => .list [.word "print", value.form]
  | .var name none => .list [.word "var", name.form]
  | .var name (some initial) => .list [.word "var", name.form, initial.form]
  | .block body => .list (.word "block" :: Stmt.forms body)
  | .ifThen condition yes => .list [.word "if", condition.form, yes.form]
  | .ifElse condition yes no => .list [.word "if", condition.form, yes.form, no.form]
  | .loop condition body => .list [.word "while", condition.form, body.form]
  | .function routine => routine.form
  | .ret _ none => .list [.word "return"]
  | .ret _ (some value) => .list [.word "return", value.form]
  | .classDecl name methods => .list (.word "class" :: name.form :: Routine.forms methods)

/-- Statements as words and parentheses. -/
def Stmt.forms : List Stmt → List Form
  | [] => []
  | s :: rest => s.form :: Stmt.forms rest

/-- A routine as words and parentheses. -/
def Routine.form : Routine → Form
  | .mk name parameters body =>
    .list (.word "func" :: name.form :: .list (parameters.map Token.form) :: Stmt.forms body)

/-- Routines as words and parentheses. -/
def Routine.forms : List Routine → List Form
  | [] => []
  | r :: rest => r.form :: Routine.forms rest

end

mutual

/-- The written form of an expression is the text of its words and parentheses. -/
theorem Expr.toList_render (e : Expr) : e.render.toList = e.form.text := by
  cases e with
  | literal id value => rfl
  | unary id operator operand =>
    simp [render, form, Form.text, Form.textBehind, Token.form, toList_render operand]
  | binary id left operator right =>
    simp [render, form, Form.text, Form.textBehind, Token.form, toList_render left,
      toList_render right]
  | logical id left operator right =>
    simp [render, form, Form.text, Form.textBehind, Token.form, toList_render left,
      toList_render right]
  | group id inner => simp [render, form, Form.text, Form.textBehind, toList_render inner]
  | var id name => rfl
  | receiver id keyword => rfl
  | assign id name value =>
    simp [render, form, Form.text, Form.textBehind, Token.form, toList_render value]
  | call id callee paren arguments =>
    simp [render, form, Form.text, Form.textBehind, toList_render callee,
      toList_renderAll arguments]
  | get id object name =>
    simp [render, form, Form.text, Form.textBehind, Token.form, toList_render object]
  | set id object name value =>
    simp [render, form, Form.text, Form.textBehind, Token.form, toList_render object,
      toList_render value]

/-- Expressions one after the other are written as their words and parentheses are. -/
theorem Expr.toList_renderAll (es : List Expr) :
    (Expr.renderAll es).toList = Form.textBehind (Expr.forms es) := by
  cases es with
  | nil => rfl
  | cons e rest =>
    simp [renderAll, forms, Form.textBehind, toList_render e, toList_renderAll rest]

end

/-- Names with spaces between them are written as the inside of a parenthesis of words. -/
theorem Token.toList_parameters (names : List Token) :
    '(' :: ((" ".intercalate (names.map Token.lexeme)).toList ++ [')']) =
      (Form.list (names.map Token.form)).text := by
  rw [String.toList_intercalate, List.map_map]
  have hbehind : ∀ (first : Token) (others : List Token),
      [' '].intercalate ((first :: others).map (fun t => t.lexeme.toList)) =
        first.lexeme.toList ++ Form.textBehind (others.map Token.form) := by
    intro first others
    induction others generalizing first with
    | nil => simp [Form.textBehind]
    | cons next others ih =>
      rw [List.map_cons, List.map_cons, List.intercalate_cons_cons]
      have hothers := ih next
      rw [List.map_cons] at hothers
      rw [hothers]
      simp [Form.textBehind, Form.text, Token.form]
  cases names with
  | nil => rfl
  | cons first others =>
    have hjoined := hbehind first others
    simp only [Form.text, List.map_cons, Token.form, ← List.append_assoc]
    exact congrArg (fun inside => '(' :: (inside ++ [')'])) hjoined

mutual

/-- The written form of a statement is the text of its words and parentheses. -/
theorem Stmt.toList_render (s : Stmt) : s.render.toList = s.form.text := by
  cases s with
  | expr value =>
    simp [Stmt.render, Stmt.form, Form.text, Form.textBehind, Expr.toList_render value]
  | print value =>
    simp [Stmt.render, Stmt.form, Form.text, Form.textBehind, Expr.toList_render value]
  | var name initial =>
    cases initial with
    | none => simp [Stmt.render, Stmt.form, Form.text, Form.textBehind, Token.form]
    | some e =>
      simp [Stmt.render, Stmt.form, Form.text, Form.textBehind, Token.form, Expr.toList_render e]
  | block body => simp [Stmt.render, Stmt.form, Form.text, Stmt.toList_renderAll body]
  | ifThen condition yes =>
    simp [Stmt.render, Stmt.form, Form.text, Form.textBehind, Expr.toList_render condition,
      Stmt.toList_render yes]
  | ifElse condition yes no =>
    simp [Stmt.render, Stmt.form, Form.text, Form.textBehind, Expr.toList_render condition,
      Stmt.toList_render yes, Stmt.toList_render no]
  | loop condition body =>
    simp [Stmt.render, Stmt.form, Form.text, Form.textBehind, Expr.toList_render condition,
      Stmt.toList_render body]
  | function routine => exact routine.toList_render
  | ret keyword value =>
    cases value with
    | none => simp [Stmt.render, Stmt.form, Form.text, Form.textBehind]
    | some e => simp [Stmt.render, Stmt.form, Form.text, Form.textBehind, Expr.toList_render e]
  | classDecl name methods =>
    simp [Stmt.render, Stmt.form, Form.text, Form.textBehind, Token.form,
      Routine.toList_renderAll methods]

/-- Statements one after the other are written as their words and parentheses are. -/
theorem Stmt.toList_renderAll (ss : List Stmt) :
    (Stmt.renderAll ss).toList = Form.textBehind (Stmt.forms ss) := by
  cases ss with
  | nil => rfl
  | cons s rest =>
    simp [Stmt.renderAll, Stmt.forms, Form.textBehind, Stmt.toList_render s,
      Stmt.toList_renderAll rest]

/-- The written form of a routine is the text of its words and parentheses. -/
theorem Routine.toList_render (r : Routine) : r.render.toList = r.form.text := by
  cases r with
  | mk name parameters body =>
    simp [Routine.render, Routine.form, Form.text, Form.textBehind, ← Token.toList_parameters,
      Token.form, Stmt.toList_renderAll body]

/-- Routines one after the other are written as their words and parentheses are. -/
theorem Routine.toList_renderAll (rs : List Routine) :
    (Routine.renderAll rs).toList = Form.textBehind (Routine.forms rs) := by
  cases rs with
  | nil => rfl
  | cons r rest =>
    simp [Routine.renderAll, Routine.forms, Form.textBehind, Routine.toList_render r,
      Routine.toList_renderAll rest]

end

end Scriptlet
