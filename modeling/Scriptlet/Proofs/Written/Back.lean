import Scriptlet.Proofs.Decimal.Tree
import Scriptlet.Proofs.Grammar.Operators
import Scriptlet.Proofs.Written.Words

/-!
# Reading a written tree back

What stands first in a parenthesis, and how many parts follow, says which expression or
statement it is. A word says by its kind which constant or name it is, and by its first
characters that it is a number. So there is a reader of words and parentheses, and what
it finds is the tree that was written, apart from what is not written: the numbers of
expressions, the lines of tokens and the closing parentheses of calls.
-/

namespace Scriptlet

/-- The closing parenthesis of a call, on no line. -/
def Token.closing : Token := ⟨.rightParen, ")", none, 0⟩

mutual

/-- An expression without numbers, without lines and with the same closing parenthesis in every
call. -/
def Expr.bare : Expr → Expr
  | .literal _ value => .literal 0 value
  | .unary _ operator operand => .unary 0 operator.unplaced operand.bare
  | .binary _ left operator right => .binary 0 left.bare operator.unplaced right.bare
  | .logical _ left operator right => .logical 0 left.bare operator.unplaced right.bare
  | .group _ inner => .group 0 inner.bare
  | .var _ name => .var 0 name.unplaced
  | .receiver _ keyword => .receiver 0 keyword.unplaced
  | .assign _ name value => .assign 0 name.unplaced value.bare
  | .call _ callee _ arguments => .call 0 callee.bare Token.closing (Expr.bareAll arguments)
  | .get _ object name => .get 0 object.bare name.unplaced
  | .set _ object name value => .set 0 object.bare name.unplaced value.bare

/-- Expressions without numbers and lines. -/
def Expr.bareAll : List Expr → List Expr
  | [] => []
  | e :: rest => e.bare :: Expr.bareAll rest

end

mutual

/-- A statement without the numbers of its expressions and without lines. -/
def Stmt.bare : Stmt → Stmt
  | .expr value => .expr value.bare
  | .print value => .print value.bare
  | .var name initial => .var name.unplaced (initial.map Expr.bare)
  | .block body => .block (Stmt.bareAll body)
  | .ifThen condition yes => .ifThen condition.bare yes.bare
  | .ifElse condition yes no => .ifElse condition.bare yes.bare no.bare
  | .loop condition body => .loop condition.bare body.bare
  | .function routine => .function routine.bare
  | .ret keyword value => .ret keyword.unplaced (value.map Expr.bare)
  | .classDecl name methods => .classDecl name.unplaced (Routine.bareAll methods)

/-- Statements without numbers and lines. -/
def Stmt.bareAll : List Stmt → List Stmt
  | [] => []
  | s :: rest => s.bare :: Stmt.bareAll rest

/-- A routine without the numbers of its expressions and without lines. -/
def Routine.bare : Routine → Routine
  | .mk name parameters body =>
    .mk name.unplaced (parameters.map Token.unplaced) (Stmt.bareAll body)

/-- Routines without numbers and lines. -/
def Routine.bareAll : List Routine → List Routine
  | [] => []
  | r :: rest => r.bare :: Routine.bareAll rest

end

mutual

/-- What an expression is without its numbers and lines is written as the expression is. -/
theorem Expr.form_bare (e : Expr) : e.bare.form = e.form := by
  cases e with
  | literal id value => rfl
  | unary id operator operand =>
    rw [bare, form, form_bare operand]
    rfl
  | binary id left operator right =>
    rw [bare, form, form_bare left, form_bare right]
    rfl
  | logical id left operator right =>
    rw [bare, form, form_bare left, form_bare right]
    rfl
  | group id inner =>
    rw [bare, form, form_bare inner]
    rfl
  | var id name => rfl
  | receiver id keyword => rfl
  | assign id name value =>
    rw [bare, form, form_bare value]
    rfl
  | call id callee paren arguments =>
    rw [bare, form, form_bare callee, forms_bareAll arguments]
    rfl
  | get id object name =>
    rw [bare, form, form_bare object]
    rfl
  | set id object name value =>
    rw [bare, form, form_bare object, form_bare value]
    rfl

/-- What expressions are without their numbers and lines is written as they are. -/
theorem Expr.forms_bareAll (es : List Expr) : Expr.forms (Expr.bareAll es) = Expr.forms es := by
  cases es with
  | nil => rfl
  | cons e rest =>
    rw [bareAll, forms, form_bare e, forms_bareAll rest]
    rfl

end

mutual

/-- What a statement is without numbers and lines is written as the statement is. -/
theorem Stmt.form_bare (s : Stmt) : s.bare.form = s.form := by
  cases s with
  | expr value =>
    rw [Stmt.bare, Stmt.form, value.form_bare]
    rfl
  | print value =>
    rw [Stmt.bare, Stmt.form, value.form_bare]
    rfl
  | var name initial =>
    cases initial with
    | none => rfl
    | some e =>
      rw [Stmt.bare, Option.map_some, Stmt.form, e.form_bare]
      rfl
  | block body =>
    rw [Stmt.bare, Stmt.form, Stmt.forms_bareAll body]
    rfl
  | ifThen condition yes =>
    rw [Stmt.bare, Stmt.form, condition.form_bare, Stmt.form_bare yes]
    rfl
  | ifElse condition yes no =>
    rw [Stmt.bare, Stmt.form, condition.form_bare, Stmt.form_bare yes, Stmt.form_bare no]
    rfl
  | loop condition body =>
    rw [Stmt.bare, Stmt.form, condition.form_bare, Stmt.form_bare body]
    rfl
  | function routine =>
    rw [Stmt.bare, Stmt.form, Routine.form_bare routine]
    rfl
  | ret keyword value =>
    cases value with
    | none => rfl
    | some e =>
      rw [Stmt.bare, Option.map_some, Stmt.form, e.form_bare]
      rfl
  | classDecl name methods =>
    rw [Stmt.bare, Stmt.form, Routine.forms_bareAll methods]
    rfl

/-- What statements are without numbers and lines is written as they are. -/
theorem Stmt.forms_bareAll (ss : List Stmt) : Stmt.forms (Stmt.bareAll ss) = Stmt.forms ss := by
  cases ss with
  | nil => rfl
  | cons s rest =>
    rw [Stmt.bareAll, Stmt.forms, Stmt.form_bare s, Stmt.forms_bareAll rest]
    rfl

/-- What a routine is without numbers and lines is written as the routine is. -/
theorem Routine.form_bare (r : Routine) : r.bare.form = r.form := by
  cases r with
  | mk name parameters body =>
    rw [Routine.bare, Routine.form, List.map_map, Stmt.forms_bareAll body]
    rfl

/-- What routines are without numbers and lines is written as they are. -/
theorem Routine.forms_bareAll (rs : List Routine) :
    Routine.forms (Routine.bareAll rs) = Routine.forms rs := by
  cases rs with
  | nil => rfl
  | cons r rest =>
    rw [Routine.bareAll, Routine.forms, Routine.form_bare r, Routine.forms_bareAll rest]
    rfl

end

namespace Form

/-- Whether a word is that of a number: it begins with a digit, perhaps behind a minus sign. -/
def isNumber : List Char → Bool
  | '-' :: c :: _ => c.isDigit
  | c :: _ => c.isDigit
  | [] => false

/-- The finite number that a word is written for. -/
noncomputable def number (w : String) : Float :=
  Function.invFunOn Decimal.tree {x | Decimal.IsFinite x} w

/-- The expression that a word stands for. -/
noncomputable def atom (w : String) : Expr :=
  if isNumber w.toList then .literal 0 (.number (number w))
  else match Kind.ofWord w with
  | .kwTrue => .literal 0 (.bool true)
  | .kwFalse => .literal 0 (.bool false)
  | .kwNil => .literal 0 .nil
  | .kwThis => .receiver 0 (token w)
  | _ => .var 0 (token w)

mutual

/-- The expression that words and parentheses stand for; what stands for none is read as `nil`. -/
noncomputable def expr : Form → Expr
  | .word w => atom w
  | .list [.word "group", inner] => .group 0 inner.expr
  | .list (.word "call" :: callee :: arguments) =>
    .call 0 callee.expr Token.closing (exprs arguments)
  | .list [.word ".", object, .word name] => .get 0 object.expr (token name)
  | .list [.word "=", .word name, value] => .assign 0 (token name) value.expr
  | .list [.word "=", .list [.word ".", object, .word name], value] =>
    .set 0 object.expr (token name) value.expr
  | .list [.word operator, operand] => .unary 0 (token operator) operand.expr
  | .list [.word operator, left, right] =>
    if (token operator).kind ∈ [Kind.kwAnd, .kwOr] then
      .logical 0 left.expr (token operator) right.expr
    else .binary 0 left.expr (token operator) right.expr
  | .list _ => .literal 0 .nil

/-- The expressions that the parts of a parenthesis stand for. -/
noncomputable def exprs : List Form → List Expr
  | [] => []
  | f :: rest => f.expr :: exprs rest

end

/-- The names that the parts of a parenthesis stand for. -/
def names : List Form → List Token
  | .word w :: rest => token w :: names rest
  | _ => []

end Form

/-- The routine that a function declares. -/
def Stmt.declared : Stmt → Routine
  | .function routine => routine
  | _ => .mk Token.closing [] []

mutual

/-- The statement that words and parentheses stand for; what stands for none is read as an empty
block. -/
noncomputable def Form.stmt : Form → Stmt
  | .list [.word ";", value] => .expr value.expr
  | .list [.word "print", value] => .print value.expr
  | .list [.word "var", .word name] => .var (Form.token name) none
  | .list [.word "var", .word name, initial] => .var (Form.token name) (some initial.expr)
  | .list (.word "block" :: body) => .block (Form.stmts body)
  | .list [.word "if", condition, yes] => .ifThen condition.expr yes.stmt
  | .list [.word "if", condition, yes, no] => .ifElse condition.expr yes.stmt no.stmt
  | .list [.word "while", condition, body] => .loop condition.expr body.stmt
  | .list [.word "return"] => .ret (Form.token "return") none
  | .list [.word "return", value] => .ret (Form.token "return") (some value.expr)
  | .list (.word "class" :: .word name :: methods) =>
    .classDecl (Form.token name) ((Form.stmts methods).map Stmt.declared)
  | .list (.word "func" :: .word name :: .list parameters :: body) =>
    .function (.mk (Form.token name) (Form.names parameters) (Form.stmts body))
  | _ => .block []

/-- The statements that the parts of a parenthesis stand for. -/
noncomputable def Form.stmts : List Form → List Stmt
  | [] => []
  | f :: rest => f.stmt :: Form.stmts rest

end

/-- An expression is known from what is written of it. -/
structure Expr.Recovered (e : Expr) : Prop where
  /-- It is written in words and parentheses. -/
  proper : e.form.Proper
  /-- They stand for it. -/
  back : e.form.expr = e.bare

/-- A statement is known from what is written of it. -/
structure Stmt.Recovered (s : Stmt) : Prop where
  /-- It is written in words and parentheses. -/
  proper : s.form.Proper
  /-- They stand for it. -/
  back : s.form.stmt = s.bare

/-- A routine is known from what is written of it. -/
structure Routine.Recovered (r : Routine) : Prop where
  /-- It is written in words and parentheses. -/
  proper : r.form.Proper
  /-- They stand for its declaration. -/
  back : r.form.stmt = .function r.bare

namespace Form

variable {w : String} {f g : Form}

/-- A parenthesis of a sign and an operand. -/
theorem expr_unary (h : (token w).kind ∈ unaryOperators) :
    expr (.list [.word w, f]) = .unary 0 (token w) f.expr := by
  have hgroup : w ≠ "group" := by
    rintro rfl
    revert h
    decide
  have hcall : w ≠ "call" := by
    rintro rfl
    revert h
    decide
  rw [expr] <;> simp [hgroup, hcall]

/-- A parenthesis of an operator and two operands. -/
theorem expr_operator
    (h : (token w).kind ∈ binaryOperators ∨ (token w).kind ∈ [Kind.kwAnd, .kwOr]) :
    expr (.list [.word w, f, g]) =
      if (token w).kind ∈ [Kind.kwAnd, .kwOr] then .logical 0 f.expr (token w) g.expr
      else .binary 0 f.expr (token w) g.expr := by
  have hcall : w ≠ "call" := by
    rintro rfl
    revert h
    decide
  have hdot : w ≠ "." := by
    rintro rfl
    revert h
    decide
  have hequal : w ≠ "=" := by
    rintro rfl
    revert h
    decide
  rw [expr] <;> simp [hcall, hdot, hequal]

/-- A word is no number. -/
theorem isNumber_of_isWord {word : List Char} (h : Segment.IsWord word) :
    isNumber word = false := by
  cases word with
  | nil => rfl
  | cons c rest =>
    have hdigit : c.isDigit = false := by
      rw [Bool.eq_false_iff]
      exact fun hdigit => not_alpha_of_isDigit hdigit h.1
    have hminus : c ≠ '-' := by
      rintro rfl
      exact absurd h.1 (by decide)
    unfold isNumber
    split
    · rename_i heq
      exact absurd (List.cons.inj heq).1 hminus
    · rename_i heq
      rw [← (List.cons.inj heq).1]
      exact hdigit
    · rfl

end Form

namespace Decimal.Numeric

variable {text : List Char}

/-- The text of a number is not empty. -/
theorem ne_nil (h : Numeric text) : text ≠ [] := by
  cases h with
  | unsigned h hrest => exact List.cons_ne_nil _ _
  | signed h hrest => exact List.cons_ne_nil _ _

/-- The text of a number begins as one. -/
theorem isNumber (h : Numeric text) : Form.isNumber text = true := by
  cases h with
  | @unsigned c rest h hrest =>
    have hminus : c ≠ '-' := by
      rintro rfl
      exact absurd h (by decide)
    unfold Form.isNumber
    split
    · rename_i heq
      exact absurd (List.cons.inj heq).1 hminus
    · rename_i heq
      rw [← (List.cons.inj heq).1]
      exact h
    · rename_i heq
      cases heq
  | signed h hrest => exact h

/-- A digit and a point are no marks. -/
theorem isMark {c : Char} (h : c.isDigit = true ∨ c = '.') : Form.isMark c = false := by
  rcases h with h | rfl
  · have hboth : (c.isAlpha || c.isDigit) = true := Bool.or_eq_true_iff.mpr (Or.inr h)
    exact Form.isMark_of_word (Or.inl hboth)
  · rfl

/-- The text of a number has no mark in it. -/
theorem plain (h : Numeric text) : ∀ c ∈ text, Form.isMark c = false := by
  cases h with
  | unsigned h hrest =>
    exact List.forall_mem_cons.mpr ⟨isMark (Or.inl h), fun d hd => isMark (hrest d hd)⟩
  | signed h hrest =>
    refine List.forall_mem_cons.mpr ⟨rfl, ?_⟩
    exact List.forall_mem_cons.mpr ⟨isMark (Or.inl h), fun d hd => isMark (hrest d hd)⟩

end Decimal.Numeric

end Scriptlet
