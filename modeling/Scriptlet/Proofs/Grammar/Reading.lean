import Scriptlet.Grammar.Stmt

/-!
# What a text of tokens says

The relation of this module gives the tree of a list of tokens, rule by rule.
Operators of one level group to the left, assignment groups to the right, calls
and properties are applied from left to right, and an `else` stands behind a
branch that is not itself waiting for one. Every name and operator of the tree
is the token it was read from. The relation also says which numbers the
expressions of the tree have: each gets the next number when its parts have
theirs. It never mentions fuel, recovery or errors.
-/

namespace Scriptlet.Grammar

/-- The levels of operators between two operands, the loosest first. -/
inductive Level where
  | disjunction
  | conjunction
  | equality
  | comparison
  | term
  | factor
deriving DecidableEq, Repr

/-- The operators of a level. -/
def Level.operators : Level → List Kind
  | disjunction => [.kwOr]
  | conjunction => [.kwAnd]
  | equality => [.bangEqual, .equalEqual]
  | comparison => [.greater, .greaterEqual, .less, .lessEqual]
  | term => [.minus, .plus]
  | factor => [.star, .slash]

/-- The expression that joins two operands of a level. -/
def Level.join : Level → Nat → Expr → Token → Expr → Expr
  | disjunction => .logical
  | conjunction => .logical
  | equality => .binary
  | comparison => .binary
  | term => .binary
  | factor => .binary

/-- What a list of tokens may be read as. -/
inductive Part where
  | primary
  | call
  | unary
  | level (l : Level)
  | assignment
  | expression
  /-- Expressions separated by commas, at least one. -/
  | arguments
  /-- An expression that may be absent. -/
  | clause
  /-- Names separated by commas, at least one. -/
  | parameters
  /-- A function or method from its name on. -/
  | routine
  /-- The routines of a class. -/
  | methods
  /-- A variable after its keyword. -/
  | varDecl
  | exprStmt
  /-- The first clause of a `for`, with its semicolon. -/
  | forInitial
  | statement
  | declaration
  | declarations
deriving DecidableEq, Repr

/-- The operands of a level. -/
def Level.operand : Level → Part
  | disjunction => .level .conjunction
  | conjunction => .level .equality
  | equality => .level .comparison
  | comparison => .level .term
  | term => .level .factor
  | factor => .unary

/-- What was read: a tree or a list of trees. A statement is open when an `else`
right behind it would belong to a conditional inside it. -/
inductive Node where
  | expr (e : Expr)
  | exprs (es : List Expr)
  | clause (e : Option Expr)
  | names (ts : List Token)
  | routine (r : Routine)
  | routines (rs : List Routine)
  | initial (s : Option Stmt)
  | stmt (s : Stmt) (isOpen : Bool)
  | stmts (ss : List Stmt)

/-- A loop with clauses, written with blocks and a plain loop: the step follows
the body in a block, the initial clause stands before the loop in a block. -/
def desugared : Option Stmt → Expr → Option Expr → Stmt → Stmt
  | none, condition, none, body => .loop condition body
  | none, condition, some step, body => .loop condition (.block [body, .expr step])
  | some first, condition, none, body => .block [first, .loop condition body]
  | some first, condition, some step, body =>
    .block [first, .loop condition (.block [body, .expr step])]

/-- A token that stands for a constant is a literal or a word for one. -/
theorem kind_of_constant {t : Token} {value : Constant} (h : constant? t = some value) :
    t.kind ∈ [Kind.number, .string, .kwTrue, .kwFalse, .kwNil] := by
  unfold constant? at h
  split at h <;> simp_all

/-- The loop that the reader builds is the one written with blocks. -/
theorem forLoop_eq_desugared (initial : Option Stmt) (condition : Expr) (step : Option Expr)
    (body : Stmt) : forLoop initial condition step body = desugared initial condition step body := by
  cases initial <;> cases step <;> rfl

/-- `Reads p n ts x m`: as a `p`, the tokens `ts` are read as `x`, and the
expressions of `x` are numbered from `n` on and below `m`. -/
inductive Reads : Part → Nat → List Token → Node → Nat → Prop where
  | constant {n : Nat} {t : Token} {value : Constant} (h : constant? t = some value) :
    Reads .primary n [t] (.expr (.literal n value)) (n + 1)
  | receiver {n : Nat} {t : Token} (h : t.kind = .kwThis) :
    Reads .primary n [t] (.expr (.receiver n t)) (n + 1)
  | name {n : Nat} {t : Token} (h : t.kind = .identifier) :
    Reads .primary n [t] (.expr (.var n t)) (n + 1)
  | group {n m : Nat} {left right : Token} {ts : List Token} {e : Expr}
    (hleft : left.kind = .leftParen) (inner : Reads .expression n ts (.expr e) m)
    (hright : right.kind = .rightParen) :
    Reads .primary n (left :: (ts ++ [right])) (.expr (.group m e)) (m + 1)
  | callPrimary {n m : Nat} {ts : List Token} {e : Expr}
    (operand : Reads .primary n ts (.expr e) m) :
    Reads .call n ts (.expr e) m
  | callEmpty {n m : Nat} {ts : List Token} {e : Expr} {left right : Token}
    (callee : Reads .call n ts (.expr e) m) (hleft : left.kind = .leftParen)
    (hright : right.kind = .rightParen) :
    Reads .call n (ts ++ [left, right]) (.expr (.call m e right [])) (m + 1)
  | callWith {n m k : Nat} {ts us : List Token} {e : Expr} {left right : Token} {es : List Expr}
    (callee : Reads .call n ts (.expr e) m) (hleft : left.kind = .leftParen)
    (given : Reads .arguments m us (.exprs es) k) (few : es.length ≤ 255)
    (hright : right.kind = .rightParen) :
    Reads .call n (ts ++ left :: (us ++ [right])) (.expr (.call k e right es)) (k + 1)
  | callGet {n m : Nat} {ts : List Token} {e : Expr} {dot name : Token}
    (object : Reads .call n ts (.expr e) m) (hdot : dot.kind = .dot)
    (hname : name.kind = .identifier) :
    Reads .call n (ts ++ [dot, name]) (.expr (.get m e name)) (m + 1)
  | argumentsLast {n m : Nat} {ts : List Token} {e : Expr}
    (only : Reads .expression n ts (.expr e) m) :
    Reads .arguments n ts (.exprs [e]) m
  | argumentsMore {n m k : Nat} {ts us : List Token} {e : Expr} {es : List Expr} {comma : Token}
    (first : Reads .expression n ts (.expr e) m) (hcomma : comma.kind = .comma)
    (others : Reads .arguments m us (.exprs es) k) :
    Reads .arguments n (ts ++ comma :: us) (.exprs (e :: es)) k
  | unaryCall {n m : Nat} {ts : List Token} {e : Expr} (operand : Reads .call n ts (.expr e) m) :
    Reads .unary n ts (.expr e) m
  | unarySign {n m : Nat} {ts : List Token} {e : Expr} {operator : Token}
    (h : operator.kind ∈ [Kind.bang, .minus]) (operand : Reads .unary n ts (.expr e) m) :
    Reads .unary n (operator :: ts) (.expr (.unary m operator e)) (m + 1)
  | levelOperand {n m : Nat} {ts : List Token} {e : Expr} (l : Level)
    (operand : Reads l.operand n ts (.expr e) m) :
    Reads (.level l) n ts (.expr e) m
  | levelJoin {n m k : Nat} {ts us : List Token} {a b : Expr} {operator : Token} (l : Level)
    (left : Reads (.level l) n ts (.expr a) m) (h : operator.kind ∈ l.operators)
    (right : Reads l.operand m us (.expr b) k) :
    Reads (.level l) n (ts ++ operator :: us) (.expr (l.join k a operator b)) (k + 1)
  | assignmentPlain {n m : Nat} {ts : List Token} {e : Expr}
    (value : Reads (.level .disjunction) n ts (.expr e) m) :
    Reads .assignment n ts (.expr e) m
  -- The name of an assigned variable takes a number of its own, which no expression keeps.
  | assignmentVar {n m : Nat} {us : List Token} {name sign : Token} {e : Expr}
    (hname : name.kind = .identifier) (hsign : sign.kind = .equal)
    (value : Reads .assignment (n + 1) us (.expr e) m) :
    Reads .assignment n (name :: sign :: us) (.expr (.assign m name e)) (m + 1)
  | assignmentSet {n m k : Nat} {ts us : List Token} {o e : Expr} {dot name sign : Token}
    (object : Reads .call n ts (.expr o) m) (hdot : dot.kind = .dot)
    (hname : name.kind = .identifier) (hsign : sign.kind = .equal)
    (value : Reads .assignment (m + 1) us (.expr e) k) :
    Reads .assignment n (ts ++ dot :: name :: sign :: us) (.expr (.set k o name e)) (k + 1)
  | expression {n m : Nat} {ts : List Token} {e : Expr}
    (value : Reads .assignment n ts (.expr e) m) :
    Reads .expression n ts (.expr e) m
  | clauseAbsent {n : Nat} : Reads .clause n [] (.clause none) n
  | clausePresent {n m : Nat} {ts : List Token} {e : Expr}
    (value : Reads .expression n ts (.expr e) m) :
    Reads .clause n ts (.clause (some e)) m
  | parametersLast {n : Nat} {name : Token} (h : name.kind = .identifier) :
    Reads .parameters n [name] (.names [name]) n
  | parametersMore {n : Nat} {us names : List Token} {name comma : Token}
    (h : name.kind = .identifier) (hcomma : comma.kind = .comma)
    (others : Reads .parameters n us (.names names) n) :
    Reads .parameters n (name :: comma :: us) (.names (name :: names)) n
  | routineEmpty {n m : Nat} {us : List Token} {name left right opening closing : Token}
    {body : List Stmt} (hname : name.kind = .identifier) (hleft : left.kind = .leftParen)
    (hright : right.kind = .rightParen) (hopening : opening.kind = .leftBrace)
    (inside : Reads .declarations n us (.stmts body) m) (hclosing : closing.kind = .rightBrace) :
    Reads .routine n (name :: left :: right :: opening :: (us ++ [closing]))
      (.routine (.mk name [] body)) m
  | routineWith {n m : Nat} {ts us names : List Token} {name left right opening closing : Token}
    {body : List Stmt} (hname : name.kind = .identifier) (hleft : left.kind = .leftParen)
    (given : Reads .parameters n ts (.names names) n) (few : names.length ≤ 255)
    (hright : right.kind = .rightParen) (hopening : opening.kind = .leftBrace)
    (inside : Reads .declarations n us (.stmts body) m) (hclosing : closing.kind = .rightBrace) :
    Reads .routine n (name :: left :: (ts ++ right :: opening :: (us ++ [closing])))
      (.routine (.mk name names body)) m
  | methodsNone {n : Nat} : Reads .methods n [] (.routines []) n
  | methodsMore {n m k : Nat} {ts us : List Token} {r : Routine} {rs : List Routine}
    (first : Reads .routine n ts (.routine r) m) (others : Reads .methods m us (.routines rs) k) :
    Reads .methods n (ts ++ us) (.routines (r :: rs)) k
  | varBare {n : Nat} {name stop : Token} (hname : name.kind = .identifier)
    (hstop : stop.kind = .semicolon) :
    Reads .varDecl n [name, stop] (.stmt (.var name none) false) n
  | varWith {n m : Nat} {us : List Token} {name sign stop : Token} {e : Expr}
    (hname : name.kind = .identifier) (hsign : sign.kind = .equal)
    (value : Reads .expression n us (.expr e) m) (hstop : stop.kind = .semicolon) :
    Reads .varDecl n (name :: sign :: (us ++ [stop])) (.stmt (.var name (some e)) false) m
  | exprStmt {n m : Nat} {ts : List Token} {e : Expr} {stop : Token}
    (value : Reads .expression n ts (.expr e) m) (hstop : stop.kind = .semicolon) :
    Reads .exprStmt n (ts ++ [stop]) (.stmt (.expr e) false) m
  | initialAbsent {n : Nat} {stop : Token} (hstop : stop.kind = .semicolon) :
    Reads .forInitial n [stop] (.initial none) n
  | initialVar {n m : Nat} {keyword : Token} {ts : List Token} {s : Stmt}
    (h : keyword.kind = .kwVar) (inside : Reads .varDecl n ts (.stmt s false) m) :
    Reads .forInitial n (keyword :: ts) (.initial (some s)) m
  | initialExpr {n m : Nat} {ts : List Token} {s : Stmt}
    (inside : Reads .exprStmt n ts (.stmt s false) m) :
    Reads .forInitial n ts (.initial (some s)) m
  | statementExpr {n m : Nat} {ts : List Token} {s : Stmt}
    (inside : Reads .exprStmt n ts (.stmt s false) m) :
    Reads .statement n ts (.stmt s false) m
  | statementPrint {n m : Nat} {keyword stop : Token} {ts : List Token} {e : Expr}
    (h : keyword.kind = .kwPrint) (value : Reads .expression n ts (.expr e) m)
    (hstop : stop.kind = .semicolon) :
    Reads .statement n (keyword :: (ts ++ [stop])) (.stmt (.print e) false) m
  | statementReturn {n m : Nat} {keyword stop : Token} {ts : List Token} {e : Option Expr}
    (h : keyword.kind = .kwReturn) (value : Reads .clause n ts (.clause e) m)
    (hstop : stop.kind = .semicolon) :
    Reads .statement n (keyword :: (ts ++ [stop])) (.stmt (.ret keyword e) false) m
  | statementWhile {n m k : Nat} {keyword left right : Token} {ts us : List Token} {c : Expr}
    {s : Stmt} {isOpen : Bool} (h : keyword.kind = .kwWhile) (hleft : left.kind = .leftParen)
    (condition : Reads .expression n ts (.expr c) m) (hright : right.kind = .rightParen)
    (body : Reads .statement m us (.stmt s isOpen) k) :
    Reads .statement n (keyword :: left :: (ts ++ right :: us)) (.stmt (.loop c s) isOpen) k
  | statementIf {n m k : Nat} {keyword left right : Token} {ts us : List Token} {c : Expr}
    {s : Stmt} {isOpen : Bool} (h : keyword.kind = .kwIf) (hleft : left.kind = .leftParen)
    (condition : Reads .expression n ts (.expr c) m) (hright : right.kind = .rightParen)
    (yes : Reads .statement m us (.stmt s isOpen) k) :
    Reads .statement n (keyword :: left :: (ts ++ right :: us)) (.stmt (.ifThen c s) true) k
  | statementElse {n m k j : Nat} {keyword left right middle : Token} {ts us vs : List Token}
    {c : Expr} {s s' : Stmt} {isOpen : Bool} (h : keyword.kind = .kwIf)
    (hleft : left.kind = .leftParen) (condition : Reads .expression n ts (.expr c) m)
    (hright : right.kind = .rightParen) (yes : Reads .statement m us (.stmt s false) k)
    (hmiddle : middle.kind = .kwElse) (no : Reads .statement k vs (.stmt s' isOpen) j) :
    Reads .statement n (keyword :: left :: (ts ++ right :: (us ++ middle :: vs)))
      (.stmt (.ifElse c s s') isOpen) j
  | statementFor {n m k j i : Nat} {keyword left stop right : Token} {is cs ss us : List Token}
    {first : Option Stmt} {c : Expr} {step : Option Expr} {s : Stmt} {isOpen : Bool}
    (h : keyword.kind = .kwFor) (hleft : left.kind = .leftParen)
    (initial : Reads .forInitial n is (.initial first) m)
    (condition : Reads .expression m cs (.expr c) k) (hstop : stop.kind = .semicolon)
    (increment : Reads .clause k ss (.clause step) j) (hright : right.kind = .rightParen)
    (body : Reads .statement j us (.stmt s isOpen) i) :
    Reads .statement n (keyword :: left :: (is ++ (cs ++ stop :: (ss ++ right :: us))))
      (.stmt (desugared first c step s) isOpen) i
  -- An absent condition is numbered after the body.
  | statementForever {n m j i : Nat} {keyword left stop right : Token} {is ss us : List Token}
    {first : Option Stmt} {step : Option Expr} {s : Stmt} {isOpen : Bool}
    (h : keyword.kind = .kwFor) (hleft : left.kind = .leftParen)
    (initial : Reads .forInitial n is (.initial first) m) (hstop : stop.kind = .semicolon)
    (increment : Reads .clause m ss (.clause step) j) (hright : right.kind = .rightParen)
    (body : Reads .statement j us (.stmt s isOpen) i) :
    Reads .statement n (keyword :: left :: (is ++ stop :: (ss ++ right :: us)))
      (.stmt (desugared first (.literal i (.bool true)) step s) isOpen) (i + 1)
  | statementBlock {n m : Nat} {opening closing : Token} {ts : List Token} {body : List Stmt}
    (hopening : opening.kind = .leftBrace) (inside : Reads .declarations n ts (.stmts body) m)
    (hclosing : closing.kind = .rightBrace) :
    Reads .statement n (opening :: (ts ++ [closing])) (.stmt (.block body) false) m
  | declarationStatement {n m : Nat} {ts : List Token} {s : Stmt} {isOpen : Bool}
    (inside : Reads .statement n ts (.stmt s isOpen) m) :
    Reads .declaration n ts (.stmt s isOpen) m
  | declarationClass {n m : Nat} {keyword name opening closing : Token} {ts : List Token}
    {rs : List Routine} (h : keyword.kind = .kwClass) (hname : name.kind = .identifier)
    (hopening : opening.kind = .leftBrace) (inside : Reads .methods n ts (.routines rs) m)
    (hclosing : closing.kind = .rightBrace) :
    Reads .declaration n (keyword :: name :: opening :: (ts ++ [closing]))
      (.stmt (.classDecl name rs) false) m
  | declarationFunction {n m : Nat} {keyword : Token} {ts : List Token} {r : Routine}
    (h : keyword.kind = .kwFunc) (inside : Reads .routine n ts (.routine r) m) :
    Reads .declaration n (keyword :: ts) (.stmt (.function r) false) m
  | declarationVar {n m : Nat} {keyword : Token} {ts : List Token} {s : Stmt}
    (h : keyword.kind = .kwVar) (inside : Reads .varDecl n ts (.stmt s false) m) :
    Reads .declaration n (keyword :: ts) (.stmt s false) m
  | declarationsNone {n : Nat} : Reads .declarations n [] (.stmts []) n
  | declarationsMore {n m k : Nat} {ts us : List Token} {s : Stmt} {isOpen : Bool} {ss : List Stmt}
    (first : Reads .declaration n ts (.stmt s isOpen) m)
    -- An open statement is not followed by an `else`: no declaration begins with one.
    (others : Reads .declarations m us (.stmts ss) k) :
    Reads .declarations n (ts ++ us) (.stmts (s :: ss)) k

end Scriptlet.Grammar
