import Scriptlet.Proofs.Grammar.Counting
import Scriptlet.Proofs.Grammar.Reading

/-!
# The operators that are read

The grammar puts an operator into a tree only by one of its rules, and each of them
knows its operators. Those before one operand are two; those between two operands that
both have to be known are ten. The words that decide by their left operand make an
expression of their own, so they are no operators in this sense.
-/

namespace Scriptlet

/-- The operators of one operand. -/
def unaryOperators : List Kind := [.bang, .minus]

/-- The operators of two operands that need the values of both. -/
def binaryOperators : List Kind :=
  [.bangEqual, .equalEqual, .greater, .greaterEqual, .less, .lessEqual, .minus, .plus, .star,
    .slash]

/-- Whether an expression that applies an operator to values has one for as many operands. -/
def Expr.Operable : Expr → Prop
  | .unary _ operator _ => operator.kind ∈ unaryOperators
  | .binary _ _ operator _ => operator.kind ∈ binaryOperators
  | _ => True

/-- Whether every expression among some has an operator that can be applied. -/
def AllOperable (es : List Expr) : Prop := ∀ e ∈ es, e.Operable

namespace AllOperable

variable {e : Expr} {es others : List Expr}

/-- No expressions. -/
theorem none : AllOperable [] := fun _ h => absurd h List.not_mem_nil

/-- An expression before its parts. -/
theorem cons (h : e.Operable) (hes : AllOperable es) : AllOperable (e :: es) :=
  List.forall_mem_cons.mpr ⟨h, hes⟩

/-- Some expressions before others. -/
theorem append (h : AllOperable es) (h' : AllOperable others) : AllOperable (es ++ others) :=
  List.forall_mem_append.mpr ⟨h, h'⟩

/-- The expressions of some that are listed one after the other. -/
theorem left (h : AllOperable (es ++ others)) : AllOperable es := (List.forall_mem_append.mp h).1

/-- The expressions of those behind them. -/
theorem right (h : AllOperable (es ++ others)) : AllOperable others :=
  (List.forall_mem_append.mp h).2

/-- The parts of an expression. -/
theorem parts (h : AllOperable (e :: es)) : AllOperable es := (List.forall_mem_cons.mp h).2

/-- A member of a list of expressions. -/
theorem argument {e : Expr} {es : List Expr} (h : AllOperable (Expr.nodesOfAll es)) (he : e ∈ es) :
    AllOperable e.nodes := by
  induction es with
  | nil => exact absurd he List.not_mem_nil
  | cons first rest ih =>
    rcases List.mem_cons.mp he with rfl | he
    · exact h.left
    · exact ih h.right he

/-- A member of a list of statements. -/
theorem member {s : Stmt} {body : List Stmt} (h : AllOperable (Stmt.exprsOfAll body))
    (hs : s ∈ body) : AllOperable s.exprs := by
  induction body with
  | nil => exact absurd hs List.not_mem_nil
  | cons first rest ih =>
    rcases List.mem_cons.mp hs with rfl | hs
    · exact h.left
    · exact ih h.right hs

/-- A member of a list of methods. -/
theorem method {r : Routine} {rs : List Routine} (h : AllOperable (Routine.exprsOfAll rs))
    (hr : r ∈ rs) : AllOperable r.exprs := by
  induction rs with
  | nil => exact absurd hr List.not_mem_nil
  | cons first rest ih =>
    rcases List.mem_cons.mp hr with rfl | hr
    · exact h.left
    · exact ih h.right hr

end AllOperable

namespace Grammar

/-- Every expression in what was read. -/
def Node.nodes : Node → List Expr
  | .expr e => e.nodes
  | .exprs es => Expr.nodesOfAll es
  | .clause e => Expr.nodesOfOption e
  | .names _ => []
  | .routine r => r.exprs
  | .routines rs => Routine.exprsOfAll rs
  | .initial s => exprsOfFound s
  | .stmt s _ => s.exprs
  | .stmts ss => Stmt.exprsOfAll ss

/-- A level joins by words that decide, or else by operators of two operands. -/
theorem Level.join_cases (l : Level) : l.join = .logical ∨
    l.join = .binary ∧ ∀ kind ∈ l.operators, kind ∈ binaryOperators := by
  cases l with
  | disjunction | conjunction => exact .inl rfl
  | equality | comparison | term | factor => exact .inr ⟨rfl, by decide⟩

/-- The operator of a level can be applied where it is applied. -/
theorem Level.join_operable {l : Level} {a b : Expr} {operator : Token} (n : Nat)
    (h : operator.kind ∈ l.operators) (ha : AllOperable a.nodes) (hb : AllOperable b.nodes) :
    AllOperable (l.join n a operator b).nodes := by
  rcases l.join_cases with hjoin | ⟨hjoin, hsubset⟩
  · rw [hjoin]
    exact .cons trivial (ha.append hb)
  · rw [hjoin]
    exact .cons (hsubset _ h) (ha.append hb)

/-- A loop with clauses has the operators of its clauses and of its body. -/
theorem desugared_operable {initial : Option Stmt} {condition : Expr} {step : Option Expr}
    {body : Stmt} (hinitial : AllOperable (exprsOfFound initial))
    (hcondition : AllOperable condition.nodes) (hstep : AllOperable (Expr.nodesOfOption step))
    (hbody : AllOperable body.exprs) :
    AllOperable (desugared initial condition step body).exprs := by
  intro e he
  rw [← forLoop_eq_desugared] at he
  have hmem := (forLoop_perm initial condition step body).mem_iff.mpr he
  exact hinitial.append (hcondition.append (hstep.append hbody)) e hmem

/-- Every operator in what was read can be applied where it stands. -/
theorem Reads.operable {p : Part} {n m : Nat} {ts : List Token} {x : Node} (h : Reads p n ts x m) :
    AllOperable x.nodes := by
  induction h with
  | constant | receiver | name => exact .cons trivial .none
  | group _ _ _ ih => exact .cons trivial ih
  | callPrimary _ ih => exact ih
  | callEmpty _ _ _ ih => exact .cons trivial (ih.append .none)
  | callWith _ _ _ _ _ ih ihgiven => exact .cons trivial (ih.append ihgiven)
  | callGet _ _ _ ih => exact .cons trivial ih
  | argumentsLast _ ih => exact ih.append .none
  | argumentsMore _ _ _ ih ihothers => exact ih.append ihothers
  | unaryCall _ ih => exact ih
  | unarySign h _ ih => exact .cons h ih
  | levelOperand _ _ ih => exact ih
  | levelJoin l _ h _ ih ihright => exact Level.join_operable _ h ih ihright
  | assignmentPlain _ ih => exact ih
  | assignmentVar _ _ _ ih => exact .cons trivial ih
  | assignmentSet _ _ _ _ _ ih ihvalue => exact .cons trivial (ih.append ihvalue)
  | expression _ ih => exact ih
  | clauseAbsent => exact .none
  | clausePresent _ ih => exact ih
  | parametersLast | parametersMore => exact .none
  | routineEmpty _ _ _ _ _ _ ih => exact ih
  | routineWith _ _ _ _ _ _ _ _ _ ih => exact ih
  | methodsNone => exact .none
  | methodsMore _ _ ih ihothers => exact ih.append ihothers
  | varBare => exact .none
  | varWith _ _ _ _ ih => exact ih
  | exprStmt _ _ ih => exact ih
  | initialAbsent => exact .none
  | initialVar _ _ ih => exact ih.append .none
  | initialExpr _ ih => exact ih.append .none
  | statementExpr _ ih => exact ih
  | statementPrint _ _ _ ih => exact ih
  | statementReturn _ _ _ ih => exact ih
  | statementWhile _ _ _ _ _ ih ihbody => exact ih.append ihbody
  | statementIf _ _ _ _ _ ih ihyes => exact ih.append ihyes
  | statementElse _ _ _ _ _ _ _ ih ihyes ihno => exact (ih.append ihyes).append ihno
  | statementFor _ _ _ _ _ _ _ _ ihinitial ihcondition ihstep ihbody =>
    exact desugared_operable ihinitial ihcondition ihstep ihbody
  | statementForever _ _ _ _ _ _ _ ihinitial ihstep ihbody =>
    exact desugared_operable ihinitial (.cons trivial .none) ihstep ihbody
  | statementBlock _ _ _ ih => exact ih
  | declarationStatement _ ih => exact ih
  | declarationClass _ _ _ _ _ ih => exact ih
  | declarationFunction _ _ ih => exact ih
  | declarationVar _ _ ih => exact ih
  | declarationsNone => exact .none
  | declarationsMore _ _ ih ihothers => exact ih.append ihothers

end Grammar

end Scriptlet
