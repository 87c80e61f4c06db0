import Scriptlet.Proofs.Grammar.Acceptance
import Scriptlet.Proofs.Grammar.Rereading

/-!
# A loop with clauses and the tokens of a plain loop

The parentheses and semicolons of a `for` cut it into clauses and a body. The clauses can
be put around a `while` instead: the first one before it in a block, the step behind the
body in a block of their own. What the tokens are read as stays the same, and there is
only one way to cut them.
-/

namespace Scriptlet.Grammar

/-- Tokens that are read as some part. -/
def Legible (p : Part) (ts : List Token) : Prop := ∃ n x m, Reads p n ts x m

/-- A `for` with clauses that can be read. -/
structure ForStatement where
  /-- The word `for`. -/
  keyword : Token
  /-- The parenthesis before the clauses. -/
  left : Token
  /-- The first clause, without its semicolon. -/
  initial : List Token
  /-- The semicolon of the first clause. -/
  initialStop : Token
  /-- The condition. -/
  condition : List Token
  /-- The semicolon behind the condition. -/
  conditionStop : Token
  /-- What follows the body in every round. -/
  step : List Token
  /-- The parenthesis behind the clauses. -/
  right : Token
  /-- The statement that is repeated. -/
  body : List Token
  keyword_kind : keyword.kind = .kwFor
  left_kind : left.kind = .leftParen
  initial_legible : Legible .forInitial (initial ++ [initialStop])
  condition_legible : Legible .clause condition
  conditionStop_kind : conditionStop.kind = .semicolon
  step_legible : Legible .clause step
  right_kind : right.kind = .rightParen

/-- The tokens that a plain loop has and a loop with clauses has not. -/
structure LoopTokens where
  /-- The brace before the first clause. -/
  opening : Token
  /-- The brace behind the loop. -/
  closing : Token
  /-- The word `while`. -/
  keyword : Token
  /-- The parenthesis before the condition. -/
  left : Token
  /-- What stands for an absent condition. -/
  constant : Token
  /-- The parenthesis behind the condition. -/
  right : Token
  /-- The brace before the body with its step. -/
  bodyOpening : Token
  /-- The semicolon behind the step. -/
  stepStop : Token
  /-- The brace behind the body with its step. -/
  bodyClosing : Token
  opening_kind : opening.kind = .leftBrace
  closing_kind : closing.kind = .rightBrace
  keyword_kind : keyword.kind = .kwWhile
  left_kind : left.kind = .leftParen
  constant_kind : constant.kind = .kwTrue
  right_kind : right.kind = .rightParen
  bodyOpening_kind : bodyOpening.kind = .leftBrace
  stepStop_kind : stepStop.kind = .semicolon
  bodyClosing_kind : bodyClosing.kind = .rightBrace

namespace ForStatement

variable (f : ForStatement) (w : LoopTokens)

/-- The tokens of a `for`. -/
def tokens : List Token :=
  f.keyword :: f.left :: (f.initial ++ [f.initialStop] ++
    (f.condition ++ f.conditionStop :: (f.step ++ f.right :: f.body)))

/-- Before these tokens the body is a whole statement: if it is open for an `else`, none follows. -/
def TakesBody (behind : List Token) : Prop :=
  ∃ n s isOpen m, Reads .statement n f.body (.stmt s isOpen) m ∧
    (isOpen = true → Stops [.kwElse] behind)

/-- The condition of the plain loop: `true`, if there is none. -/
def plainCondition : List Token :=
  if f.condition.isEmpty then [w.constant] else f.condition

/-- The body of the plain loop: with the step behind it in a block, if there is one. -/
def plainBody : List Token :=
  if f.step.isEmpty then f.body
  else w.bodyOpening :: (f.body ++ (f.step ++ [w.stepStop]) ++ [w.bodyClosing])

/-- The plain loop. -/
def plainLoop : List Token :=
  w.keyword :: w.left :: (f.plainCondition w ++ w.right :: f.plainBody w)

/-- The plain loop with the first clause before it in a block, if there is one. -/
def unrolled : List Token :=
  if f.initial.isEmpty then f.plainLoop w
  else w.opening :: (f.initial ++ [f.initialStop] ++ f.plainLoop w ++ [w.closing])

end ForStatement

namespace Reads

variable {n m : Nat} {ts is : List Token} {stop : Token}

/-- A first clause ends with its semicolon, and nothing else stands in it if it is absent. -/
theorem exists_initial {x : Node} (h : Reads .forInitial n ts x m) :
    ∃ is stop first, ts = is ++ [stop] ∧ x = .initial first ∧ is.isEmpty = first.isNone := by
  cases h with
  | @initialAbsent _ stop _ => exact ⟨[], stop, none, rfl, rfl, rfl⟩
  | @initialVar _ _ keyword _ s _ inside =>
    cases inside with
    | @varBare _ name stop _ _ => exact ⟨[keyword, name], stop, some _, rfl, rfl, rfl⟩
    | @varWith _ _ us name sign stop _ _ _ _ _ =>
      exact ⟨keyword :: name :: sign :: us, stop, some _, rfl, rfl, rfl⟩
  | initialExpr inside =>
    cases inside with
    | @exprStmt _ _ us _ stop value _ =>
      obtain ⟨t, vs, rfl, -⟩ := value.beginsWith rfl
      exact ⟨t :: vs, stop, some _, rfl, rfl, rfl⟩

/-- Whether a first clause is absent shows in its tokens. -/
theorem initial_isEmpty {first : Option Stmt}
    (h : Reads .forInitial n (is ++ [stop]) (.initial first) m) : is.isEmpty = first.isNone := by
  obtain ⟨is', stop', first', hts, hx, hempty⟩ := h.exists_initial
  cases hx
  rwa [(List.append_inj' hts rfl).1]

/-- A clause has nothing in it if it is absent. -/
theorem exists_clause {x : Node} (h : Reads .clause n ts x m) :
    ∃ e, x = .clause e ∧ ts.isEmpty = e.isNone := by
  cases h with
  | clauseAbsent => exact ⟨none, rfl, rfl⟩
  | clausePresent value =>
    obtain ⟨t, vs, rfl, -⟩ := value.beginsWith rfl
    exact ⟨some _, rfl, rfl⟩

/-- A primary expression stands for itself on every level. -/
theorem ofPrimary {e : Expr} (h : Reads .primary n ts (.expr e) m) :
    Reads .expression n ts (.expr e) m :=
  .expression <| .assignmentPlain <| .levelOperand .disjunction <| .levelOperand .conjunction <|
    .levelOperand .equality <| .levelOperand .comparison <| .levelOperand .term <|
    .levelOperand .factor <| .unaryCall <| .callPrimary h

/-- A first clause that is there is a declaration. -/
theorem declared {s : Stmt} (h : Reads .forInitial n ts (.initial (some s)) m) :
    Reads .declaration n ts (.stmt s false) m := by
  cases h with
  | initialVar h inside => exact .declarationVar h inside
  | initialExpr inside => exact .declarationStatement (.statementExpr inside)

end Reads

namespace Rereads

variable {p : Part} {ts us is : List Token} {s : Stmt} {e : Expr} {stop : Token}

/-- A closed statement may stand where an open one may. -/
theorem opened (h : Rereads p ts (.stmt s false)) (isOpen : Bool) :
    Rereads p ts (.stmt s isOpen) := by
  intro n
  obtain ⟨s', m, hs, halike⟩ := h.closed n
  exact ⟨_, m, hs, .stmt halike fun himpossible => by cases himpossible⟩

/-- A last declaration. -/
theorem declarationsLast {isOpen : Bool} (h : Rereads .declaration ts (.stmt s isOpen)) :
    Rereads .declarations ts (.stmts [s]) := by
  have hall := h.declarationsMore (Reads.declarationsNone (n := 0)).rereads
  rwa [List.append_nil] at hall

/-- An expression with a semicolon is a declaration. -/
theorem declarationExpr (h : Rereads .expression ts (.expr e)) (hstop : stop.kind = .semicolon) :
    Rereads .declaration (ts ++ [stop]) (.stmt (.expr e) false) := by
  intro n
  obtain ⟨e', m, he, halike⟩ := h.expr n
  exact ⟨_, m, .declarationStatement (.statementExpr (.exprStmt he hstop)),
    .stmt (.expr halike) id⟩

/-- A first clause that is there is a declaration. -/
theorem declared (h : Rereads .forInitial ts (.initial (some s))) :
    Rereads .declaration ts (.stmt s false) := by
  intro n
  obtain ⟨first, m, hread, halike⟩ := h.initial n
  cases halike with
  | some halike => exact ⟨_, m, hread.declared, .stmt halike id⟩

/-- A clause that is there is an expression. -/
theorem expression_of_clause (h : Rereads .clause ts (.clause (some e))) :
    Rereads .expression ts (.expr e) := by
  intro n
  obtain ⟨e', m, hread, halike⟩ := h.clause n
  cases halike with
  | some halike =>
    cases hread with
    | clausePresent value => exact ⟨_, m, value, .expr halike⟩

/-- Whether a first clause is absent shows in its tokens. -/
theorem initial_isEmpty {first : Option Stmt}
    (h : Rereads .forInitial (is ++ [stop]) (.initial first)) : is.isEmpty = first.isNone := by
  obtain ⟨first', m, hread, halike⟩ := h.initial 0
  rw [hread.initial_isEmpty]
  cases halike <;> rfl

/-- Whether a clause is absent shows in its tokens. -/
theorem clause_isEmpty {e : Option Expr} (h : Rereads .clause ts (.clause e)) :
    ts.isEmpty = e.isNone := by
  obtain ⟨e', m, hread, halike⟩ := h.clause 0
  obtain ⟨e'', hx, hempty⟩ := hread.exists_clause
  cases hx
  rw [hempty]
  cases halike <;> rfl

end Rereads

/-- A body with a step behind it, if there is one. -/
def stepped (s : Stmt) : Option Expr → Stmt
  | none => s
  | some e => .block [s, .expr e]

/-- A loop with clauses, without a first one. -/
theorem desugared_none (c : Expr) (step : Option Expr) (s : Stmt) :
    desugared none c step s = .loop c (stepped s step) := by cases step <;> rfl

/-- A loop with clauses, with a first one. -/
theorem desugared_some (first : Stmt) (c : Expr) (step : Option Expr) (s : Stmt) :
    desugared (some first) c step s = .block [first, .loop c (stepped s step)] := by
  cases step <;> rfl

namespace ForStatement

variable {f : ForStatement} {w : LoopTokens} {first : Option Stmt} {c : Expr} {step : Option Expr}
  {s : Stmt} {isOpen : Bool}

/-- What the condition of the plain loop is read as. -/
theorem plainCondition_rereads {e : Option Expr} (h : Rereads .clause f.condition (.clause e))
    (i : Nat) : Rereads .expression (f.plainCondition w) (.expr (e.getD (.literal i (.bool true)))) := by
  unfold plainCondition
  rw [h.clause_isEmpty]
  cases e with
  | none =>
    have hvalue : constant? w.constant = some (.bool true) := by
      unfold constant?
      rw [w.constant_kind]
    exact fun n => ⟨_, n + 1, Reads.ofPrimary (.constant hvalue), .expr (.literal _ trivial)⟩
  | some e => exact h.expression_of_clause

/-- What the body of the plain loop is read as. -/
theorem plainBody_rereads (hstep : Rereads .clause f.step (.clause step))
    (hbody : Rereads .statement f.body (.stmt s isOpen)) :
    Rereads .statement (f.plainBody w) (.stmt (stepped s step) isOpen) := by
  unfold plainBody
  rw [hstep.clause_isEmpty]
  cases step with
  | none => exact hbody
  | some e =>
    have hlast := (hstep.expression_of_clause.declarationExpr w.stepStop_kind).declarationsLast
    have hinside := hbody.declarationStatement.declarationsMore hlast
    exact (Rereads.statementBlock w.bodyOpening_kind hinside w.bodyClosing_kind).opened isOpen

/-- A loop with clauses is read as the same when it is unrolled. -/
theorem unrolled_rereads
    (hinitial : Rereads .forInitial (f.initial ++ [f.initialStop]) (.initial first))
    (hcondition : Rereads .expression (f.plainCondition w) (.expr c))
    (hstep : Rereads .clause f.step (.clause step))
    (hbody : Rereads .statement f.body (.stmt s isOpen)) :
    Rereads .statement (f.unrolled w) (.stmt (desugared first c step s) isOpen) := by
  have hloop : Rereads .statement (f.plainLoop w) (.stmt (.loop c (stepped s step)) isOpen) :=
    .statementWhile w.keyword_kind w.left_kind hcondition w.right_kind
      (plainBody_rereads hstep hbody)
  unfold unrolled
  rw [hinitial.initial_isEmpty]
  cases first with
  | none =>
    rw [desugared_none]
    exact hloop
  | some d =>
    rw [desugared_some]
    have hinside := hinitial.declared.declarationsMore hloop.declarationStatement.declarationsLast
    exact (Rereads.statementBlock w.opening_kind hinside w.closing_kind).opened isOpen

end ForStatement

section Cut

variable {ts ts' rest rest' : List Token} {stop stop' : Token}

/-- What a reader accepts is cut off in one way only. -/
theorem Accepts.cut {α : Type} {reader : Reader α} {n m m' : Nat} {v v' : α}
    (h : Accepts reader n ts rest v m) (h' : Accepts reader n ts' rest' v' m')
    (heq : ts ++ rest = ts' ++ rest') : ts = ts' ∧ rest = rest' := by
  have hread := h (Token.endAt 1) []
  rw [heq, h' (Token.endAt 1) []] at hread
  cases (hread : EStateM.Result.ok v' (⟨rest', Token.endAt 1, m', []⟩ : Cursor) =
    .ok v ⟨rest, Token.endAt 1, m, []⟩)
  exact ⟨List.append_cancel_right heq, rfl⟩

/-- What can be read can be read from the first number on. -/
theorem Legible.exists_reads {p : Part} (h : Legible p ts) : ∃ x m, Reads p 0 ts x m := by
  obtain ⟨_, _, _, h⟩ := h
  obtain ⟨x, m, h, -⟩ := h.rereads 0
  exact ⟨x, m, h⟩

/-- A first clause is cut off in one way only. -/
theorem Legible.cut_initial (h : Legible .forInitial ts) (h' : Legible .forInitial ts')
    (heq : ts ++ rest = ts' ++ rest') : ts = ts' ∧ rest = rest' := by
  have haccepts : ∀ {us vs}, Legible .forInitial us → ts ++ rest = us ++ vs →
      ∃ first m, Accepts (forInitial ((ts ++ rest).length + 1)) 0 us vs first m := by
    intro us vs h heq
    obtain ⟨x, m, h⟩ := h.exists_reads
    obtain ⟨_, _, first, -, rfl, -⟩ := h.exists_initial
    have hcompletes : CompletesWith forInitial 0 us first m := h.completes
    refine ⟨first, m, hcompletes _ _ ?_⟩
    rw [heq, List.length_append]
    exact Nat.lt_succ_self _
  obtain ⟨_, _, haccept⟩ := haccepts h rfl
  obtain ⟨_, _, haccept'⟩ := haccepts h' heq
  exact haccept.cut haccept' heq

/-- A clause is cut off in one way only before the token that ends it. -/
theorem Legible.cut_clause (h : Legible .clause ts) (h' : Legible .clause ts') {kind : Kind}
    (hkind : kind ∈ [Kind.semicolon, .rightParen]) (hstop : stop.kind = kind)
    (hstop' : stop'.kind = kind) (heq : ts ++ stop :: rest = ts' ++ stop' :: rest') :
    ts = ts' ∧ stop :: rest = stop' :: rest' := by
  have haccepts : ∀ {us last vs}, Legible .clause us → last.kind = kind →
      ts ++ stop :: rest = us ++ last :: vs → ∃ e m,
      Accepts (expressionUnless kind ((ts ++ stop :: rest).length + 1)) 0 us (last :: vs) e m := by
    intro us last vs h hlast heq
    obtain ⟨x, m, h⟩ := h.exists_reads
    obtain ⟨e, rfl, -⟩ := h.exists_clause
    have hcompletes : CompletesClause 0 us e m := h.completes
    refine ⟨e, m, hcompletes kind hkind _ last vs hlast ?_⟩
    rw [heq, List.length_append, List.length_cons]
    exact Nat.lt_succ_self _
  obtain ⟨_, _, haccept⟩ := haccepts h hstop rfl
  obtain ⟨_, _, haccept'⟩ := haccepts h' hstop' heq
  exact haccept.cut haccept' heq

namespace ForStatement

variable {f f' : ForStatement} {behind behind' : List Token}

/-- A body is cut off in one way only. -/
theorem TakesBody.cut (h : f.TakesBody behind) (h' : f'.TakesBody behind')
    (heq : f.body ++ behind = f'.body ++ behind') : f.body = f'.body ∧ behind = behind' := by
  have haccepts : ∀ {g : ForStatement} {others}, g.TakesBody others →
      f.body ++ behind = g.body ++ others → ∃ s m,
      Accepts (statement ((f.body ++ behind).length + 1)) 0 g.body others s m := by
    rintro g others ⟨n, s, isOpen, m, h, hopen⟩ heq
    obtain ⟨s', isOpen', m', h', -, hopened⟩ := h.rereads.stmt 0
    have hcompletes : CompletesStatement 0 g.body s' isOpen' m' := h'.completes
    refine ⟨s', m', hcompletes.nested ?_ fun ho => hopen (hopened ho)⟩
    rw [heq, List.length_append]
    exact Nat.lt_succ_self _
  obtain ⟨_, _, haccept⟩ := haccepts h rfl
  obtain ⟨_, _, haccept'⟩ := haccepts h' heq
  exact haccept.cut haccept' heq

/-- A `for` with its clauses and its body is cut off in one way only. -/
theorem TakesBody.unique (h : f.TakesBody behind) (h' : f'.TakesBody behind')
    (heq : f.tokens ++ behind = f'.tokens ++ behind') : f = f' ∧ behind = behind' := by
  unfold tokens at heq
  simp only [List.cons_append, List.cons.injEq, List.append_assoc, List.nil_append] at heq
  obtain ⟨hkeyword, hleft, heq⟩ := heq
  -- From the left to the right each part is cut off by a reader, which has no choice.
  rw [List.append_cons f.initial, List.append_cons f'.initial] at heq
  obtain ⟨hinitial, heq⟩ := f.initial_legible.cut_initial f'.initial_legible heq
  obtain ⟨hcondition, heq⟩ := f.condition_legible.cut_clause f'.condition_legible
    List.mem_cons_self f.conditionStop_kind f'.conditionStop_kind heq
  obtain ⟨hstop, heq⟩ := List.cons.inj heq
  obtain ⟨hstep, heq⟩ := f.step_legible.cut_clause f'.step_legible
    (List.mem_cons_of_mem _ List.mem_cons_self) f.right_kind f'.right_kind heq
  obtain ⟨hright, heq⟩ := List.cons.inj heq
  obtain ⟨hbody, hbehind⟩ := h.cut h' heq
  obtain ⟨hclause, hend⟩ := List.append_inj' hinitial rfl
  refine ⟨?_, hbehind⟩
  clear h h' heq
  cases f
  cases f'
  dsimp only at *
  subst hkeyword hleft hclause hcondition hstop hstep hright hbody
  cases hend
  rfl

end ForStatement

end Cut

end Scriptlet.Grammar
