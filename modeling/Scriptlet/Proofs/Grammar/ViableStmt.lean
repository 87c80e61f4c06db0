import Scriptlet.Proofs.Grammar.Strict
import Scriptlet.Proofs.Grammar.ViableExpr

/-!
# Statements and programs can be read on

The shortest statement is `nil;`, also where declarations may stand. What follows a
statement must not be an `else`, which an `if` inside it would take; this is asked only
of what stands behind the whole. Without recovery a program goes on from every token
that it has passed, to a text that can be read.
-/

namespace Scriptlet.Grammar

/-- What may follow a statement: no `else`. -/
abbrev EndsStmt : List Token → Prop := Stops [.kwElse]

/-- The shortest statement. -/
abbrev shortestStmt : List Token := [sample .kwNil, sample .semicolon]

/-- A reader of statements or declarations. -/
abbrev ViableStmt {α : Type} (fuel : Nat) (reader : Reader α) : Prop :=
  Viable fuel 1 shortestStmt EndsStmt reader

variable {β γ : Type} {fuel : Nat} {declared : Reader (Option Stmt)} {inner : Reader Stmt}
  {follow : List Token → Prop}

/-- A part, and the parts behind it. -/
theorem parts_extend {text : List Token} {first : Reader β} {others : Reader (List γ)}
    (join : β → List γ → List γ) {steps : Nat} (h : Viable fuel 1 text EndsStmt first)
    (hothers : Viable (min steps fuel) 0 [] follow others)
    (hfollow : ∀ rest, follow rest → EndsStmt rest) :
    Extends (min (steps + 1) fuel) 1 follow (do
      let b ← first
      let bs ← others
      return join b bs) :=
  .bind h (fun b => hothers.andPure) (by omega) (by omega) (Nat.le_refl 1) hfollow
    fun _ => hfollow

/-- Parts read one after the other, as long as no closing brace and no end comes. -/
theorem listed_viable {text : List Token} {first : Reader β} {others : Reader (List γ)}
    (join : β → List γ → List γ) {steps : Nat} (h : Viable fuel 1 text EndsStmt first)
    (hothers : Viable (min steps fuel) 0 [] (Closes .rightBrace) others) :
    Viable (min (steps + 1) fuel) 0 [] (Closes .rightBrace) (do
      if (← nextIs .rightBrace) || (← atEnd) then return []
      let b ← first
      let bs ← others
      return join b bs) := by
  have hmore := parts_extend join h hothers fun rest hrest => hrest.stops (by decide)
  refine .stopping (fun next => (next.any fun t => t.kind == .rightBrace) || next.isNone) ?_
    (fun c => ?_) (.pure []) hmore fun rest hrest => ?_
  · refine .bind (.nextIs _) fun closes => .bind .atEnd fun ends => ?_
    split
    · exact .pure _
    · exact hmore.planned
  · rw [bind_of_ok (nextIs_eq .rightBrace c), bind_of_ok (atEnd_eq c)]
    cases c.rest <;> rfl
  · rw [hrest.any, Bool.true_or]

/-- Declarations up to a closing brace. -/
theorem declarations_viable (h : ViableStmt fuel declared) (steps : Nat) :
    Viable (min steps fuel) 0 [] (Closes .rightBrace) (declarations declared steps) := by
  induction steps with
  | zero =>
    rw [Nat.zero_min]
    exact .exhausted
  | succ steps ih => exact listed_viable (fun first others => first.toList ++ others) h ih

/-- The body of a block after its opening brace. -/
theorem block_viable (h : ViableStmt fuel declared) :
    Viable fuel 1 [sample .rightBrace] follow (block declared (fuel + 1)) :=
  .closed (declarations_viable h (fuel + 1)) (by omega) (by decide) (fun _ => .cons _ rfl)
    fun body _ => .pure body

/-- Parameters separated by commas, up to a closing parenthesis. -/
theorem parameters_viable (steps count : Nat) :
    Viable steps 1 [sample .identifier] (Closes .rightParen) (parameters steps count) := by
  induction steps generalizing count with
  | zero => exact .exhausted
  | succ steps ih =>
    rw [parameters]
    exact .noteIf (.expect (by decide) fun first => .acceptLast
      (fun _ => (ih (count + 1)).andPure) (.pure [first])
      (fun _ hrest => hrest.stops (by decide)) (Nat.le_refl _))

/-- A function or method from its name on. -/
theorem routine_viable (kind : RoutineKind) (h : ViableStmt fuel declared) :
    Viable fuel 1 [sample .identifier, sample .leftParen, sample .rightParen, sample .leftBrace,
      sample .rightBrace] follow (routine kind declared (fuel + 1)) := by
  have hbody : ∀ name names, Viable fuel 1 [sample .rightParen, sample .leftBrace,
      sample .rightBrace] follow (do
        let _ ← expect .rightParen .parametersClose
        let _ ← expect .leftBrace (.bodyOpen kind)
        let body ← block declared (fuel + 1)
        return Routine.mk name names body) := fun name names =>
    .expect (by decide) fun _ => .expect (by decide) fun _ => (block_viable h).andPure
  have hnames : ∀ name, Extends fuel 1 follow (do
      let names ← parameters (fuel + 1) 0
      let _ ← expect .rightParen .parametersClose
      let _ ← expect .leftBrace (.bodyOpen kind)
      let body ← block declared (fuel + 1)
      return Routine.mk name names body) := fun name =>
    .bind (parameters_viable (fuel + 1) 0) (hbody name) (Nat.le_succ _) (Nat.le_succ _)
      (Nat.le_succ 1) (fun _ _ => .cons _ rfl) fun hzero => by cases hzero
  exact .expect (by decide) fun name => .expect (by decide) fun _ =>
    .decided (hbody name []) (hnames name)

/-- Methods up to a closing brace. -/
theorem methods_viable {text : List Token} {method : Reader Routine}
    (h : Viable fuel 1 text EndsStmt method) (steps : Nat) :
    Viable (min steps fuel) 0 [] (Closes .rightBrace) (methods method steps) := by
  induction steps with
  | zero =>
    rw [Nat.zero_min]
    exact .exhausted
  | succ steps ih => exact listed_viable List.cons h ih

/-- A class after its keyword. -/
theorem classDeclaration_viable (h : ViableStmt fuel declared) :
    Viable fuel 1 [sample .identifier, sample .leftBrace, sample .rightBrace] follow
      (classDeclaration declared (fuel + 1)) :=
  .expect (by decide) fun name => .expect (by decide) fun _ =>
    .closed (methods_viable (routine_viable .method h) (fuel + 1)) (by omega) (by decide)
      (fun _ => .cons _ rfl) fun members _ => .pure _

/-- An expression that is there where it may be absent. -/
theorem present_viable (fuel : Nat) : Viable fuel 1 shortest EndsExpr (some <$> expression fuel) :=
  (expression_viable fuel).map

/-- A variable after its keyword. -/
theorem varDeclaration_viable (fuel : Nat) :
    Viable fuel 1 [sample .identifier, sample .semicolon] follow (varDeclaration fuel) := by
  have hinitial : ∀ name, Viable fuel 1 (shortest ++ [sample .semicolon]) follow (do
      let initial ← some <$> expression fuel
      let _ ← expect .semicolon .variableEnd
      return Stmt.var name initial) := fun name =>
    .closed (present_viable fuel) (Nat.le_refl _) (by decide) (fun _ => .cons (by decide))
      fun _ _ => .pure _
  exact .expect (by decide) fun name => .accept (fun _ => hinitial name)
    (.expect (by decide) fun _ => .pure (Stmt.var name none)) (by decide) (Nat.le_succ _)

/-- An expression with its semicolon. -/
theorem expressionStatement_viable (fuel : Nat) :
    Viable fuel 1 shortestStmt follow (expressionStatement fuel) :=
  .closed (expression_viable fuel) (Nat.le_refl _) (by decide) (fun _ => .cons (by decide))
    fun value _ => .pure _

/-- An expression that may be absent before the token that follows it. -/
theorem expressionUnless_viable {kind : Kind} (hkind : kind ∉ exprGoesOn) (fuel : Nat) :
    Viable fuel 0 [] (Closes kind) (expressionUnless kind fuel) :=
  .stoppingAt (.pure none) ((present_viable fuel).toExtends.mono (Nat.le_refl _) (Nat.le_refl 1)
    fun _ hrest => hrest.stops hkind)

/-- The first clause of a `for`. -/
theorem forInitial_viable (fuel : Nat) :
    Viable (fuel + 1) 1 [sample .semicolon] follow (forInitial (fuel + 1)) := by
  have hdeclared : Viable (fuel + 1) 1 [sample .identifier, sample .semicolon] follow
      (some <$> varDeclaration (fuel + 1)) := (varDeclaration_viable (fuel + 1)).map
  have hplain : Viable (fuel + 1) 1 shortestStmt follow
      (some <$> expressionStatement (fuel + 1)) := (expressionStatement_viable (fuel + 1)).map
  rw [map_eq_pure_bind] at hdeclared hplain
  exact .acceptFirst (if_pos (List.mem_singleton_self _)) (by decide) (fun _ _ => .pure none)
    (.acceptMap (fun _ => hdeclared) hplain.toExtends (Nat.le_succ _) (by decide)
      fun hzero => by cases hzero)

/-- A `for` after its keyword. -/
theorem forStatement_viable (h : ViableStmt fuel inner) :
    Viable fuel 1 (sample .leftParen :: sample .semicolon :: sample .semicolon ::
      sample .rightParen :: shortestStmt) EndsStmt (forStatement inner (fuel + 1)) := by
  refine .expect (by decide) fun _ => .behind (forInitial_viable fuel) (fun initial =>
    .closed (expressionUnless_viable (by decide) (fuel + 1)) (Nat.le_succ _) (by decide)
      (fun _ => .cons _ rfl) fun condition _ =>
    .closed (expressionUnless_viable (by decide) (fuel + 1)) (Nat.le_succ _) (by decide)
      (fun _ => .cons _ rfl) fun step _ =>
    .andThen h (fun body => (?_ : Viable fuel 0 [] EndsStmt _)) (Nat.le_refl _))
    rfl (Nat.le_succ _)
  cases condition with
  | some condition => exact .pure _
  | none => exact (Viable.node _).andPure

/-- An `if` after its keyword. -/
theorem ifStatement_viable (h : ViableStmt fuel inner) :
    Viable fuel 1 (sample .leftParen :: sample .kwNil :: sample .rightParen :: shortestStmt)
      EndsStmt (ifStatement inner (fuel + 1)) := by
  have hno : ∀ condition yes, Viable fuel 1 shortestStmt EndsStmt (do
      let no ← inner
      return Stmt.ifElse condition yes no) := fun condition yes => h.andPure
  exact .expect (by decide) fun _ => .closed (expression_viable (fuel + 1)) (Nat.le_succ _)
    (by decide) (fun _ => .cons (by decide)) fun condition _ =>
    .andThen h (fun yes => .acceptLast (fun _ => hno condition yes)
      (.pure (Stmt.ifThen condition yes)) (fun _ hrest => hrest) (Nat.le_succ _)) (Nat.le_refl _)

/-- A `while` after its keyword. -/
theorem whileStatement_viable (h : ViableStmt fuel inner) :
    Viable fuel 1 (sample .leftParen :: sample .kwNil :: sample .rightParen :: shortestStmt)
      EndsStmt (whileStatement inner (fuel + 1)) :=
  .expect (by decide) fun _ => .closed (expression_viable (fuel + 1)) (Nat.le_succ _) (by decide)
    (fun _ => .cons (by decide)) fun condition _ => h.andPure

/-- A `print` after its keyword. -/
theorem printStatement_viable (fuel : Nat) :
    Viable fuel 1 shortestStmt follow (printStatement fuel) :=
  .closed (expression_viable fuel) (Nat.le_refl _) (by decide) (fun _ => .cons (by decide))
    fun value _ => .pure _

/-- A `return` after its keyword. -/
theorem returnStatement_viable (keyword : Token) (fuel : Nat) :
    Viable fuel 1 [sample .semicolon] follow (returnStatement keyword fuel) :=
  .closed (expressionUnless_viable (by decide) fuel) (Nat.le_refl _) (by decide)
    (fun _ => .cons _ rfl) fun value _ => .pure _

/-- A statement, from readers of the declarations and statements inside it. -/
theorem statementRule_viable (hd : ViableStmt fuel declared) (hs : ViableStmt fuel inner) :
    ViableStmt (fuel + 1) (statementRule declared inner (fuel + 1)) := by
  have hprint : Viable (fuel + 1) 1 shortestStmt EndsStmt (printStatement (fuel + 1)) :=
    printStatement_viable (fuel + 1)
  have hreturn : ∀ keyword, Viable (fuel + 1) 1 [sample .semicolon] EndsStmt
      (returnStatement keyword (fuel + 1)) :=
    fun keyword => returnStatement_viable keyword (fuel + 1)
  have hblock : Viable fuel 1 [sample .rightBrace] EndsStmt (do
      let body ← block declared (fuel + 1)
      return Stmt.block body) := (block_viable hd).andPure
  exact .accept (fun _ => forStatement_viable hs)
    (.accept (fun _ => ifStatement_viable hs)
    (.accept (fun _ => hprint)
    (.accept hreturn
    (.accept (fun _ => whileStatement_viable hs)
    (.accept (fun _ => hblock) (expressionStatement_viable (fuel + 1))
      (by decide) (Nat.le_refl _))
      (by decide) (Nat.le_refl _))
      (by decide) (Nat.le_succ _))
      (by decide) (Nat.le_succ _))
      (by decide) (Nat.le_refl _))
      (by decide) (Nat.le_refl _)

/-- A declaration or statement, from readers of those inside it. -/
theorem declarationRule_viable (hd : ViableStmt fuel declared) (hs : ViableStmt fuel inner) :
    ViableStmt (fuel + 1) (declarationRule declared inner (fuel + 1)) := by
  have hroutine : Viable fuel 1 _ EndsStmt (do
      let r ← routine .function declared (fuel + 1)
      return Stmt.function r) := (routine_viable .function hd).andPure
  exact .accept (fun _ => classDeclaration_viable hd)
    (.accept (fun _ => hroutine)
    (.accept (fun _ => varDeclaration_viable (fuel + 1)) (statementRule_viable hd hs)
      (by decide) (Nat.le_succ _))
      (by decide) (Nat.le_refl _))
      (by decide) (Nat.le_refl _)

/-- Declarations up to the end. -/
theorem programFrom_viable (h : ViableStmt fuel declared) (steps : Nat) :
    Viable (min steps fuel) 0 [] (· = []) (programFrom declared steps) := by
  induction steps with
  | zero =>
    rw [Nat.zero_min]
    exact .exhausted
  | succ steps ih =>
    have hmore := parts_extend (fun first others => first.toList ++ others) h ih
      (by rintro _ rfl t ht; exact absurd ht (Option.not_mem_none t))
    refine .stopping Option.isNone (programFrom_planned h.planned (steps + 1)) (fun c => ?_)
      (.pure []) hmore ?_
    · rw [programFrom, bind_of_ok (atEnd_eq c)]
      cases c.rest <;> rfl
    · rintro _ rfl
      rfl

namespace Strict

/-- Declarations and statements without recovery. -/
theorem declaration_statement_viable (fuel : Nat) :
    ViableStmt fuel (declaration fuel) ∧ ViableStmt fuel (statement fuel) := by
  induction fuel with
  | zero =>
    rw [declaration, statement]
    exact ⟨.exhausted, .exhausted⟩
  | succ fuel ih =>
    rw [declaration, statement]
    exact ⟨(declarationRule_viable ih.1 ih.2).map, statementRule_viable ih.1 ih.2⟩

/-- A program goes on from every token that was passed without recovery. -/
theorem program_viable (fuel : Nat) : Viable fuel 0 [] (· = []) (program fuel) := by
  have hprogram := programFrom_viable (declaration_statement_viable fuel).1 fuel
  rwa [Nat.min_self] at hprogram

end Strict

end Scriptlet.Grammar
