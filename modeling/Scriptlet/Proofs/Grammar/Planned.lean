import Scriptlet.Grammar.Stmt
import Scriptlet.Proofs.Grammar.Walking

/-!
# Every reader follows a plan

The readers of the grammar touch their tokens through the primitives only. There is
one rule for each primitive and for one reader after another, and then one lemma for
each reader of the grammar.
-/

namespace Scriptlet.Grammar

variable {α β : Type}

/-- A reader that does what some plan says. -/
def Planned (reader : Reader α) : Prop := ∃ plan : Plan α, plan.read = reader

namespace Planned

variable {first : Reader β} {next : β → Reader α}

/-- A value given without reading. -/
theorem pure (value : α) : Planned (Pure.pure value : Reader α) := ⟨.pure value, rfl⟩

/-- One reader after another. -/
theorem bind (h : Planned first) (hnext : ∀ b, Planned (next b)) : Planned (first >>= next) := by
  obtain ⟨plan, rfl⟩ := h
  obtain ⟨plans, hplans⟩ := Classical.axiomOfChoice hnext
  obtain rfl : (fun b => (plans b).read) = next := funext hplans
  exact ⟨.bind plan plans, rfl⟩

/-- Giving up for lack of fuel. -/
theorem exhausted : Planned (exhausted : Reader α) := ⟨.exhausted, rfl⟩

/-- Giving up because a required part is missing. -/
theorem missing (what : Expectation) : Planned (missing what : Reader α) := ⟨.missing what, rfl⟩

/-- Noting a violation at the next token. -/
theorem noteHere (fault : SyntaxFault) : Planned (noteHere fault) := ⟨.noteHere fault, rfl⟩

/-- Noting a violation at an earlier token. -/
theorem noteAt (place : Token) (fault : SyntaxFault) : Planned (noteAt place fault) :=
  ⟨.noteAt place fault, rfl⟩

/-- Reading the next token if a function has a value for it. -/
theorem acceptMap (f : Token → Option α) : Planned (acceptMap? f) := ⟨.acceptMap f, rfl⟩

/-- Reading the next token if it is of one of several kinds. -/
theorem acceptAny (kinds : List Kind) : Planned (acceptAny? kinds) := acceptMap _

/-- Reading the next token if it is of a kind. -/
theorem accept (kind : Kind) : Planned (accept? kind) := acceptAny [kind]

/-- Looking at the next token. -/
theorem nextIs (kind : Kind) : Planned (nextIs kind) := ⟨.nextIs kind, rfl⟩

/-- Looking whether tokens are left. -/
theorem atEnd : Planned atEnd := ⟨.atEnd, rfl⟩

/-- Completing an expression. -/
theorem node (make : Nat → Expr) : Planned (node make) := ⟨.node make, rfl⟩

/-- Skipping a statement that cannot be read. -/
theorem recovering {reader : Reader Stmt} (h : Planned reader) : Planned (recovering reader) := by
  obtain ⟨plan, rfl⟩ := h
  exact ⟨.recovering plan, rfl⟩

/-- The image of a value. -/
theorem map {f : β → α} (h : Planned first) : Planned (f <$> first) := by
  rw [map_eq_pure_bind]
  exact h.bind fun b => pure (f b)

/-- A token that may be read, and what follows it in either case. -/
theorem choose {first : Reader (Option β)} {next : Option β → Reader α} (h : Planned first)
    (hsome : ∀ b, Planned (next (some b))) (hnone : Planned (next none)) :
    Planned (first >>= next) := by
  refine h.bind fun b => ?_
  cases b with
  | none => exact hnone
  | some b => exact hsome b

/-- What is decided by looking, and what follows in either case. -/
theorem decided {first : Reader Bool} {next : Bool → Reader α} (h : Planned first)
    (htrue : Planned (next true)) (hfalse : Planned (next false)) : Planned (first >>= next) := by
  refine h.bind fun b => ?_
  cases b with
  | true => exact htrue
  | false => exact hfalse

/-- What follows a violation that is noted on some condition. -/
theorem noteIf {c : Prop} [Decidable c] {fault : SyntaxFault} {next : Reader α} (h : Planned next) :
    Planned (if c then Grammar.noteHere fault >>= fun _ => next else next) := by
  split
  · exact bind (noteHere fault) fun _ => h
  · exact h

/-- Reading a required token. -/
theorem expect (kind : Kind) (what : Expectation) : Planned (expect kind what) :=
  choose (accept kind) (fun t => pure t) (missing what)

end Planned

variable {nested : Reader Expr} {declared : Reader (Option Stmt)} {inner : Reader Stmt}

/-- A constant, a name, the receiver or an expression in parentheses. -/
theorem primary_planned (h : Planned nested) : Planned (primary nested) :=
  .choose (.acceptMap _) (fun _ => .node _)
    (.choose (.accept _) (fun _ => .node _)
    (.choose (.accept _) (fun _ => .node _)
    (.choose (.accept _) (fun _ => .bind h fun _ => .bind (.expect _ _) fun _ => .node _)
    (.missing _))))

/-- Arguments separated by commas. -/
theorem arguments_planned (h : Planned nested) (steps count : Nat) :
    Planned (arguments nested steps count) := by
  induction steps generalizing count with
  | zero => exact .exhausted
  | succ steps ih =>
    rw [arguments]
    exact .noteIf (.bind h fun _ => .choose (.accept _)
      (fun _ => .bind (ih (count + 1)) fun _ => .pure _) (.pure _))

/-- Calls and properties behind an operand. -/
theorem postfixes_planned (h : Planned nested) (steps : Nat) (operand : Expr) :
    Planned (postfixes nested steps operand) := by
  induction steps generalizing operand with
  | zero => exact .exhausted
  | succ steps ih =>
    have hgiven : Planned (callArguments nested (steps + 1)) :=
      .decided (.nextIs _) (.pure _) (arguments_planned h _ _)
    exact .choose (.accept _)
      (fun _ => .bind hgiven fun _ => .bind (.expect _ _) fun _ => .bind (.node _) fun _ => ih _)
      (.choose (.accept _)
        (fun _ => .bind (.expect _ _) fun _ => .bind (.node _) fun _ => ih _)
        (.pure _))

/-- An operand with its calls and properties. -/
theorem call_planned (h : Planned nested) (fuel : Nat) : Planned (call nested fuel) :=
  .bind (primary_planned h) fun _ => postfixes_planned h _ _

/-- Signs before an operand. -/
theorem signed_planned {operand : Reader Expr} (h : Planned operand) (steps : Nat) :
    Planned (signed operand steps) := by
  induction steps with
  | zero => exact .exhausted
  | succ steps ih => exact .choose (.acceptAny _) (fun _ => .bind ih fun _ => .node _) h

/-- Operators and operands behind a first operand. -/
theorem chainFrom_planned (make : Nat → Expr → Token → Expr → Expr) (operators : List Kind)
    {operand : Reader Expr} (h : Planned operand) (steps : Nat) (left : Expr) :
    Planned (chainFrom make operators operand steps left) := by
  induction steps generalizing left with
  | zero => exact .exhausted
  | succ steps ih =>
    exact .choose (.acceptAny _) (fun _ => .bind h fun _ => .bind (.node _) fun _ => ih _)
      (.pure _)

/-- Operands joined by operators of one level. -/
theorem chain_planned (make : Nat → Expr → Token → Expr → Expr) (operators : List Kind)
    {operand : Reader Expr} (h : Planned operand) (fuel : Nat) :
    Planned (chain make operators operand fuel) :=
  .bind h fun left => chainFrom_planned make operators h fuel left

/-- All levels of operators. -/
theorem disjunction_planned (h : Planned nested) (fuel : Nat) :
    Planned (disjunction nested fuel) := by
  have hsigned := signed_planned (call_planned h fuel) fuel
  have hfactor := chain_planned .binary [.star, .slash] hsigned fuel
  have hterm := chain_planned .binary [.minus, .plus] hfactor fuel
  have hcomparison :=
    chain_planned .binary [.greater, .greaterEqual, .less, .lessEqual] hterm fuel
  have hequality := chain_planned .binary [.bangEqual, .equalEqual] hcomparison fuel
  have hconjunction := chain_planned .logical [.kwAnd] hequality fuel
  exact chain_planned .logical [.kwOr] hconjunction fuel

/-- An assignment, or what stands without one. -/
theorem assignment_planned (h : Planned nested) (fuel : Nat) :
    Planned (assignment nested fuel) := by
  refine .bind (disjunction_planned h fuel) fun target => .choose (.accept _)
    (fun sign => .bind h fun value => ?_) (.pure _)
  split
  · exact .node _
  · exact .node _
  · exact .bind (.noteAt _ _) fun _ => .pure _

/-- An expression. -/
theorem expression_planned (fuel : Nat) : Planned (expression fuel) := by
  induction fuel with
  | zero => exact .exhausted
  | succ fuel ih => exact assignment_planned ih (fuel + 1)

/-- Declarations up to a closing brace or the end. -/
theorem declarations_planned (h : Planned declared) (steps : Nat) :
    Planned (declarations declared steps) := by
  induction steps with
  | zero => exact .exhausted
  | succ steps ih =>
    refine .bind (.nextIs _) fun closes => .bind .atEnd fun ends => ?_
    split
    · exact .pure _
    · exact .bind h fun _ => .bind ih fun _ => .pure _

/-- The body of a block after its opening brace. -/
theorem block_planned (h : Planned declared) (fuel : Nat) : Planned (block declared fuel) :=
  .bind (declarations_planned h fuel) fun _ => .bind (.expect _ _) fun _ => .pure _

/-- Parameters separated by commas. -/
theorem parameters_planned (steps count : Nat) : Planned (parameters steps count) := by
  induction steps generalizing count with
  | zero => exact .exhausted
  | succ steps ih =>
    rw [parameters]
    exact .noteIf (.bind (.expect _ _) fun _ => .choose (.accept _)
      (fun _ => .bind (ih (count + 1)) fun _ => .pure _) (.pure _))

/-- A function or method from its name on. -/
theorem routine_planned (kind : RoutineKind) (h : Planned declared) (fuel : Nat) :
    Planned (routine kind declared fuel) := by
  have hbody : ∀ name names, Planned (do
      let _ ← Grammar.expect .rightParen .parametersClose
      let _ ← Grammar.expect .leftBrace (.bodyOpen kind)
      let body ← block declared fuel
      return Routine.mk name names body) :=
    fun _ _ => .bind (.expect _ _) fun _ => .bind (.expect _ _) fun _ =>
      .bind (block_planned h fuel) fun _ => .pure _
  exact .bind (.expect _ _) fun name => .bind (.expect _ _) fun _ => .decided (.nextIs _)
    (hbody name []) (.bind (parameters_planned _ _) fun names => hbody name names)

/-- Methods up to a closing brace or the end. -/
theorem methods_planned {method : Reader Routine} (h : Planned method) (steps : Nat) :
    Planned (methods method steps) := by
  induction steps with
  | zero => exact .exhausted
  | succ steps ih =>
    refine .bind (.nextIs _) fun closes => .bind .atEnd fun ends => ?_
    split
    · exact .pure _
    · exact .bind h fun _ => .bind ih fun _ => .pure _

/-- A class after its keyword. -/
theorem classDeclaration_planned (h : Planned declared) (fuel : Nat) :
    Planned (classDeclaration declared fuel) :=
  .bind (.expect _ _) fun _ => .bind (.expect _ _) fun _ =>
    .bind (methods_planned (routine_planned .method h fuel) fuel) fun _ =>
      .bind (.expect _ _) fun _ => .pure _

/-- A variable after its keyword. -/
theorem varDeclaration_planned (fuel : Nat) : Planned (varDeclaration fuel) :=
  .bind (.expect _ _) fun _ => .choose (.accept _)
    (fun _ => .bind (.map (expression_planned fuel)) fun _ => .bind (.expect _ _) fun _ => .pure _)
    (.bind (.pure _) fun _ => .bind (.expect _ _) fun _ => .pure _)

/-- An expression with its semicolon. -/
theorem expressionStatement_planned (fuel : Nat) : Planned (expressionStatement fuel) :=
  .bind (expression_planned fuel) fun _ => .bind (.expect _ _) fun _ => .pure _

/-- An expression that may be absent. -/
theorem expressionUnless_planned (kind : Kind) (fuel : Nat) :
    Planned (expressionUnless kind fuel) :=
  .decided (.nextIs _) (.pure _) (.map (expression_planned fuel))

/-- The first clause of a `for`. -/
theorem forInitial_planned (fuel : Nat) : Planned (forInitial fuel) :=
  .choose (.accept _) (fun _ => .pure _)
    (.choose (.accept _) (fun _ => .bind (varDeclaration_planned fuel) fun _ => .pure _)
    (.bind (expressionStatement_planned fuel) fun _ => .pure _))

/-- A `for` after its keyword. -/
theorem forStatement_planned (h : Planned inner) (fuel : Nat) :
    Planned (forStatement inner fuel) := by
  refine .bind (.expect _ _) fun _ => .bind (forInitial_planned fuel) fun initial =>
    .bind (expressionUnless_planned _ fuel) fun condition => .bind (.expect _ _) fun _ =>
      .bind (expressionUnless_planned _ fuel) fun step => .bind (.expect _ _) fun _ =>
        .bind h fun body => ?_
  cases condition with
  | some condition => exact .pure _
  | none => exact .bind (.node _) fun _ => .pure _

/-- An `if` after its keyword. -/
theorem ifStatement_planned (h : Planned inner) (fuel : Nat) :
    Planned (ifStatement inner fuel) :=
  .bind (.expect _ _) fun _ => .bind (expression_planned fuel) fun _ => .bind (.expect _ _) fun _ =>
    .bind h fun _ => .choose (.accept _) (fun _ => .bind h fun _ => .pure _) (.pure _)

/-- A `while` after its keyword. -/
theorem whileStatement_planned (h : Planned inner) (fuel : Nat) :
    Planned (whileStatement inner fuel) :=
  .bind (.expect _ _) fun _ => .bind (expression_planned fuel) fun _ => .bind (.expect _ _) fun _ =>
    .bind h fun _ => .pure _

/-- A `print` after its keyword. -/
theorem printStatement_planned (fuel : Nat) : Planned (printStatement fuel) :=
  .bind (expression_planned fuel) fun _ => .bind (.expect _ _) fun _ => .pure _

/-- A `return` after its keyword. -/
theorem returnStatement_planned (keyword : Token) (fuel : Nat) :
    Planned (returnStatement keyword fuel) :=
  .bind (expressionUnless_planned _ fuel) fun _ => .bind (.expect _ _) fun _ => .pure _

/-- A statement, from readers of the declarations and statements inside it. -/
theorem statementRule_planned (hd : Planned declared) (hs : Planned inner) (fuel : Nat) :
    Planned (statementRule declared inner fuel) :=
  .choose (.accept _) (fun _ => forStatement_planned hs fuel)
    (.choose (.accept _) (fun _ => ifStatement_planned hs fuel)
    (.choose (.accept _) (fun _ => printStatement_planned fuel)
    (.choose (.accept _) (fun keyword => returnStatement_planned keyword fuel)
    (.choose (.accept _) (fun _ => whileStatement_planned hs fuel)
    (.choose (.accept _) (fun _ => .bind (block_planned hd fuel) fun _ => .pure _)
    (expressionStatement_planned fuel))))))

/-- A declaration or statement, from readers of those inside it. -/
theorem declarationRule_planned (hd : Planned declared) (hs : Planned inner) (fuel : Nat) :
    Planned (declarationRule declared inner fuel) :=
  .choose (.accept _) (fun _ => classDeclaration_planned hd fuel)
    (.choose (.accept _) (fun _ => .bind (routine_planned .function hd fuel) fun _ => .pure _)
    (.choose (.accept _) (fun _ => varDeclaration_planned fuel)
    (statementRule_planned hd hs fuel)))

/-- Declarations and statements. -/
theorem declaration_statement_planned (fuel : Nat) :
    Planned (declaration fuel) ∧ Planned (statement fuel) := by
  induction fuel with
  | zero =>
    rw [declaration, statement]
    exact ⟨.exhausted, .exhausted⟩
  | succ fuel ih =>
    rw [declaration, statement]
    exact ⟨.recovering (declarationRule_planned ih.1 ih.2 (fuel + 1)),
      statementRule_planned ih.1 ih.2 (fuel + 1)⟩

/-- Declarations up to the end. -/
theorem programFrom_planned (h : Planned declared) (steps : Nat) :
    Planned (programFrom declared steps) := by
  induction steps with
  | zero => exact .exhausted
  | succ steps ih =>
    refine .bind .atEnd fun ends => ?_
    split
    · exact .pure _
    · exact .bind h fun _ => .bind ih fun _ => .pure _

/-- A whole program. -/
theorem program_planned (fuel : Nat) : Planned (program fuel) :=
  programFrom_planned (declaration_statement_planned fuel).1 fuel

end Scriptlet.Grammar
