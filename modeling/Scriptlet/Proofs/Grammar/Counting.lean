import Scriptlet.Grammar.Stmt
import Scriptlet.Proofs.Grammar.Numbers

/-!
# How readers hand out numbers

A reader never takes a number back, whether it returns a value or halts, and the
expressions in its value have numbers that it handed out. Numbers may be handed
out to expressions that are dropped later, because their statement cannot be read
or because they stand for an assigned name. So the judgement of this module, unlike
that on clean runs, is about every run of a reader.
-/

namespace Scriptlet.Grammar

variable {α β : Type}

/-- The cursor that a reader reaches. -/
def cursorOf : EStateM.Result Halt Cursor α → Cursor
  | .ok _ c => c
  | .error _ c => c

/-- What the next numbers before and behind a value say about it. -/
abbrev Count (α : Type) := Nat → α → Nat → Prop

/-- What a result has to be behind a cursor whose next number is `n`. -/
def Counted.Within (n : Nat) (holds : Count α) : EStateM.Result Halt Cursor α → Prop
  | .ok v after => n ≤ after.nextId ∧ holds n v after.nextId
  | .error _ after => n ≤ after.nextId

/-- Whether a reader returns a value or halts, the next number goes upward, and the
value is as claimed. -/
def Counts (reader : Reader α) (holds : Count α) : Prop :=
  ∀ c, Counted.Within c.nextId holds (reader c)

/-- A reader that hands out no number. -/
def Quiet (reader : Reader α) : Prop := ∀ c, (cursorOf (reader c)).nextId = c.nextId

namespace Quiet

/-- Reading a token hands out no number. -/
theorem acceptMap (f : Token → Option β) : Quiet (acceptMap? f) := by
  intro c
  unfold acceptMap?
  split
  · rfl
  · split <;> rfl

/-- Reading a token of some kinds hands out no number. -/
theorem acceptAny (kinds : List Kind) : Quiet (acceptAny? kinds) := acceptMap _

/-- Reading a token of a kind hands out no number. -/
theorem accept (kind : Kind) : Quiet (accept? kind) := acceptAny [kind]

/-- Looking at the next token hands out no number. -/
theorem nextIs (kind : Kind) : Quiet (nextIs kind) := by
  intro c
  unfold Grammar.nextIs
  split <;> rfl

/-- One reader after another that both hand out no number. -/
theorem bind {first : Reader β} {next : β → Reader α} (h : Quiet first)
    (hnext : ∀ b, Quiet (next b)) : Quiet (first >>= next) := by
  intro c
  have hc := h c
  change (cursorOf (EStateM.bind first next c)).nextId = c.nextId
  unfold EStateM.bind
  revert hc
  cases first c with
  | ok b middle => exact fun hmiddle => (hnext b middle).trans hmiddle
  | error halt after => exact id

/-- Reading a required token hands out no number. -/
theorem expect (kind : Kind) (what : Expectation) : Quiet (expect kind what) := by
  refine (accept kind).bind fun found => ?_
  cases found <;> exact fun _ => rfl

/-- What follows a violation that is noted on some condition. -/
theorem noteIf {c : Prop} [Decidable c] {fault : SyntaxFault} {next : Reader α} (h : Quiet next) :
    Quiet (if c then noteHere fault >>= fun _ => next else next) := by
  split
  · exact bind (fun _ => rfl) fun _ => h
  · exact h

/-- Reading parameters hands out no number. -/
theorem parameters (steps count : Nat) : Quiet (parameters steps count) := by
  induction steps generalizing count with
  | zero => exact fun _ => rfl
  | succ steps ih =>
    rw [Grammar.parameters]
    refine .noteIf ((expect _ _).bind fun first => (accept _).bind fun comma => ?_)
    cases comma with
    | none => exact fun _ => rfl
    | some _ => exact (ih (count + 1)).bind fun _ _ => rfl

end Quiet

namespace Counts

variable {holds : Count α} {between : Count β} {first : Reader β} {next : β → Reader α}

/-- Less may be claimed. -/
theorem mono {weaker : Count α} {reader : Reader α} (h : Counts reader holds)
    (himp : ∀ n v m, holds n v m → weaker n v m) : Counts reader weaker := by
  intro c
  have hc := h c
  revert hc
  cases reader c with
  | ok v after => exact fun hc => ⟨hc.1, himp _ _ _ hc.2⟩
  | error halt after => exact id

/-- One reader after another. -/
theorem bind (h : Counts first between)
    (hnext : ∀ b, Counts (next b) fun m v k => ∀ n, between n b m → holds n v k) :
    Counts (first >>= next) holds := by
  intro c
  have hc := h c
  change Counted.Within c.nextId holds (EStateM.bind first next c)
  unfold EStateM.bind
  revert hc
  cases first c with
  | error halt after => exact id
  | ok b middle =>
    rintro ⟨hle, hb⟩
    have hmiddle := hnext b middle
    revert hmiddle
    dsimp only
    cases next b middle with
    | ok v after => exact fun hv => ⟨Nat.le_trans hle hv.1, hv.2 _ hb⟩
    | error halt after => exact fun hle' => Nat.le_trans hle hle'

/-- A value given without reading. -/
theorem pure {v : α} (h : ∀ n, holds n v n) : Counts (Pure.pure v : Reader α) holds :=
  fun _ => ⟨Nat.le_refl _, h _⟩

/-- Giving up. -/
theorem halt {why : Cursor → Halt} : Counts (fun c => .error (why c) c : Reader α) holds :=
  fun _ => Nat.le_refl _

/-- A reader that hands out no number, and what follows it. -/
theorem skip (h : Quiet first) (hnext : ∀ b, Counts (next b) holds) :
    Counts (first >>= next) holds := by
  have hfirst : Counts first fun n _ m => m = n := by
    intro c
    have hc := h c
    revert hc
    cases first c with
    | ok b after => exact fun heq => ⟨Nat.le_of_eq heq.symm, heq⟩
    | error halt after => exact fun heq => Nat.le_of_eq heq.symm
  refine hfirst.bind fun b => (hnext b).mono ?_
  rintro m v k hv n rfl
  exact hv

/-- What follows a violation that is noted on some condition. -/
theorem noteIf {c : Prop} [Decidable c] {fault : SyntaxFault} {next : Reader α}
    (h : Counts next holds) :
    Counts (if c then noteHere fault >>= fun _ => next else next) holds := by
  split
  · exact skip (fun _ => rfl) fun _ => h
  · exact h

/-- A token that may be read, and what follows it in either case. -/
theorem choose {first : Reader (Option β)} {next : Option β → Reader α} (h : Quiet first)
    (hsome : ∀ b, Counts (next (some b)) holds) (hnone : Counts (next none) holds) :
    Counts (first >>= next) holds := by
  refine skip h fun b => ?_
  cases b with
  | none => exact hnone
  | some b => exact hsome b

/-- Completing an expression last. -/
theorem nodeLast {make : Nat → Expr} {holds : Count Expr} (h : ∀ n, holds n (make n) (n + 1)) :
    Counts (node make) holds :=
  fun _ => ⟨Nat.le_succ _, h _⟩

/-- Completing an expression. -/
theorem node {make : Nat → Expr} {next : Expr → Reader α}
    (h : ∀ e, Counts (next e) fun m v k => ∀ n, e = make n ∧ m = n + 1 → holds n v k) :
    Counts (Grammar.node make >>= next) holds :=
  bind (nodeLast fun _ => ⟨rfl, rfl⟩) h

/-- The image of a value. -/
theorem map {f : β → α} (h : Counts first fun n b m => holds n (f b) m) :
    Counts (f <$> first) holds := by
  rw [map_eq_pure_bind]
  exact h.bind fun b => pure fun _ _ hb => hb

end Counts

/-- The numbers in an expression ascend over those that were handed out. -/
abbrev CountsExpr : Count Expr := fun n e m => Ascends n m e.numbers

variable {nested : Reader Expr}

/-- A constant, a name, the receiver or an expression in parentheses. -/
theorem primary_counts (h : Counts nested CountsExpr) : Counts (primary nested) CountsExpr := by
  refine .choose (.acceptMap _) (fun value => .nodeLast .one) (.choose (.accept _)
    (fun keyword => .nodeLast .one) (.choose (.accept _) (fun name => .nodeLast .one)
    (.choose (.accept _) (fun left => .bind h fun inner => .skip (.expect _ _) fun right =>
      .nodeLast ?group) .halt)))
  case group => exact fun m n hinner => hinner.snoc

/-- Arguments separated by commas. -/
theorem arguments_counts (h : Counts nested CountsExpr) (steps count : Nat) :
    Counts (arguments nested steps count) fun n es m => Ascends n m (Expr.numbersOfAll es) := by
  induction steps generalizing count with
  | zero => exact .halt
  | succ steps ih =>
    rw [arguments]
    refine .noteIf (.bind h fun first => .choose (.accept _)
      (fun comma => .bind (ih (count + 1)) fun others => .pure ?more) (.pure ?last))
    case more => exact fun k m hothers n hfirst => hfirst.append hothers
    case last => exact fun m n hfirst => hfirst.append (.none (Nat.le_refl m))

/-- Calls and properties behind an operand. -/
theorem postfixes_counts (h : Counts nested CountsExpr) (steps : Nat) (operand : Expr) :
    Counts (postfixes nested steps operand) fun m e k => ∀ n, Ascends n m operand.numbers →
      Ascends n k e.numbers := by
  induction steps generalizing operand with
  | zero => exact .halt
  | succ steps ih =>
    have hgiven : Counts (callArguments nested (steps + 1))
        fun n es m => Ascends n m (Expr.numbersOfAll es) := by
      refine .skip (.nextIs _) fun closes => ?_
      cases closes with
      | true => exact .pure fun n => .none (Nat.le_refl n)
      | false => exact arguments_counts h (steps + 1) 0
    refine .choose (.accept _) (fun left => .bind hgiven fun given => .skip (.expect _ _)
      fun right => .node fun call => (ih call).mono ?call)
      (.choose (.accept _) (fun dot => .skip (.expect _ _) fun name => .node fun property =>
        (ih property).mono ?get) (.pure ?done))
    case call =>
      rintro j e k hcall m ⟨rfl, rfl⟩ b hgiven n hoperand
      exact hcall n (hoperand.append hgiven).snoc
    case get =>
      rintro j e k hget m ⟨rfl, rfl⟩ n hoperand
      exact hget n hoperand.snoc
    case done => exact fun m n hoperand => hoperand

/-- An operand with its calls and properties. -/
theorem call_counts (h : Counts nested CountsExpr) (fuel : Nat) :
    Counts (call nested fuel) CountsExpr :=
  .bind (primary_counts h) fun operand => postfixes_counts h fuel operand

/-- Signs before an operand. -/
theorem signed_counts {operand : Reader Expr} (h : Counts operand CountsExpr) (steps : Nat) :
    Counts (signed operand steps) CountsExpr := by
  induction steps with
  | zero => exact .halt
  | succ steps ih =>
    refine .choose (.acceptAny _) (fun operator => .bind ih fun inner => .nodeLast ?sign) h
    case sign => exact fun m n hinner => hinner.snoc

/-- Operators and operands behind a first operand. -/
theorem chainFrom_counts {make : Nat → Expr → Token → Expr → Expr}
    (hmake : ∀ id a operator b,
      (make id a operator b).numbers = a.numbers ++ b.numbers ++ [id])
    (operators : List Kind) {operand : Reader Expr} (h : Counts operand CountsExpr) (steps : Nat)
    (left : Expr) :
    Counts (chainFrom make operators operand steps left) fun m e k =>
      ∀ n, Ascends n m left.numbers → Ascends n k e.numbers := by
  induction steps generalizing left with
  | zero => exact .halt
  | succ steps ih =>
    refine .choose (.acceptAny _) (fun operator => .bind h fun right => .node fun joined =>
      (ih joined).mono ?join) (.pure ?done)
    case join =>
      rintro j e k hmore m ⟨rfl, rfl⟩ b hright n hleft
      refine hmore n ?_
      rw [hmake]
      exact (hleft.append hright).snoc
    case done => exact fun m n hleft => hleft

/-- Operands joined by operators of one level. -/
theorem chain_counts {make : Nat → Expr → Token → Expr → Expr}
    (hmake : ∀ id a operator b,
      (make id a operator b).numbers = a.numbers ++ b.numbers ++ [id])
    (operators : List Kind) {operand : Reader Expr} (h : Counts operand CountsExpr) (fuel : Nat) :
    Counts (chain make operators operand fuel) CountsExpr :=
  .bind h fun first => chainFrom_counts hmake operators h fuel first

/-- All levels of operators. -/
theorem disjunction_counts (h : Counts nested CountsExpr) (fuel : Nat) :
    Counts (disjunction nested fuel) CountsExpr := by
  have hbinary : ∀ id a operator b,
      (Expr.binary id a operator b).numbers = a.numbers ++ b.numbers ++ [id] :=
    fun _ _ _ _ => rfl
  have hlogical : ∀ id a operator b,
      (Expr.logical id a operator b).numbers = a.numbers ++ b.numbers ++ [id] :=
    fun _ _ _ _ => rfl
  have hsigned := signed_counts (call_counts h fuel) fuel
  have hfactor := chain_counts hbinary [.star, .slash] hsigned fuel
  have hterm := chain_counts hbinary [.minus, .plus] hfactor fuel
  have hcomparison :=
    chain_counts hbinary [.greater, .greaterEqual, .less, .lessEqual] hterm fuel
  have hequality := chain_counts hbinary [.bangEqual, .equalEqual] hcomparison fuel
  have hconjunction := chain_counts hlogical [.kwAnd] hequality fuel
  exact chain_counts hlogical [.kwOr] hconjunction fuel

/-- An assignment, or what stands without one. The number of an assigned name or
property is handed out and dropped, and so is every number in the value behind a
target of another form. -/
theorem assignment_counts (h : Counts nested CountsExpr) (fuel : Nat) :
    Counts (assignment nested fuel) CountsExpr := by
  refine .bind (disjunction_counts h fuel) fun target => .choose (.accept _)
    (fun sign => .bind h fun value => ?_) (.pure fun m n htarget => htarget)
  split
  · refine .nodeLast ?_
    intro k m hvalue n htarget
    exact (hvalue.widen htarget.le (Nat.le_refl k)).snoc
  · refine .nodeLast ?_
    intro k m hvalue n htarget
    exact (htarget.left.append hvalue).snoc
  · refine .skip (fun _ => rfl) fun _ => .pure ?_
    intro k m hvalue n htarget
    exact htarget.widen (Nat.le_refl n) hvalue.le

/-- An expression. -/
theorem expression_counts (fuel : Nat) : Counts (expression fuel) CountsExpr := by
  induction fuel with
  | zero => exact .halt
  | succ fuel ih => exact assignment_counts ih (fuel + 1)

/-- The expressions in a value are spread over the numbers that were handed out. -/
abbrev CountsAll (exprs : α → List Expr) : Count α := fun n v m => Spread n m (exprs v)

/-- The expressions in a statement that may be absent. -/
abbrev exprsOfFound (found : Option Stmt) : List Expr := Stmt.exprsOfAll found.toList

/-- One statement before others. -/
theorem exprsOfFound_append (found : Option Stmt) (others : List Stmt) :
    Stmt.exprsOfAll (found.toList ++ others) = exprsOfFound found ++ Stmt.exprsOfAll others := by
  cases found with
  | none => rfl
  | some s =>
    change s.exprs ++ Stmt.exprsOfAll others = (s.exprs ++ []) ++ Stmt.exprsOfAll others
    rw [List.append_nil]

variable {declared : Reader (Option Stmt)} {inner : Reader Stmt}

/-- An expression, as the expressions in it. -/
theorem expression_countsAll (fuel : Nat) : Counts (expression fuel) (CountsAll Expr.nodes) :=
  (expression_counts fuel).mono fun _ _ _ h => h.spread

/-- Declarations up to a closing brace or the end. -/
theorem declarations_counts (h : Counts declared (CountsAll exprsOfFound)) (steps : Nat) :
    Counts (declarations declared steps) (CountsAll Stmt.exprsOfAll) := by
  induction steps with
  | zero => exact .halt
  | succ steps ih =>
    refine .skip (.nextIs _) fun closes => .skip (fun _ => rfl) fun ends => ?_
    split
    · exact .pure fun n => .none (Nat.le_refl n)
    · refine .bind h fun first => .bind ih fun others => .pure ?_
      intro k m hothers n hfirst
      change Spread n k (Stmt.exprsOfAll (first.toList ++ others))
      rw [exprsOfFound_append]
      exact hfirst.append hothers

/-- A statement that cannot be read is dropped with its numbers. -/
theorem recovering_counts {reader : Reader Stmt} (h : Counts reader (CountsAll Stmt.exprs)) :
    Counts (recovering reader) (CountsAll exprsOfFound) := by
  intro c
  have hc := h c
  unfold recovering
  revert hc
  cases reader c with
  | ok s after =>
    rintro ⟨hle, hs⟩
    exact ⟨hle, hs.append (.none (Nat.le_refl _))⟩
  | error halt after =>
    cases halt with
    | exhausted => exact id
    | failed e => exact fun hle => ⟨hle, .none hle⟩

/-- The body of a block after its opening brace. -/
theorem block_counts (h : Counts declared (CountsAll exprsOfFound)) (fuel : Nat) :
    Counts (block declared fuel) (CountsAll Stmt.exprsOfAll) :=
  .bind (declarations_counts h fuel) fun _ => .skip (.expect _ _) fun _ => .pure fun _ _ hbody =>
    hbody

/-- A function or method from its name on. -/
theorem routine_counts (kind : RoutineKind) (h : Counts declared (CountsAll exprsOfFound))
    (fuel : Nat) : Counts (routine kind declared fuel) (CountsAll Routine.exprs) := by
  have hbody : ∀ name names, Counts
      (do
        let _ ← expect .rightParen .parametersClose
        let _ ← expect .leftBrace (.bodyOpen kind)
        let body ← block declared fuel
        return Routine.mk name names body)
      (CountsAll Routine.exprs) := by
    intro name names
    exact .skip (.expect _ _) fun _ => .skip (.expect _ _) fun _ =>
      .bind (block_counts h fuel) fun body => .pure fun _ _ hbody => hbody
  refine .skip (.expect _ _) fun name => .skip (.expect _ _) fun _ => .skip (.nextIs _)
    fun closes => ?_
  cases closes with
  | true => exact hbody name []
  | false => exact .skip (.parameters _ _) fun names => hbody name names

/-- Methods up to a closing brace or the end. -/
theorem methods_counts {method : Reader Routine} (h : Counts method (CountsAll Routine.exprs))
    (steps : Nat) : Counts (methods method steps) (CountsAll Routine.exprsOfAll) := by
  induction steps with
  | zero => exact .halt
  | succ steps ih =>
    refine .skip (.nextIs _) fun closes => .skip (fun _ => rfl) fun ends => ?_
    split
    · exact .pure fun n => .none (Nat.le_refl n)
    · exact .bind h fun first => .bind ih fun others => .pure fun _ _ hothers _ hfirst =>
        hfirst.append hothers

/-- A class after its keyword. -/
theorem classDeclaration_counts (h : Counts declared (CountsAll exprsOfFound)) (fuel : Nat) :
    Counts (classDeclaration declared fuel) (CountsAll Stmt.exprs) :=
  .skip (.expect _ _) fun _ => .skip (.expect _ _) fun _ =>
    .bind (methods_counts (routine_counts .method h fuel) fuel) fun _ => .skip (.expect _ _)
      fun _ => .pure fun _ _ hmembers => hmembers

/-- A variable after its keyword. -/
theorem varDeclaration_counts (fuel : Nat) :
    Counts (varDeclaration fuel) (CountsAll Stmt.exprs) := by
  refine .skip (.expect _ _) fun name => .choose (.accept _) (fun sign => ?_) ?_
  · dsimp only
    rw [map_eq_pure_bind, bind_assoc]
    refine .bind (expression_countsAll fuel) fun value => ?_
    rw [pure_bind]
    exact .skip (.expect _ _) fun _ => .pure fun _ _ hvalue => hvalue
  · dsimp only
    rw [pure_bind]
    exact .skip (.expect _ _) fun _ => .pure fun n => .none (Nat.le_refl n)

/-- An expression with its semicolon. -/
theorem expressionStatement_counts (fuel : Nat) :
    Counts (expressionStatement fuel) (CountsAll Stmt.exprs) :=
  .bind (expression_countsAll fuel) fun _ => .skip (.expect _ _) fun _ => .pure fun _ _ hvalue =>
    hvalue

/-- An expression that may be absent. -/
theorem expressionUnless_counts (kind : Kind) (fuel : Nat) :
    Counts (expressionUnless kind fuel) (CountsAll Expr.nodesOfOption) := by
  refine .skip (.nextIs _) fun stops => ?_
  cases stops with
  | true => exact .pure fun n => .none (Nat.le_refl n)
  | false => exact .map (expression_countsAll fuel)

/-- The first clause of a `for`. -/
theorem forInitial_counts (fuel : Nat) : Counts (forInitial fuel) (CountsAll exprsOfFound) := by
  refine .choose (.accept _) (fun _ => .pure fun n => .none (Nat.le_refl n))
    (.choose (.accept _) (fun _ => .bind (varDeclaration_counts fuel) fun s => .pure ?_)
      (.bind (expressionStatement_counts fuel) fun s => .pure ?_))
  · exact fun m n hs => hs.append (.none (Nat.le_refl m))
  · exact fun m n hs => hs.append (.none (Nat.le_refl m))

/-- The expressions of a loop with clauses are those of its clauses and its body. -/
theorem forLoop_perm (initial : Option Stmt) (condition : Expr) (step : Option Expr) (body : Stmt) :
    (exprsOfFound initial ++ (condition.nodes ++ (Expr.nodesOfOption step ++ body.exprs))).Perm
      (forLoop initial condition step body).exprs := by
  have hplain : ∀ inside : Stmt, (Expr.nodesOfOption step ++ body.exprs).Perm inside.exprs →
      (exprsOfFound initial ++ (condition.nodes ++ (Expr.nodesOfOption step ++ body.exprs))).Perm
        (forLoop initial condition none inside).exprs := by
    intro inside hinside
    have hloop := hinside.append_left condition.nodes
    cases initial with
    | none => exact hloop
    | some s =>
      change ((s.exprs ++ []) ++ _).Perm (s.exprs ++ ((condition.nodes ++ inside.exprs) ++ []))
      rw [List.append_nil, List.append_nil]
      exact hloop.append_left s.exprs
  cases step with
  | none => exact hplain body (.refl _)
  | some e =>
    refine hplain (.block [body, .expr e]) ?_
    change (e.nodes ++ body.exprs).Perm (body.exprs ++ (e.nodes ++ []))
    rw [List.append_nil]
    exact List.perm_append_comm

/-- A `for` after its keyword; an absent condition is numbered after the body. -/
theorem forStatement_counts (h : Counts inner (CountsAll Stmt.exprs)) (fuel : Nat) :
    Counts (forStatement inner fuel) (CountsAll Stmt.exprs) := by
  refine .skip (.expect _ _) fun _ => .bind (forInitial_counts fuel) fun initial =>
    .bind (expressionUnless_counts _ fuel) fun condition => .skip (.expect _ _) fun _ =>
      .bind (expressionUnless_counts _ fuel) fun step => .skip (.expect _ _) fun _ =>
        .bind h fun body => ?_
  cases condition with
  | some condition =>
    refine .pure ?_
    intro i j hbody k hstep m hcondition n hinitial
    have hall := hinitial.append (hcondition.append (hstep.append hbody))
    exact hall.perm (forLoop_perm initial condition step body)
  | none =>
    refine .node fun condition => .pure ?_
    rintro i' i ⟨rfl, rfl⟩ j hbody k hstep m hcondition n hinitial
    have hlast : Spread i (i + 1) (Expr.literal i (.bool true)).nodes := (Ascends.one i).spread
    have hall := hinitial.append (hcondition.append ((hstep.append hbody).append hlast))
    have hswap : (Expr.nodesOfOption step ++ body.exprs ++ (Expr.literal i (.bool true)).nodes).Perm
        ((Expr.literal i (.bool true)).nodes ++ (Expr.nodesOfOption step ++ body.exprs)) :=
      List.perm_append_comm
    exact (hall.perm (hswap.append_left _)).perm (forLoop_perm initial _ step body)

/-- An `if` after its keyword. -/
theorem ifStatement_counts (h : Counts inner (CountsAll Stmt.exprs)) (fuel : Nat) :
    Counts (ifStatement inner fuel) (CountsAll Stmt.exprs) := by
  refine .skip (.expect _ _) fun _ => .bind (expression_countsAll fuel) fun condition =>
    .skip (.expect _ _) fun _ => .bind h fun yes => .choose (.accept _)
      (fun _ => .bind h fun no => .pure ?both) (.pure ?one)
  case both => exact fun j k hno m hyes n hcondition => (hcondition.append hyes).append hno
  case one => exact fun k m hyes n hcondition => hcondition.append hyes

/-- A `while` after its keyword. -/
theorem whileStatement_counts (h : Counts inner (CountsAll Stmt.exprs)) (fuel : Nat) :
    Counts (whileStatement inner fuel) (CountsAll Stmt.exprs) :=
  .skip (.expect _ _) fun _ => .bind (expression_countsAll fuel) fun _ => .skip (.expect _ _)
    fun _ => .bind h fun _ => .pure fun _ _ hbody _ hcondition => hcondition.append hbody

/-- A `print` after its keyword. -/
theorem printStatement_counts (fuel : Nat) : Counts (printStatement fuel) (CountsAll Stmt.exprs) :=
  .bind (expression_countsAll fuel) fun _ => .skip (.expect _ _) fun _ => .pure fun _ _ hvalue =>
    hvalue

/-- A `return` after its keyword. -/
theorem returnStatement_counts (keyword : Token) (fuel : Nat) :
    Counts (returnStatement keyword fuel) (CountsAll Stmt.exprs) :=
  .bind (expressionUnless_counts _ fuel) fun _ => .skip (.expect _ _) fun _ =>
    .pure fun _ _ hvalue => hvalue

/-- A statement, from readers of the declarations and statements inside it. -/
theorem statementRule_counts (hd : Counts declared (CountsAll exprsOfFound))
    (hs : Counts inner (CountsAll Stmt.exprs)) (fuel : Nat) :
    Counts (statementRule declared inner fuel) (CountsAll Stmt.exprs) :=
  .choose (.accept _) (fun _ => forStatement_counts hs fuel)
    (.choose (.accept _) (fun _ => ifStatement_counts hs fuel)
    (.choose (.accept _) (fun _ => printStatement_counts fuel)
    (.choose (.accept _) (fun keyword => returnStatement_counts keyword fuel)
    (.choose (.accept _) (fun _ => whileStatement_counts hs fuel)
    (.choose (.accept _) (fun _ => .bind (block_counts hd fuel) fun _ => .pure fun _ _ hbody =>
      hbody)
    (expressionStatement_counts fuel))))))

/-- A declaration or statement, from readers of those inside it. -/
theorem declarationRule_counts (hd : Counts declared (CountsAll exprsOfFound))
    (hs : Counts inner (CountsAll Stmt.exprs)) (fuel : Nat) :
    Counts (declarationRule declared inner fuel) (CountsAll Stmt.exprs) :=
  .choose (.accept _) (fun _ => classDeclaration_counts hd fuel)
    (.choose (.accept _) (fun _ => .bind (routine_counts .function hd fuel) fun _ =>
      .pure fun _ _ hr => hr)
    (.choose (.accept _) (fun _ => varDeclaration_counts fuel)
    (statementRule_counts hd hs fuel)))

/-- Declarations and statements. -/
theorem declaration_statement_count (fuel : Nat) :
    Counts (declaration fuel) (CountsAll exprsOfFound) ∧
      Counts (statement fuel) (CountsAll Stmt.exprs) := by
  induction fuel with
  | zero =>
    rw [declaration, statement]
    exact ⟨.halt, .halt⟩
  | succ fuel ih =>
    rw [declaration, statement]
    exact ⟨recovering_counts (declarationRule_counts ih.1 ih.2 (fuel + 1)),
      statementRule_counts ih.1 ih.2 (fuel + 1)⟩

/-- A program. -/
theorem program_counts (fuel : Nat) : Counts (program fuel) (CountsAll Stmt.exprsOfAll) := by
  have hfrom : ∀ steps, Counts (programFrom (declaration fuel) steps)
      (CountsAll Stmt.exprsOfAll) := by
    intro steps
    induction steps with
    | zero => exact .halt
    | succ steps ih =>
      refine .skip (fun _ => rfl) fun ends => ?_
      split
      · exact .pure fun n => .none (Nat.le_refl n)
      · refine .bind (declaration_statement_count fuel).1 fun first => .bind ih fun others =>
          .pure ?_
        intro k m hothers n hfirst
        change Spread n k (Stmt.exprsOfAll (first.toList ++ others))
        rw [exprsOfFound_append]
        exact hfirst.append hothers
  exact hfrom fuel

/-- Whatever the tokens are, the expressions of the statements that could be read have
different numbers among those that were handed out, and are numbered behind their parts. -/
theorem parse_spread (tokens : List Token) (n : Nat) :
    Spread n (parse tokens n).nextId (Stmt.exprsOfAll (parse tokens n).program) := by
  have hcounts := program_counts ((Cursor.start tokens n).rest.length + 1) (Cursor.start tokens n)
  unfold parse
  dsimp only
  revert hcounts
  cases program ((Cursor.start tokens n).rest.length + 1) (Cursor.start tokens n) with
  | ok p after => exact fun hcounts => hcounts.2
  | error halt after => exact fun hle => .none hle

end Scriptlet.Grammar
