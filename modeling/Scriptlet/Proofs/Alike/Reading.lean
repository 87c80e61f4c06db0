import Scriptlet.Grammar.Stmt
import Scriptlet.Proofs.Alike.Trees

/-!
# Reading tokens that are alike

Readers never look at the line of a token, and of the next free number they only
hand it out. So from cursors that are alike a reader comes to cursors that are
alike, with values that are alike or with violations that are alike, and it runs
dry on both sides or on neither. There is one rule for each primitive and for one
reader after another, and then one lemma for each reader of the grammar.
-/

namespace Scriptlet

/-- Violations alike. -/
structure SyntaxError.Alike (K : Likeness) (e e' : SyntaxError) : Prop where
  place : e.place.Alike K e'.place
  fault : e.fault = e'.fault

namespace Grammar

variable {α β : Type} {K : Likeness}

/-- Cursors alike: the numbers still to be handed out correspond as well. -/
structure Cursor.Alike (K : Likeness) (c c' : Cursor) : Prop where
  rest : Token.AllAlike K c.rest c'.rest
  stop : c.stop.Alike K c'.stop
  errors : List.Forall₂ (SyntaxError.Alike K) c.errors c'.errors
  numbers : ∀ j, K.numbers (c.nextId + j) (c'.nextId + j)

/-- Results alike, with values in a relation. -/
inductive ResultAlike (K : Likeness) (R : α → α → Prop) :
    EStateM.Result Halt Cursor α → EStateM.Result Halt Cursor α → Prop where
  | ok {v v' : α} {c c' : Cursor} (value : R v v') (cursor : c.Alike K c') :
    ResultAlike K R (.ok v c) (.ok v' c')
  | failed {e e' : SyntaxError} {c c' : Cursor} (error : e.Alike K e') (cursor : c.Alike K c') :
    ResultAlike K R (.error (.failed e) c) (.error (.failed e') c')
  | exhausted {c c' : Cursor} (cursor : c.Alike K c') :
    ResultAlike K R (.error .exhausted c) (.error .exhausted c')

/-- From cursors alike two readers come to results alike. -/
def Mirrors (K : Likeness) (R : α → α → Prop) (reader reader' : Reader α) : Prop :=
  ∀ c c', c.Alike K c' → ResultAlike K R (reader c) (reader' c')

namespace Cursor.Alike

variable {c c' : Cursor}

/-- The tokens at cursors alike. -/
theorem here (h : c.Alike K c') : c.here.Alike K c'.here := by
  obtain ⟨rest, stop, nextId, errors⟩ := c
  obtain ⟨rest', stop', nextId', errors'⟩ := c'
  have hrest := h.rest
  have hstop := h.stop
  dsimp only at hrest hstop
  cases hrest with
  | nil => exact hstop
  | cons first others => exact first

/-- Noting violations alike. -/
theorem note {e e' : SyntaxError} (h : c.Alike K c') (he : e.Alike K e') :
    (c.note e).Alike K (c'.note e') where
  rest := h.rest
  stop := h.stop
  errors := List.rel_append h.errors (.cons he .nil)
  numbers := h.numbers

/-- Skipping tokens stops at the same place. -/
theorem skipAfter {t t' : Token} {ts ts' : List Token} (ht : t.Alike K t')
    (h : Token.AllAlike K ts ts') : Token.AllAlike K (skipAfter t ts) (skipAfter t' ts') := by
  induction h generalizing t t' with
  | nil => exact .nil
  | cons first others ih =>
    unfold Grammar.skipAfter
    rw [ht.kind, first.kind]
    split
    · exact .cons first others
    · exact ih first

/-- Recovery goes on at the same place. -/
theorem recover (h : c.Alike K c') : c.recover.Alike K c'.recover := by
  obtain ⟨rest, stop, nextId, errors⟩ := c
  obtain ⟨rest', stop', nextId', errors'⟩ := c'
  have hrest := h.rest
  dsimp only at hrest
  refine ⟨?_, h.stop, h.errors, h.numbers⟩
  cases hrest with
  | nil => exact .nil
  | cons first others => exact skipAfter first others

end Cursor.Alike

namespace Mirrors

variable {R : α → α → Prop} {S : β → β → Prop} {first first' : Reader β}
  {next next' : β → Reader α}

/-- Values given without reading. -/
theorem pure {v v' : α} (h : R v v') : Mirrors K R (Pure.pure v : Reader α) (Pure.pure v') :=
  fun _ _ hc => .ok h hc

/-- One reader after another. -/
theorem bind (h : Mirrors K S first first')
    (hnext : ∀ b b', S b b' → Mirrors K R (next b) (next' b')) :
    Mirrors K R (first >>= next) (first' >>= next') := by
  intro c c' hc
  change ResultAlike K R (EStateM.bind first next c) (EStateM.bind first' next' c')
  unfold EStateM.bind
  have hfirst := h c c' hc
  generalize first c = result at hfirst ⊢
  generalize first' c' = result' at hfirst ⊢
  cases hfirst with
  | ok value cursor => exact hnext _ _ value _ _ cursor
  | failed error cursor => exact .failed error cursor
  | exhausted cursor => exact .exhausted cursor

/-- Giving up for lack of fuel. -/
theorem exhausted : Mirrors K R (exhausted : Reader α) exhausted := fun _ _ hc => .exhausted hc

/-- Giving up because a required part is missing. -/
theorem missing (what : Expectation) : Mirrors K R (missing what : Reader α) (missing what) :=
  fun _ _ hc => .failed ⟨hc.here, rfl⟩ hc

/-- Noting a violation at the next token. -/
theorem noteHere (fault : SyntaxFault) : Mirrors K Eq (noteHere fault) (noteHere fault) :=
  fun _ _ hc => .ok rfl (hc.note ⟨hc.here, rfl⟩)

/-- Noting a violation at an earlier token. -/
theorem noteAt {place place' : Token} (h : place.Alike K place') (fault : SyntaxFault) :
    Mirrors K Eq (noteAt place fault) (noteAt place' fault) :=
  fun _ _ hc => .ok rfl (hc.note ⟨h, rfl⟩)

/-- Reading the next token if a function has a value for it. -/
theorem acceptMap {f : Token → Option β}
    (h : ∀ t t' : Token, t.Alike K t' → Option.Rel S (f t) (f t')) :
    Mirrors K (Option.Rel S) (acceptMap? f) (acceptMap? f) := by
  rintro ⟨rest, stop, nextId, errors⟩ ⟨rest', stop', nextId', errors'⟩ hc
  have hrest := hc.rest
  dsimp only at hrest
  unfold acceptMap?
  cases hrest with
  | nil => exact .ok .none hc
  | @cons t t' ts ts' ht others =>
    dsimp only
    cases hf : f t with
    | none =>
      have hf' := h t t' ht
      rw [hf] at hf'
      revert hf'
      cases f t' with
      | none => exact fun _ => .ok .none hc
      | some b => exact fun hf' => by cases hf'
    | some b =>
      have hf' := h t t' ht
      rw [hf] at hf'
      revert hf'
      cases f t' with
      | none => exact fun hf' => by cases hf'
      | some b' => exact fun hf' => .ok hf' ⟨others, hc.stop, hc.errors, hc.numbers⟩

/-- Reading the next token if it is of one of several kinds. -/
theorem acceptAny (kinds : List Kind) :
    Mirrors K (Option.Rel (Token.Alike K)) (acceptAny? kinds) (acceptAny? kinds) := by
  refine acceptMap fun t t' ht => ?_
  rw [ht.kind]
  split
  · exact .some ht
  · exact .none

/-- Reading the next token if it is of a kind. -/
theorem accept (kind : Kind) :
    Mirrors K (Option.Rel (Token.Alike K)) (accept? kind) (accept? kind) :=
  acceptAny [kind]

/-- Looking at the next token. -/
theorem nextIs (kind : Kind) : Mirrors K Eq (nextIs kind) (nextIs kind) := by
  rintro ⟨rest, stop, nextId, errors⟩ ⟨rest', stop', nextId', errors'⟩ hc
  have hrest := hc.rest
  dsimp only at hrest
  unfold Grammar.nextIs
  cases hrest with
  | nil => exact .ok rfl hc
  | cons ht others => exact .ok (by rw [ht.kind]) hc

/-- Looking whether tokens are left. -/
theorem atEnd : Mirrors K Eq atEnd atEnd := by
  rintro ⟨rest, stop, nextId, errors⟩ ⟨rest', stop', nextId', errors'⟩ hc
  have hrest := hc.rest
  dsimp only at hrest
  unfold Grammar.atEnd
  cases hrest with
  | nil => exact .ok rfl hc
  | cons ht others => exact .ok rfl hc

/-- Completing an expression. -/
theorem node {R : Expr → Expr → Prop} {make make' : Nat → Expr}
    (h : ∀ i i', K.numbers i i' → R (make i) (make' i')) :
    Mirrors K R (node make) (node make') := by
  intro c c' hc
  refine .ok (h _ _ (hc.numbers 0)) ⟨hc.rest, hc.stop, hc.errors, fun j => ?_⟩
  have hj := hc.numbers (1 + j)
  rwa [← Nat.add_assoc, ← Nat.add_assoc] at hj

/-- Skipping a statement that cannot be read. -/
theorem recovering {reader reader' : Reader Stmt} (h : Mirrors K (Stmt.Alike K) reader reader') :
    Mirrors K (Option.Rel (Stmt.Alike K)) (recovering reader) (recovering reader') := by
  intro c c' hc
  unfold Grammar.recovering
  have hreader := h c c' hc
  generalize reader c = result at hreader ⊢
  generalize reader' c' = result' at hreader ⊢
  cases hreader with
  | ok value cursor => exact .ok (.some value) cursor
  | failed error cursor => exact .ok .none (cursor.note error).recover
  | exhausted cursor => exact .exhausted cursor

/-- The images of values. -/
theorem map {f : β → α} (h : Mirrors K S first first') (hf : ∀ b b', S b b' → R (f b) (f b')) :
    Mirrors K R (f <$> first) (f <$> first') := by
  rw [map_eq_pure_bind, map_eq_pure_bind]
  exact h.bind fun b b' hb => pure (hf b b' hb)

/-- A token that may be read, and what follows it in either case. -/
theorem choose {first first' : Reader (Option β)} {next next' : Option β → Reader α}
    (h : Mirrors K (Option.Rel S) first first')
    (hsome : ∀ b b', S b b' → Mirrors K R (next (some b)) (next' (some b')))
    (hnone : Mirrors K R (next none) (next' none)) :
    Mirrors K R (first >>= next) (first' >>= next') := by
  refine h.bind fun b b' hb => ?_
  cases hb with
  | some hb => exact hsome _ _ hb
  | none => exact hnone

/-- What is decided by looking, and what follows. -/
theorem decided {first first' : Reader Bool} {next next' : Bool → Reader α}
    (h : Mirrors K Eq first first') (hnext : ∀ b, Mirrors K R (next b) (next' b)) :
    Mirrors K R (first >>= next) (first' >>= next') := by
  refine h.bind fun b b' hb => ?_
  cases hb
  exact hnext b

/-- Noting a violation, and what follows. -/
theorem noted {first first' : Reader Unit} {next next' : Unit → Reader α}
    (h : Mirrors K Eq first first') (hnext : Mirrors K R (next ()) (next' ())) :
    Mirrors K R (first >>= next) (first' >>= next') :=
  h.bind fun _ _ _ => hnext

/-- What follows a violation that is noted on some condition. -/
theorem noteIf {c : Prop} [Decidable c] {fault : SyntaxFault} {next next' : Reader α}
    (h : Mirrors K R next next') :
    Mirrors K R (if c then Grammar.noteHere fault >>= fun _ => next else next)
      (if c then Grammar.noteHere fault >>= fun _ => next' else next') := by
  split
  · exact noted (noteHere fault) h
  · exact h

/-- Reading a required token. -/
theorem expect (kind : Kind) (what : Expectation) :
    Mirrors K (Token.Alike K) (expect kind what) (expect kind what) :=
  choose (accept kind) (fun _ _ ht => pure ht) (missing what)

end Mirrors

variable {nested nested' : Reader Expr} {declared declared' : Reader (Option Stmt)}
  {inner inner' : Reader Stmt}

/-- Constants do not depend on lines. -/
theorem constant?_alike {t t' : Token} (h : t.Alike K t') : constant? t = constant? t' := by
  unfold constant?
  rw [h.kind, h.literal]

/-- A constant, a name, the receiver or an expression in parentheses. -/
theorem primary_alike (h : Mirrors K (Expr.Alike K) nested nested') :
    Mirrors K (Expr.Alike K) (primary nested) (primary nested') := by
  have hconstant : Mirrors K (Option.Rel Eq) (acceptMap? constant?) (acceptMap? constant?) := by
    refine .acceptMap fun t t' ht => ?_
    rw [constant?_alike ht]
    cases constant? t' with
    | none => exact .none
    | some value => exact .some rfl
  refine .choose hconstant ?_ (.choose (.accept _)
    (fun _ _ hkeyword => .node fun _ _ hi => .receiver hi hkeyword) (.choose (.accept _)
    (fun _ _ hname => .node fun _ _ hi => .var hi hname) (.choose (.accept _)
    (fun _ _ _ => .bind h fun _ _ hinner => .bind (.expect _ _) fun _ _ _ =>
      .node fun _ _ hi => .group hi hinner)
    (.missing _))))
  rintro value _ rfl
  exact .node fun _ _ hi => .literal value hi

/-- Arguments separated by commas. -/
theorem arguments_alike (h : Mirrors K (Expr.Alike K) nested nested') (steps count : Nat) :
    Mirrors K (Expr.AllAlike K) (arguments nested steps count) (arguments nested' steps count) := by
  induction steps generalizing count with
  | zero => exact .exhausted
  | succ steps ih =>
    rw [arguments, arguments]
    exact .noteIf (.bind h fun _ _ hfirst => .choose (.accept _)
      (fun _ _ _ => .bind (ih (count + 1)) fun _ _ hothers => .pure (.cons hfirst hothers))
      (.pure (.cons hfirst .nil)))

/-- Calls and properties behind an operand. -/
theorem postfixes_alike (h : Mirrors K (Expr.Alike K) nested nested') (steps : Nat)
    {operand operand' : Expr} (ho : operand.Alike K operand') :
    Mirrors K (Expr.Alike K) (postfixes nested steps operand)
      (postfixes nested' steps operand') := by
  induction steps generalizing operand operand' with
  | zero => exact .exhausted
  | succ steps ih =>
    have hgiven : Mirrors K (Expr.AllAlike K) (callArguments nested (steps + 1))
        (callArguments nested' (steps + 1)) := by
      refine .decided (.nextIs _) fun closes => ?_
      cases closes with
      | true => exact .pure .nil
      | false => exact arguments_alike h _ _
    refine .choose (.accept _) (fun _ _ _ => .bind hgiven fun _ _ hall => .bind (.expect _ _)
      fun _ _ hparen => .bind (.node ?call) fun _ _ hcall => ih hcall)
      (.choose (.accept _) (fun _ _ _ => .bind (.expect _ _) fun _ _ hname => .bind (.node ?get)
        fun _ _ hget => ih hget) (.pure ho))
    case call => exact fun _ _ hi => .call hi ho hparen hall
    case get => exact fun _ _ hi => .get hi ho hname

/-- An operand with its calls and properties. -/
theorem call_alike (h : Mirrors K (Expr.Alike K) nested nested') (fuel : Nat) :
    Mirrors K (Expr.Alike K) (call nested fuel) (call nested' fuel) :=
  .bind (primary_alike h) fun _ _ ho => postfixes_alike h _ ho

/-- Signs before an operand. -/
theorem signed_alike {operand operand' : Reader Expr}
    (h : Mirrors K (Expr.Alike K) operand operand') (steps : Nat) :
    Mirrors K (Expr.Alike K) (signed operand steps) (signed operand' steps) := by
  induction steps with
  | zero => exact .exhausted
  | succ steps ih =>
    exact .choose (.acceptAny _) (fun _ _ hoperator => .bind ih fun _ _ hinner =>
      .node fun _ _ hi => .unary hi hoperator hinner) h

/-- Operands joined by operators of one level. -/
theorem chain_alike {make : Nat → Expr → Token → Expr → Expr}
    (hmake : ∀ i i' a a' (t t' : Token) b b', K.numbers i i' → a.Alike K a' → t.Alike K t' →
      b.Alike K b' → (make i a t b).Alike K (make i' a' t' b')) (operators : List Kind)
    {operand operand' : Reader Expr} (h : Mirrors K (Expr.Alike K) operand operand') (fuel : Nat) :
    Mirrors K (Expr.Alike K) (chain make operators operand fuel)
      (chain make operators operand' fuel) := by
  have hfrom : ∀ steps left left', left.Alike K left' → Mirrors K (Expr.Alike K)
      (chainFrom make operators operand steps left)
      (chainFrom make operators operand' steps left') := by
    intro steps
    induction steps with
    | zero => exact fun _ _ _ => .exhausted
    | succ steps ih =>
      intro left left' hleft
      refine .choose (.acceptAny _) (fun _ _ hoperator => .bind h fun _ _ hright =>
        .bind (.node ?join) fun _ _ hjoined => ih _ _ hjoined) (.pure hleft)
      case join => exact fun _ _ hi => hmake _ _ _ _ _ _ _ _ hi hleft hoperator hright
  exact .bind h fun _ _ hleft => hfrom fuel _ _ hleft

/-- All levels of operators. -/
theorem disjunction_alike (h : Mirrors K (Expr.Alike K) nested nested') (fuel : Nat) :
    Mirrors K (Expr.Alike K) (disjunction nested fuel) (disjunction nested' fuel) := by
  have hbinary : ∀ i i' a a' (t t' : Token) b b', K.numbers i i' → Expr.Alike K a a' →
      t.Alike K t' → Expr.Alike K b b' → (Expr.binary i a t b).Alike K (.binary i' a' t' b') :=
    fun _ _ _ _ _ _ _ _ hi ha ht hb => .binary hi ha ht hb
  have hlogical : ∀ i i' a a' (t t' : Token) b b', K.numbers i i' → Expr.Alike K a a' →
      t.Alike K t' → Expr.Alike K b b' → (Expr.logical i a t b).Alike K (.logical i' a' t' b') :=
    fun _ _ _ _ _ _ _ _ hi ha ht hb => .logical hi ha ht hb
  have hsigned := signed_alike (call_alike h fuel) fuel
  have hfactor := chain_alike hbinary [.star, .slash] hsigned fuel
  have hterm := chain_alike hbinary [.minus, .plus] hfactor fuel
  have hcomparison := chain_alike hbinary [.greater, .greaterEqual, .less, .lessEqual] hterm fuel
  have hequality := chain_alike hbinary [.bangEqual, .equalEqual] hcomparison fuel
  have hconjunction := chain_alike hlogical [.kwAnd] hequality fuel
  exact chain_alike hlogical [.kwOr] hconjunction fuel

/-- An assignment, or what stands without one: targets alike have the same form. -/
theorem assignment_alike (h : Mirrors K (Expr.Alike K) nested nested') (fuel : Nat) :
    Mirrors K (Expr.Alike K) (assignment nested fuel) (assignment nested' fuel) := by
  refine .bind (disjunction_alike h fuel) fun target target' htarget => .choose (.accept _)
    (fun sign sign' hsign => .bind h fun value value' hvalue => ?_) (.pure htarget)
  cases htarget with
  | var number name => exact .node fun _ _ hi => .assign hi name hvalue
  | get number object name => exact .node fun _ _ hi => .set hi object name hvalue
  | literal value number => exact .noted (.noteAt hsign _) (.pure (.literal value number))
  | unary number operator operand =>
    exact .noted (.noteAt hsign _) (.pure (.unary number operator operand))
  | binary number left operator right =>
    exact .noted (.noteAt hsign _) (.pure (.binary number left operator right))
  | logical number left operator right =>
    exact .noted (.noteAt hsign _) (.pure (.logical number left operator right))
  | group number inner => exact .noted (.noteAt hsign _) (.pure (.group number inner))
  | receiver number keyword => exact .noted (.noteAt hsign _) (.pure (.receiver number keyword))
  | assign number name inner => exact .noted (.noteAt hsign _) (.pure (.assign number name inner))
  | call number callee paren arguments =>
    exact .noted (.noteAt hsign _) (.pure (.call number callee paren arguments))
  | set number object name inner =>
    exact .noted (.noteAt hsign _) (.pure (.set number object name inner))

/-- An expression. -/
theorem expression_alike (fuel : Nat) :
    Mirrors K (Expr.Alike K) (expression fuel) (expression fuel) := by
  induction fuel with
  | zero => exact .exhausted
  | succ fuel ih => exact assignment_alike ih (fuel + 1)

/-- Statements that may have been skipped, before others. -/
theorem foundAlike_append {found found' : Option Stmt} {others others' : List Stmt}
    (h : Option.Rel (Stmt.Alike K) found found') (hothers : Stmt.AllAlike K others others') :
    Stmt.AllAlike K (found.toList ++ others) (found'.toList ++ others') := by
  cases h with
  | none => exact hothers
  | some hs => exact .cons hs hothers

/-- Declarations up to a closing brace or the end. -/
theorem declarations_alike (h : Mirrors K (Option.Rel (Stmt.Alike K)) declared declared')
    (steps : Nat) :
    Mirrors K (Stmt.AllAlike K) (declarations declared steps) (declarations declared' steps) := by
  induction steps with
  | zero => exact .exhausted
  | succ steps ih =>
    refine .decided (.nextIs _) fun closes => .decided .atEnd fun ends => ?_
    split
    · exact .pure .nil
    · exact .bind h fun _ _ hfirst => .bind ih fun _ _ hothers =>
        .pure (foundAlike_append hfirst hothers)

/-- The body of a block after its opening brace. -/
theorem block_alike (h : Mirrors K (Option.Rel (Stmt.Alike K)) declared declared') (fuel : Nat) :
    Mirrors K (Stmt.AllAlike K) (block declared fuel) (block declared' fuel) :=
  .bind (declarations_alike h fuel) fun _ _ hbody => .bind (.expect _ _) fun _ _ _ => .pure hbody

/-- Parameters separated by commas. -/
theorem parameters_alike (steps count : Nat) :
    Mirrors K (Token.AllAlike K) (parameters steps count) (parameters steps count) := by
  induction steps generalizing count with
  | zero => exact .exhausted
  | succ steps ih =>
    rw [parameters]
    exact .noteIf (.bind (.expect _ _) fun _ _ hfirst => .choose (.accept _)
      (fun _ _ _ => .bind (ih (count + 1)) fun _ _ hothers => .pure (.cons hfirst hothers))
      (.pure (.cons hfirst .nil)))

/-- A function or method from its name on. -/
theorem routine_alike (kind : RoutineKind)
    (h : Mirrors K (Option.Rel (Stmt.Alike K)) declared declared') (fuel : Nat) :
    Mirrors K (Routine.Alike K) (routine kind declared fuel) (routine kind declared' fuel) := by
  have hbody : ∀ {name name' : Token} {names names'}, name.Alike K name' →
      Token.AllAlike K names names' → Mirrors K (Routine.Alike K)
        (do
          let _ ← Grammar.expect .rightParen .parametersClose
          let _ ← Grammar.expect .leftBrace (.bodyOpen kind)
          let body ← block declared fuel
          return Routine.mk name names body)
        (do
          let _ ← Grammar.expect .rightParen .parametersClose
          let _ ← Grammar.expect .leftBrace (.bodyOpen kind)
          let body ← block declared' fuel
          return Routine.mk name' names' body) :=
    fun hname hnames => .bind (.expect _ _) fun _ _ _ => .bind (.expect _ _) fun _ _ _ =>
      .bind (block_alike h fuel) fun _ _ hbody => .pure (.mk hname hnames hbody)
  refine .bind (.expect _ _) fun _ _ hname => .bind (.expect _ _) fun _ _ _ =>
    .decided (.nextIs _) fun closes => ?_
  cases closes with
  | true => exact hbody hname .nil
  | false => exact .bind (parameters_alike _ _) fun _ _ hnames => hbody hname hnames

/-- Methods up to a closing brace or the end. -/
theorem methods_alike {method method' : Reader Routine}
    (h : Mirrors K (Routine.Alike K) method method') (steps : Nat) :
    Mirrors K (Routine.AllAlike K) (methods method steps) (methods method' steps) := by
  induction steps with
  | zero => exact .exhausted
  | succ steps ih =>
    refine .decided (.nextIs _) fun closes => .decided .atEnd fun ends => ?_
    split
    · exact .pure .nil
    · exact .bind h fun _ _ hfirst => .bind ih fun _ _ hothers => .pure (.cons hfirst hothers)

/-- A class after its keyword. -/
theorem classDeclaration_alike (h : Mirrors K (Option.Rel (Stmt.Alike K)) declared declared')
    (fuel : Nat) :
    Mirrors K (Stmt.Alike K) (classDeclaration declared fuel) (classDeclaration declared' fuel) :=
  .bind (.expect _ _) fun _ _ hname => .bind (.expect _ _) fun _ _ _ =>
    .bind (methods_alike (routine_alike .method h fuel) fuel) fun _ _ hmembers =>
      .bind (.expect _ _) fun _ _ _ => .pure (.classDecl hname hmembers)

/-- A variable after its keyword. -/
theorem varDeclaration_alike (fuel : Nat) :
    Mirrors K (Stmt.Alike K) (varDeclaration fuel) (varDeclaration fuel) :=
  .bind (.expect _ _) fun _ _ hname => .choose (.accept _)
    (fun _ _ _ => .bind (.map (expression_alike fuel) fun _ _ => .some) fun _ _ hinitial =>
      .bind (.expect _ _) fun _ _ _ => .pure (.var hname hinitial))
    (.bind (.pure .none) fun _ _ hinitial => .bind (.expect _ _) fun _ _ _ =>
      .pure (.var hname hinitial))

/-- An expression with its semicolon. -/
theorem expressionStatement_alike (fuel : Nat) :
    Mirrors K (Stmt.Alike K) (expressionStatement fuel) (expressionStatement fuel) :=
  .bind (expression_alike fuel) fun _ _ hvalue => .bind (.expect _ _) fun _ _ _ =>
    .pure (.expr hvalue)

/-- An expression that may be absent. -/
theorem expressionUnless_alike (kind : Kind) (fuel : Nat) :
    Mirrors K (Option.Rel (Expr.Alike K)) (expressionUnless kind fuel)
      (expressionUnless kind fuel) := by
  refine .decided (.nextIs _) fun stops => ?_
  cases stops with
  | true => exact .pure .none
  | false => exact .map (expression_alike fuel) fun _ _ => .some

/-- The first clause of a `for`. -/
theorem forInitial_alike (fuel : Nat) :
    Mirrors K (Option.Rel (Stmt.Alike K)) (forInitial fuel) (forInitial fuel) :=
  .choose (.accept _) (fun _ _ _ => .pure .none)
    (.choose (.accept _)
      (fun _ _ _ => .bind (varDeclaration_alike fuel) fun _ _ hs => .pure (.some hs))
    (.bind (expressionStatement_alike fuel) fun _ _ hs => .pure (.some hs)))

/-- The loop that a `for` stands for. -/
theorem forLoop_alike {initial initial' : Option Stmt} {condition condition' : Expr}
    {step step' : Option Expr} {body body' : Stmt}
    (hinitial : Option.Rel (Stmt.Alike K) initial initial')
    (hcondition : condition.Alike K condition')
    (hstep : Option.Rel (Expr.Alike K) step step') (hbody : body.Alike K body') :
    (forLoop initial condition step body).Alike K (forLoop initial' condition' step' body') := by
  have hloop : (forLoop none condition step body).Alike K
      (forLoop none condition' step' body') := by
    cases hstep with
    | none => exact .loop hcondition hbody
    | some hstep => exact .loop hcondition (.block (.cons hbody (.cons (.expr hstep) .nil)))
  cases hinitial with
  | none => exact hloop
  | some hinitial => exact .block (.cons hinitial (.cons hloop .nil))

/-- A `for` after its keyword. -/
theorem forStatement_alike (h : Mirrors K (Stmt.Alike K) inner inner') (fuel : Nat) :
    Mirrors K (Stmt.Alike K) (forStatement inner fuel) (forStatement inner' fuel) := by
  refine .bind (.expect _ _) fun _ _ _ => .bind (forInitial_alike fuel) fun _ _ hinitial =>
    .bind (expressionUnless_alike _ fuel) fun _ _ hcondition => .bind (.expect _ _) fun _ _ _ =>
      .bind (expressionUnless_alike _ fuel) fun _ _ hstep => .bind (.expect _ _) fun _ _ _ =>
        .bind h fun _ _ hbody => ?_
  cases hcondition with
  | some hcondition => exact .pure (forLoop_alike hinitial hcondition hstep hbody)
  | none =>
    exact .bind (.node fun _ _ hi => .literal (.bool true) hi) fun _ _ hcondition =>
      .pure (forLoop_alike hinitial hcondition hstep hbody)

/-- An `if` after its keyword. -/
theorem ifStatement_alike (h : Mirrors K (Stmt.Alike K) inner inner') (fuel : Nat) :
    Mirrors K (Stmt.Alike K) (ifStatement inner fuel) (ifStatement inner' fuel) :=
  .bind (.expect _ _) fun _ _ _ => .bind (expression_alike fuel) fun _ _ hcondition =>
    .bind (.expect _ _) fun _ _ _ => .bind h fun _ _ hyes => .choose (.accept _)
      (fun _ _ _ => .bind h fun _ _ hno => .pure (.ifElse hcondition hyes hno))
      (.pure (.ifThen hcondition hyes))

/-- A `while` after its keyword. -/
theorem whileStatement_alike (h : Mirrors K (Stmt.Alike K) inner inner') (fuel : Nat) :
    Mirrors K (Stmt.Alike K) (whileStatement inner fuel) (whileStatement inner' fuel) :=
  .bind (.expect _ _) fun _ _ _ => .bind (expression_alike fuel) fun _ _ hcondition =>
    .bind (.expect _ _) fun _ _ _ => .bind h fun _ _ hbody => .pure (.loop hcondition hbody)

/-- A `print` after its keyword. -/
theorem printStatement_alike (fuel : Nat) :
    Mirrors K (Stmt.Alike K) (printStatement fuel) (printStatement fuel) :=
  .bind (expression_alike fuel) fun _ _ hvalue => .bind (.expect _ _) fun _ _ _ =>
    .pure (.print hvalue)

/-- A `return` after its keyword. -/
theorem returnStatement_alike {keyword keyword' : Token} (h : keyword.Alike K keyword')
    (fuel : Nat) :
    Mirrors K (Stmt.Alike K) (returnStatement keyword fuel) (returnStatement keyword' fuel) :=
  .bind (expressionUnless_alike _ fuel) fun _ _ hvalue => .bind (.expect _ _) fun _ _ _ =>
    .pure (.ret h hvalue)

/-- A statement, from readers of the declarations and statements inside it. -/
theorem statementRule_alike (hd : Mirrors K (Option.Rel (Stmt.Alike K)) declared declared')
    (hs : Mirrors K (Stmt.Alike K) inner inner') (fuel : Nat) :
    Mirrors K (Stmt.Alike K) (statementRule declared inner fuel)
      (statementRule declared' inner' fuel) :=
  .choose (.accept _) (fun _ _ _ => forStatement_alike hs fuel)
    (.choose (.accept _) (fun _ _ _ => ifStatement_alike hs fuel)
    (.choose (.accept _) (fun _ _ _ => printStatement_alike fuel)
    (.choose (.accept _) (fun _ _ hkeyword => returnStatement_alike hkeyword fuel)
    (.choose (.accept _) (fun _ _ _ => whileStatement_alike hs fuel)
    (.choose (.accept _) (fun _ _ _ => .bind (block_alike hd fuel) fun _ _ hbody =>
      .pure (.block hbody))
    (expressionStatement_alike fuel))))))

/-- A declaration or statement, from readers of those inside it. -/
theorem declarationRule_alike (hd : Mirrors K (Option.Rel (Stmt.Alike K)) declared declared')
    (hs : Mirrors K (Stmt.Alike K) inner inner') (fuel : Nat) :
    Mirrors K (Stmt.Alike K) (declarationRule declared inner fuel)
      (declarationRule declared' inner' fuel) :=
  .choose (.accept _) (fun _ _ _ => classDeclaration_alike hd fuel)
    (.choose (.accept _) (fun _ _ _ => .bind (routine_alike .function hd fuel) fun _ _ hr =>
      .pure (.function hr))
    (.choose (.accept _) (fun _ _ _ => varDeclaration_alike fuel)
    (statementRule_alike hd hs fuel)))

/-- Declarations and statements. -/
theorem declaration_statement_alike (fuel : Nat) :
    Mirrors K (Option.Rel (Stmt.Alike K)) (declaration fuel) (declaration fuel) ∧
      Mirrors K (Stmt.Alike K) (statement fuel) (statement fuel) := by
  induction fuel with
  | zero =>
    rw [declaration, statement]
    exact ⟨.exhausted, .exhausted⟩
  | succ fuel ih =>
    rw [declaration, statement]
    exact ⟨.recovering (declarationRule_alike ih.1 ih.2 (fuel + 1)),
      statementRule_alike ih.1 ih.2 (fuel + 1)⟩

/-- A whole program. -/
theorem program_alike (fuel : Nat) :
    Mirrors K (Stmt.AllAlike K) (program fuel) (program fuel) := by
  have hfrom : ∀ steps, Mirrors K (Stmt.AllAlike K) (programFrom (declaration fuel) steps)
      (programFrom (declaration fuel) steps) := by
    intro steps
    induction steps with
    | zero => exact .exhausted
    | succ steps ih =>
      refine .decided .atEnd fun ends => ?_
      split
      · exact .pure .nil
      · exact .bind (declaration_statement_alike fuel).1 fun _ _ hfirst => .bind ih
          fun _ _ hothers => .pure (foundAlike_append hfirst hothers)
  exact hfrom fuel

end Grammar

end Scriptlet
