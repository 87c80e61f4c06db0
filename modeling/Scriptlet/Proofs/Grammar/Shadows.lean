import Scriptlet.Proofs.Grammar.Looks
import Scriptlet.Proofs.Grammar.Strict

/-!
# Reading with recovery shadows reading without

Where reading without recovery comes to a value, so does reading with it, and with more
fuel as well; nothing was noted that gives a statement up. Where it ends at a violation,
that one stands at the next token; with recovery it is the first to reach a recovery, at
the same cursor, and the first of its kind to be noted. Again there is one rule for each
primitive and one lemma for each reader, now about two readers at once.
-/

namespace Scriptlet.Grammar

variable {α β : Type}

/-- From one cursor to another, nothing was noted that gives a statement up. -/
def Cursor.Mildly (c after : Cursor) : Prop :=
  ∃ found, after.errors = c.errors ++ found ∧ ∀ e ∈ found, e.fault.abandons = false

/-- Where nothing was noted. -/
theorem Cursor.Mildly.none {c after : Cursor} (h : after.errors = c.errors) : c.Mildly after :=
  ⟨[], by rw [h, List.append_nil], fun _ he => absurd he List.not_mem_nil⟩

/-- From one cursor to another and on to a third. -/
theorem Cursor.Mildly.trans {c middle after : Cursor} (h : c.Mildly middle)
    (h' : middle.Mildly after) : c.Mildly after := by
  obtain ⟨found, hfound, hmild⟩ := h
  obtain ⟨later, hlater, hmild'⟩ := h'
  refine ⟨found ++ later, by rw [hlater, hfound, List.append_assoc], fun e he => ?_⟩
  rcases List.mem_append.mp he with he | he
  · exact hmild e he
  · exact hmild' e he

/-- The violations that reach a recovery while a plan is read, in order, each with the
cursor at which it does. -/
def Plan.caught {α : Type} : Plan α → Cursor → List (SyntaxError × Cursor)
  | bind first next, c =>
    first.caught c ++
      match first.read c with
      | .ok b middle => (next b).caught middle
      | .error _ _ => []
  | recovering inner, c =>
    inner.caught c ++
      match inner.read c with
      | .error (.failed e) after => [(e, after)]
      | _ => []
  | _, _ => []

/-- While a reader reads from a cursor, this violation is the first to reach a recovery,
and it does so at the second cursor. -/
def FirstCaught (reader : Reader α) (c : Cursor) (e : SyntaxError) (after : Cursor) : Prop :=
  ∃ plan : Plan α, plan.read = reader ∧ (plan.caught c).head? = some (e, after)

/-- What a plan has to come to, given what another reader came to. -/
def Agrees (c : Cursor) (plan : Plan α) : EStateM.Result Halt Cursor α → Prop
  | .ok v after => plan.read c = .ok v after ∧ plan.caught c = [] ∧ c.Mildly after
  | .error (.failed e) after =>
    c.Mildly after ∧ e.place = after.here ∧ e.fault.abandons = true ∧
      (plan.read c = .error (.failed e) after ∧ plan.caught c = [] ∨
        (plan.caught c).head? = some (e, after) ∧
          after.errors ++ [e] <+: (cursorOf (plan.read c)).errors)
  | .error .exhausted _ => True

/-- The second of two readers comes to the same value, or it notes first what the first
one ends at. -/
def Shadows (reader shadow : Reader α) : Prop :=
  ∃ plan : Plan α, plan.read = shadow ∧ ∀ c, Agrees c plan (reader c)

namespace Shadows

/-- The second reader follows a plan. -/
theorem planned {reader shadow : Reader α} (h : Shadows reader shadow) : Planned shadow := by
  obtain ⟨plan, hplan, -⟩ := h
  exact ⟨plan, hplan⟩

/-- Going on keeps what was noted. -/
theorem bind_grows (first : Plan β) (next : β → Plan α) (c : Cursor) :
    (cursorOf (first.read c)).errors <+: (cursorOf ((first.bind next).read c)).errors := by
  change _ <+: (cursorOf (EStateM.bind first.read (fun b => (next b).read) c)).errors
  unfold EStateM.bind
  cases first.read c with
  | ok b middle => exact Planned.grows ⟨next b, rfl⟩ middle
  | error halt after => exact List.prefix_rfl

/-- What is caught behind a value is caught by what follows it. -/
theorem caught_of_ok {first : Plan β} {next : β → Plan α} {c middle : Cursor} {b : β}
    (hb : first.read c = .ok b middle) (hnone : first.caught c = []) :
    (first.bind next).caught c = (next b).caught middle := by
  rw [Plan.caught, hnone, hb]
  rfl

/-- One reader after another on both sides. -/
theorem bind {first first' : Reader β} {next next' : β → Reader α} (h : Shadows first first')
    (hnext : ∀ b, Shadows (next b) (next' b)) : Shadows (first >>= next) (first' >>= next') := by
  obtain ⟨plan, rfl, hplan⟩ := h
  obtain ⟨plans, hplans⟩ := Classical.axiomOfChoice hnext
  obtain rfl : (fun b => (plans b).read) = next' := funext fun b => (hplans b).1
  refine ⟨plan.bind plans, rfl, fun c => ?_⟩
  have hfirst := hplan c
  change Agrees c (plan.bind plans) (EStateM.bind first next c)
  unfold EStateM.bind
  revert hfirst
  cases first c with
  | ok b middle =>
    rintro ⟨hb, hnone, mild⟩
    have hread : (plan.bind plans).read c = (plans b).read middle := bind_of_ok hb
    have hcaught : (plan.bind plans).caught c = (plans b).caught middle := caught_of_ok hb hnone
    have hagrees := (hplans b).2 middle
    revert hagrees
    dsimp only
    unfold Agrees
    rw [hread, hcaught]
    cases next b middle with
    | ok v after => exact fun ⟨hv, hnone', mild'⟩ => ⟨hv, hnone', mild.trans mild'⟩
    | error halt after =>
      cases halt with
      | exhausted => exact id
      | failed e => exact fun ⟨mild', hfailed⟩ => ⟨mild.trans mild', hfailed⟩
  | error halt after =>
    cases halt with
    | exhausted => exact id
    | failed e =>
      rintro ⟨mild, hplace, habandons, ⟨hsame, hnone⟩ | ⟨hcaught, hnoted⟩⟩
      · refine ⟨mild, hplace, habandons, .inl ⟨bind_of_error hsame, ?_⟩⟩
        rw [Plan.caught, hnone, hsame]
        rfl
      · refine ⟨mild, hplace, habandons, .inr ⟨?_, hnoted.trans (bind_grows plan plans c)⟩⟩
        rw [Plan.caught, List.head?_append, hcaught]
        rfl

/-- A primitive that always gives a value and notes nothing that gives a statement up. -/
theorem gives (plan : Plan α) (hnone : ∀ c, plan.caught c = [])
    (h : ∀ c, ∃ v after, plan.read c = .ok v after ∧ c.Mildly after) :
    Shadows plan.read plan.read := by
  refine ⟨plan, rfl, fun c => ?_⟩
  obtain ⟨v, after, hv, mild⟩ := h c
  rw [hv]
  exact ⟨hv, hnone c, mild⟩

/-- A value given without reading. -/
theorem pure (v : α) : Shadows (Pure.pure v : Reader α) (Pure.pure v) :=
  gives (.pure v) (fun _ => rfl) fun c => ⟨v, c, rfl, .none rfl⟩

/-- Completing an expression. -/
theorem node (make : Nat → Expr) : Shadows (node make) (node make) :=
  gives (.node make) (fun _ => rfl) fun _ => ⟨_, _, rfl, .none rfl⟩

/-- Noting a violation at the next token. -/
theorem noteHere {fault : SyntaxFault} (h : fault.abandons = false) :
    Shadows (noteHere fault) (noteHere fault) :=
  gives (.noteHere fault) (fun _ => rfl) fun _ =>
    ⟨_, _, rfl, _, rfl, fun _ he => List.mem_singleton.mp he ▸ h⟩

/-- Noting a violation at an earlier token. -/
theorem noteAt (place : Token) {fault : SyntaxFault} (h : fault.abandons = false) :
    Shadows (noteAt place fault) (noteAt place fault) :=
  gives (.noteAt place fault) (fun _ => rfl) fun _ =>
    ⟨_, _, rfl, _, rfl, fun _ he => List.mem_singleton.mp he ▸ h⟩

/-- Reading the next token if a function has a value for it. -/
theorem acceptMap (f : Token → Option α) : Shadows (acceptMap? f) (acceptMap? f) := by
  refine gives (.acceptMap f) (fun _ => rfl) fun c => ?_
  unfold Plan.read acceptMap?
  split
  · exact ⟨_, _, rfl, .none rfl⟩
  · split <;> exact ⟨_, _, rfl, .none rfl⟩

/-- Reading the next token if it is of one of several kinds. -/
theorem acceptAny (kinds : List Kind) : Shadows (acceptAny? kinds) (acceptAny? kinds) :=
  acceptMap _

/-- Reading the next token if it is of a kind. -/
theorem accept (kind : Kind) : Shadows (accept? kind) (accept? kind) := acceptAny [kind]

/-- Looking at the next token. -/
theorem nextIs (kind : Kind) : Shadows (nextIs kind) (nextIs kind) :=
  gives (.nextIs kind) (fun _ => rfl) fun c => ⟨_, c, nextIs_eq kind c, .none rfl⟩

/-- Looking whether tokens are left. -/
theorem atEnd : Shadows atEnd atEnd := gives .atEnd (fun _ => rfl) fun c => ⟨_, c, rfl, .none rfl⟩

/-- Giving up because a required part is missing. -/
theorem missing (what : Expectation) : Shadows (missing what : Reader α) (missing what) :=
  ⟨.missing what, rfl, fun _ => ⟨.none rfl, rfl, rfl, .inl ⟨rfl, rfl⟩⟩⟩

/-- Running dry where the other reader may go on. -/
theorem exhausted {shadow : Reader α} (planned : Planned shadow) : Shadows exhausted shadow := by
  obtain ⟨plan, hplan⟩ := planned
  exact ⟨plan, hplan, fun _ => trivial⟩

/-- What may be read, and what follows it in either case. -/
theorem choose {first first' : Reader (Option β)} {next next' : Option β → Reader α}
    (h : Shadows first first') (hsome : ∀ b, Shadows (next (some b)) (next' (some b)))
    (hnone : Shadows (next none) (next' none)) : Shadows (first >>= next) (first' >>= next') := by
  refine h.bind fun found => ?_
  cases found with
  | none => exact hnone
  | some b => exact hsome b

/-- What is decided by looking, and what follows in either case. -/
theorem decided {first first' : Reader Bool} {next next' : Bool → Reader α}
    (h : Shadows first first') (htrue : Shadows (next true) (next' true))
    (hfalse : Shadows (next false) (next' false)) :
    Shadows (first >>= next) (first' >>= next') := by
  refine h.bind fun b => ?_
  cases b with
  | true => exact htrue
  | false => exact hfalse

/-- What follows a violation that is noted on some condition. -/
theorem noteIf {p : Prop} [Decidable p] {fault : SyntaxFault} {next next' : Reader α}
    (hfault : fault.abandons = false) (h : Shadows next next') :
    Shadows (if p then Grammar.noteHere fault >>= fun _ => next else next)
      (if p then Grammar.noteHere fault >>= fun _ => next' else next') := by
  split
  · exact (noteHere hfault).bind fun _ => h
  · exact h

/-- Reading a required token. -/
theorem expect (kind : Kind) (what : Expectation) :
    Shadows (expect kind what) (expect kind what) :=
  choose (accept kind) (fun t => pure t) (missing what)

/-- The image of a value. -/
theorem map {f : β → α} {first first' : Reader β} (h : Shadows first first') :
    Shadows (f <$> first) (f <$> first') := by
  rw [map_eq_pure_bind, map_eq_pure_bind]
  exact h.bind fun b => pure (f b)

/-- What recovery notes comes behind what its reader noted. -/
theorem recovering_grows (reader : Reader Stmt) (c : Cursor) :
    (cursorOf (reader c)).errors <+: (cursorOf (recovering reader c)).errors := by
  unfold Grammar.recovering
  cases reader c with
  | ok s after => exact List.prefix_rfl
  | error halt after =>
    cases halt with
    | exhausted => exact List.prefix_rfl
    | failed e => exact List.prefix_append _ _

/-- Skipping what cannot be read, where the first reader hands the violation on. -/
theorem recovering {reader shadow : Reader Stmt} (h : Shadows reader shadow) :
    Shadows (some <$> reader) (recovering shadow) := by
  obtain ⟨plan, rfl, hplan⟩ := h
  refine ⟨.recovering plan, rfl, fun c => ?_⟩
  have hreader := hplan c
  change Agrees c (.recovering plan) (EStateM.map some reader c)
  unfold EStateM.map
  revert hreader
  cases reader c with
  | ok s after =>
    rintro ⟨hs, hnone, mild⟩
    refine ⟨recovering_of_ok hs, ?_, mild⟩
    rw [Plan.caught, hnone, hs]
    rfl
  | error halt after =>
    cases halt with
    | exhausted => exact id
    | failed e =>
      rintro ⟨mild, hplace, habandons, ⟨hsame, hnone⟩ | ⟨hcaught, hnoted⟩⟩
      · -- Here the violation is caught; the first reader hands it on.
        refine ⟨mild, hplace, habandons, .inr ⟨?_, ?_⟩⟩
        · rw [Plan.caught, hnone, hsame]
          rfl
        · rw [Plan.read, recovering_of_failed hsame]
          exact List.prefix_rfl
      · refine ⟨mild, hplace, habandons,
          .inr ⟨?_, hnoted.trans (recovering_grows plan.read c)⟩⟩
        rw [Plan.caught, List.head?_append, hcaught]
        rfl

end Shadows

variable {nested nested' : Reader Expr} {declared declared' : Reader (Option Stmt)}
  {inner inner' : Reader Stmt} {fuel fuel' steps steps' : Nat}

/-- A constant, a name, the receiver or an expression in parentheses. -/
theorem primary_shadows (h : Shadows nested nested') :
    Shadows (primary nested) (primary nested') :=
  .choose (.acceptMap _) (fun _ => .node _)
    (.choose (.accept _) (fun _ => .node _)
    (.choose (.accept _) (fun _ => .node _)
    (.choose (.accept _) (fun _ => .bind h fun _ => .bind (.expect _ _) fun _ => .node _)
    (.missing _))))

/-- Arguments separated by commas. -/
theorem arguments_shadows (h : Shadows nested nested') (hsteps : steps ≤ steps') (count : Nat) :
    Shadows (arguments nested steps count) (arguments nested' steps' count) := by
  induction steps generalizing steps' count with
  | zero => exact .exhausted (arguments_planned h.planned _ _)
  | succ steps ih =>
    obtain ⟨before, rfl⟩ : ∃ before, steps' = before + 1 := ⟨steps' - 1, by omega⟩
    rw [arguments, arguments]
    exact .noteIf rfl (.bind h fun _ => .choose (.accept _)
      (fun _ => .bind (ih (by omega) (count + 1)) fun _ => .pure _) (.pure _))

/-- Calls and properties behind an operand. -/
theorem postfixes_shadows (h : Shadows nested nested') (hsteps : steps ≤ steps') (operand : Expr) :
    Shadows (postfixes nested steps operand) (postfixes nested' steps' operand) := by
  induction steps generalizing steps' operand with
  | zero => exact .exhausted (postfixes_planned h.planned _ _)
  | succ steps ih =>
    obtain ⟨before, rfl⟩ : ∃ before, steps' = before + 1 := ⟨steps' - 1, by omega⟩
    have hgiven : Shadows (callArguments nested (steps + 1)) (callArguments nested' (before + 1)) :=
      .decided (.nextIs _) (.pure _) (arguments_shadows h hsteps 0)
    exact .choose (.accept _)
      (fun _ => .bind hgiven fun _ => .bind (.expect _ _) fun _ => .bind (.node _) fun _ =>
        ih (by omega) _)
      (.choose (.accept _)
        (fun _ => .bind (.expect _ _) fun _ => .bind (.node _) fun _ => ih (by omega) _)
        (.pure _))

/-- Signs before an operand. -/
theorem signed_shadows {operand operand' : Reader Expr} (h : Shadows operand operand')
    (hsteps : steps ≤ steps') : Shadows (signed operand steps) (signed operand' steps') := by
  induction steps generalizing steps' with
  | zero => exact .exhausted (signed_planned h.planned _)
  | succ steps ih =>
    obtain ⟨before, rfl⟩ : ∃ before, steps' = before + 1 := ⟨steps' - 1, by omega⟩
    exact .choose (.acceptAny _) (fun _ => .bind (ih (by omega)) fun _ => .node _) h

/-- Operands joined by operators of one level. -/
theorem chain_shadows (make : Nat → Expr → Token → Expr → Expr) (operators : List Kind)
    {operand operand' : Reader Expr} (h : Shadows operand operand') (hfuel : fuel ≤ fuel') :
    Shadows (chain make operators operand fuel) (chain make operators operand' fuel') := by
  have hfrom : ∀ steps steps', steps ≤ steps' → ∀ left,
      Shadows (chainFrom make operators operand steps left)
        (chainFrom make operators operand' steps' left) := by
    intro steps
    induction steps with
    | zero => exact fun steps' _ left => .exhausted (chainFrom_planned make operators h.planned _ _)
    | succ steps ih =>
      intro steps' hsteps left
      obtain ⟨before, rfl⟩ : ∃ before, steps' = before + 1 := ⟨steps' - 1, by omega⟩
      exact .choose (.acceptAny _) (fun _ => .bind h fun _ => .bind (.node _) fun _ =>
        ih before (by omega) _) (.pure _)
  exact .bind h fun left => hfrom fuel fuel' hfuel left

/-- All levels of operators. -/
theorem disjunction_shadows (h : Shadows nested nested') (hfuel : fuel ≤ fuel') :
    Shadows (disjunction nested fuel) (disjunction nested' fuel') := by
  have hcall : Shadows (call nested fuel) (call nested' fuel') :=
    .bind (primary_shadows h) fun operand => postfixes_shadows h hfuel operand
  have hfactor := chain_shadows .binary [.star, .slash] (signed_shadows hcall hfuel) hfuel
  have hterm := chain_shadows .binary [.minus, .plus] hfactor hfuel
  have hcomparison :=
    chain_shadows .binary [.greater, .greaterEqual, .less, .lessEqual] hterm hfuel
  have hequality := chain_shadows .binary [.bangEqual, .equalEqual] hcomparison hfuel
  have hconjunction := chain_shadows .logical [.kwAnd] hequality hfuel
  exact chain_shadows .logical [.kwOr] hconjunction hfuel

/-- An assignment, or what stands without one. -/
theorem assignment_shadows (h : Shadows nested nested') (hfuel : fuel ≤ fuel') :
    Shadows (assignment nested fuel) (assignment nested' fuel') := by
  refine .bind (disjunction_shadows h hfuel) fun target => .choose (.accept _)
    (fun sign => .bind h fun value => ?_) (.pure _)
  split
  · exact .node _
  · exact .node _
  · exact .bind (.noteAt _ rfl) fun _ => .pure _

/-- An expression. -/
theorem expression_shadows (hfuel : fuel ≤ fuel') :
    Shadows (expression fuel) (expression fuel') := by
  induction fuel generalizing fuel' with
  | zero => exact .exhausted (expression_planned _)
  | succ fuel ih =>
    obtain ⟨before, rfl⟩ : ∃ before, fuel' = before + 1 := ⟨fuel' - 1, by omega⟩
    exact assignment_shadows (ih (by omega)) hfuel

/-- Declarations up to a closing brace or the end. -/
theorem declarations_shadows (h : Shadows declared declared') (hsteps : steps ≤ steps') :
    Shadows (declarations declared steps) (declarations declared' steps') := by
  induction steps generalizing steps' with
  | zero => exact .exhausted (declarations_planned h.planned _)
  | succ steps ih =>
    obtain ⟨before, rfl⟩ : ∃ before, steps' = before + 1 := ⟨steps' - 1, by omega⟩
    refine .bind (.nextIs _) fun closes => .bind .atEnd fun ends => ?_
    split
    · exact .pure _
    · exact .bind h fun _ => .bind (ih (by omega)) fun _ => .pure _

/-- The body of a block after its opening brace. -/
theorem block_shadows (h : Shadows declared declared') (hfuel : fuel ≤ fuel') :
    Shadows (block declared fuel) (block declared' fuel') :=
  .bind (declarations_shadows h hfuel) fun _ => .bind (.expect _ _) fun _ => .pure _

/-- Parameters separated by commas. -/
theorem parameters_shadows (hsteps : steps ≤ steps') (count : Nat) :
    Shadows (parameters steps count) (parameters steps' count) := by
  induction steps generalizing steps' count with
  | zero => exact .exhausted (parameters_planned _ _)
  | succ steps ih =>
    obtain ⟨before, rfl⟩ : ∃ before, steps' = before + 1 := ⟨steps' - 1, by omega⟩
    rw [parameters, parameters]
    exact .noteIf rfl (.bind (.expect _ _) fun _ => .choose (.accept _)
      (fun _ => .bind (ih (by omega) (count + 1)) fun _ => .pure _) (.pure _))

/-- A function or method from its name on. -/
theorem routine_shadows (kind : RoutineKind) (h : Shadows declared declared')
    (hfuel : fuel ≤ fuel') :
    Shadows (routine kind declared fuel) (routine kind declared' fuel') := by
  have hbody : ∀ name names, Shadows
      (do
        let _ ← expect .rightParen .parametersClose
        let _ ← expect .leftBrace (.bodyOpen kind)
        let body ← block declared fuel
        return Routine.mk name names body)
      (do
        let _ ← expect .rightParen .parametersClose
        let _ ← expect .leftBrace (.bodyOpen kind)
        let body ← block declared' fuel'
        return Routine.mk name names body) :=
    fun _ _ => .bind (.expect _ _) fun _ => .bind (.expect _ _) fun _ =>
      .bind (block_shadows h hfuel) fun _ => .pure _
  exact .bind (.expect _ _) fun name => .bind (.expect _ _) fun _ => .decided (.nextIs _)
    (hbody name []) (.bind (parameters_shadows hfuel _) fun names => hbody name names)

/-- Methods up to a closing brace or the end. -/
theorem methods_shadows {method method' : Reader Routine} (h : Shadows method method')
    (hsteps : steps ≤ steps') : Shadows (methods method steps) (methods method' steps') := by
  induction steps generalizing steps' with
  | zero => exact .exhausted (methods_planned h.planned _)
  | succ steps ih =>
    obtain ⟨before, rfl⟩ : ∃ before, steps' = before + 1 := ⟨steps' - 1, by omega⟩
    refine .bind (.nextIs _) fun closes => .bind .atEnd fun ends => ?_
    split
    · exact .pure _
    · exact .bind h fun _ => .bind (ih (by omega)) fun _ => .pure _

/-- A class after its keyword. -/
theorem classDeclaration_shadows (h : Shadows declared declared') (hfuel : fuel ≤ fuel') :
    Shadows (classDeclaration declared fuel) (classDeclaration declared' fuel') :=
  .bind (.expect _ _) fun _ => .bind (.expect _ _) fun _ =>
    .bind (methods_shadows (routine_shadows .method h hfuel) hfuel) fun _ =>
      .bind (.expect _ _) fun _ => .pure _

/-- A variable after its keyword. -/
theorem varDeclaration_shadows (hfuel : fuel ≤ fuel') :
    Shadows (varDeclaration fuel) (varDeclaration fuel') :=
  .bind (.expect _ _) fun _ => .choose (.accept _)
    (fun _ => .bind (.map (expression_shadows hfuel)) fun _ => .bind (.expect _ _) fun _ => .pure _)
    (.bind (.pure _) fun _ => .bind (.expect _ _) fun _ => .pure _)

/-- An expression with its semicolon. -/
theorem expressionStatement_shadows (hfuel : fuel ≤ fuel') :
    Shadows (expressionStatement fuel) (expressionStatement fuel') :=
  .bind (expression_shadows hfuel) fun _ => .bind (.expect _ _) fun _ => .pure _

/-- An expression that may be absent. -/
theorem expressionUnless_shadows (kind : Kind) (hfuel : fuel ≤ fuel') :
    Shadows (expressionUnless kind fuel) (expressionUnless kind fuel') :=
  .decided (.nextIs _) (.pure _) (.map (expression_shadows hfuel))

/-- The first clause of a `for`. -/
theorem forInitial_shadows (hfuel : fuel ≤ fuel') : Shadows (forInitial fuel) (forInitial fuel') :=
  .choose (.accept _) (fun _ => .pure _)
    (.choose (.accept _) (fun _ => .bind (varDeclaration_shadows hfuel) fun _ => .pure _)
    (.bind (expressionStatement_shadows hfuel) fun _ => .pure _))

/-- A `for` after its keyword. -/
theorem forStatement_shadows (h : Shadows inner inner') (hfuel : fuel ≤ fuel') :
    Shadows (forStatement inner fuel) (forStatement inner' fuel') := by
  refine .bind (.expect _ _) fun _ => .bind (forInitial_shadows hfuel) fun initial =>
    .bind (expressionUnless_shadows _ hfuel) fun condition => .bind (.expect _ _) fun _ =>
      .bind (expressionUnless_shadows _ hfuel) fun step => .bind (.expect _ _) fun _ =>
        .bind h fun body => ?_
  cases condition with
  | some condition => exact .pure _
  | none => exact .bind (.node _) fun _ => .pure _

/-- An `if` after its keyword. -/
theorem ifStatement_shadows (h : Shadows inner inner') (hfuel : fuel ≤ fuel') :
    Shadows (ifStatement inner fuel) (ifStatement inner' fuel') :=
  .bind (.expect _ _) fun _ => .bind (expression_shadows hfuel) fun _ =>
    .bind (.expect _ _) fun _ => .bind h fun _ =>
      .choose (.accept _) (fun _ => .bind h fun _ => .pure _) (.pure _)

/-- A `while` after its keyword. -/
theorem whileStatement_shadows (h : Shadows inner inner') (hfuel : fuel ≤ fuel') :
    Shadows (whileStatement inner fuel) (whileStatement inner' fuel') :=
  .bind (.expect _ _) fun _ => .bind (expression_shadows hfuel) fun _ =>
    .bind (.expect _ _) fun _ => .bind h fun _ => .pure _

/-- A `print` after its keyword. -/
theorem printStatement_shadows (hfuel : fuel ≤ fuel') :
    Shadows (printStatement fuel) (printStatement fuel') :=
  .bind (expression_shadows hfuel) fun _ => .bind (.expect _ _) fun _ => .pure _

/-- A `return` after its keyword. -/
theorem returnStatement_shadows (keyword : Token) (hfuel : fuel ≤ fuel') :
    Shadows (returnStatement keyword fuel) (returnStatement keyword fuel') :=
  .bind (expressionUnless_shadows _ hfuel) fun _ => .bind (.expect _ _) fun _ => .pure _

/-- A statement, from readers of the declarations and statements inside it. -/
theorem statementRule_shadows (hd : Shadows declared declared') (hs : Shadows inner inner')
    (hfuel : fuel ≤ fuel') :
    Shadows (statementRule declared inner fuel) (statementRule declared' inner' fuel') :=
  .choose (.accept _) (fun _ => forStatement_shadows hs hfuel)
    (.choose (.accept _) (fun _ => ifStatement_shadows hs hfuel)
    (.choose (.accept _) (fun _ => printStatement_shadows hfuel)
    (.choose (.accept _) (fun keyword => returnStatement_shadows keyword hfuel)
    (.choose (.accept _) (fun _ => whileStatement_shadows hs hfuel)
    (.choose (.accept _) (fun _ => .bind (block_shadows hd hfuel) fun _ => .pure _)
    (expressionStatement_shadows hfuel))))))

/-- A declaration or statement, from readers of those inside it. -/
theorem declarationRule_shadows (hd : Shadows declared declared') (hs : Shadows inner inner')
    (hfuel : fuel ≤ fuel') :
    Shadows (declarationRule declared inner fuel) (declarationRule declared' inner' fuel') :=
  .choose (.accept _) (fun _ => classDeclaration_shadows hd hfuel)
    (.choose (.accept _)
      (fun _ => .bind (routine_shadows .function hd hfuel) fun _ => .pure _)
    (.choose (.accept _) (fun _ => varDeclaration_shadows hfuel)
    (statementRule_shadows hd hs hfuel)))

/-- Declarations up to the end. -/
theorem programFrom_shadows (h : Shadows declared declared') (hsteps : steps ≤ steps') :
    Shadows (programFrom declared steps) (programFrom declared' steps') := by
  induction steps generalizing steps' with
  | zero => exact .exhausted (programFrom_planned h.planned _)
  | succ steps ih =>
    obtain ⟨before, rfl⟩ : ∃ before, steps' = before + 1 := ⟨steps' - 1, by omega⟩
    refine .bind .atEnd fun ends => ?_
    split
    · exact .pure _
    · exact .bind h fun _ => .bind (ih (by omega)) fun _ => .pure _

/-- Reading without recovery is shadowed by reading with it, with as much fuel or more. -/
theorem declaration_statement_shadow (hfuel : fuel ≤ fuel') :
    Shadows (Strict.declaration fuel) (declaration fuel') ∧
      Shadows (Strict.statement fuel) (statement fuel') := by
  induction fuel generalizing fuel' with
  | zero =>
    obtain ⟨hd, hs⟩ := declaration_statement_planned fuel'
    rw [Strict.declaration, Strict.statement]
    exact ⟨.exhausted hd, .exhausted hs⟩
  | succ fuel ih =>
    obtain ⟨before, rfl⟩ : ∃ before, fuel' = before + 1 := ⟨fuel' - 1, by omega⟩
    obtain ⟨hd, hs⟩ := ih (by omega : fuel ≤ before)
    rw [Strict.declaration, Strict.statement, declaration, statement]
    exact ⟨.recovering (declarationRule_shadows hd hs hfuel), statementRule_shadows hd hs hfuel⟩

namespace Strict

/-- Reading without recovery is shadowed by itself with more fuel. -/
theorem declaration_statement_shadow (hfuel : fuel ≤ fuel') :
    Shadows (declaration fuel) (declaration fuel') ∧
      Shadows (statement fuel) (statement fuel') := by
  induction fuel generalizing fuel' with
  | zero =>
    obtain ⟨hd, hs⟩ := declaration_statement_planned fuel'
    rw [declaration, statement]
    exact ⟨.exhausted hd, .exhausted hs⟩
  | succ fuel ih =>
    obtain ⟨before, rfl⟩ : ∃ before, fuel' = before + 1 := ⟨fuel' - 1, by omega⟩
    obtain ⟨hd, hs⟩ := ih (by omega : fuel ≤ before)
    rw [declaration, statement, declaration, statement]
    exact ⟨.map (declarationRule_shadows hd hs hfuel), statementRule_shadows hd hs hfuel⟩

/-- A program is shadowed by reading it with more fuel. -/
theorem program_shadow (hfuel : fuel ≤ fuel') : Shadows (program fuel) (program fuel') :=
  programFrom_shadows (declaration_statement_shadow hfuel).1 hfuel

end Strict

/-- A program read without recovery is shadowed by reading it with recovery. -/
theorem program_shadow (hfuel : fuel ≤ fuel') : Shadows (Strict.program fuel) (program fuel') :=
  programFrom_shadows (declaration_statement_shadow hfuel).1 hfuel

variable {c after after' : Cursor} {e : SyntaxError} {p : Program}

/-- Where a reading without recovery comes to a value with some fuel, it ends at no
violation with any other. -/
theorem Strict.program_not_both (clean : c.errors = [])
    (hok : Strict.program fuel c = .ok p after) :
    Strict.program fuel' c ≠ .error (.failed e) after' := by
  intro hfailed
  rcases Nat.le_total fuel fuel' with hle | hle
  · obtain ⟨plan, hplan, hagrees⟩ := Strict.program_shadow hle
    have hagrees := hagrees c
    rw [hok] at hagrees
    obtain ⟨hread, -⟩ := hagrees
    rw [hplan, hfailed] at hread
    cases hread
  · obtain ⟨_, _, hmild⟩ := Strict.program_shadow (Nat.le_refl fuel)
    obtain ⟨plan, hplan, hagrees⟩ := Strict.program_shadow hle
    have hmild := hmild c
    have hagrees := hagrees c
    rw [hok] at hmild
    rw [hfailed] at hagrees
    obtain ⟨-, -, found, hfound, hgentle⟩ := hmild
    obtain ⟨-, -, habandons, ⟨hsame, -⟩ | ⟨-, hnoted⟩⟩ := hagrees
    · rw [hplan, hok] at hsame
      cases hsame
    · rw [hplan, hok] at hnoted
      have hmem : e ∈ after.errors := hnoted.subset (List.mem_append_right _ List.mem_cons_self)
      rw [hfound, clean, List.nil_append] at hmem
      rw [hgentle e hmem] at habandons
      cases habandons

end Scriptlet.Grammar
