import Scriptlet.Grammar.Stmt
import Scriptlet.Proofs.Grammar.Accepts
import Scriptlet.Proofs.Grammar.Heads

/-!
# Expressions are accepted

Tokens that say an expression are accepted where no token follows with which the
expression could go on. Calls and levels of operators are loops, so for them the
statement is that the reader comes to stand in its loop behind the tokens, with
the expression read so far.
-/

namespace Scriptlet.Grammar

/-- The reader of a level. -/
def Level.reader (nested : Reader Expr) (fuel : Nat) : Level → Reader Expr
  | disjunction => Grammar.disjunction nested fuel
  | conjunction => Grammar.conjunction nested fuel
  | equality => Grammar.equality nested fuel
  | comparison => Grammar.comparison nested fuel
  | term => Grammar.term nested fuel
  | factor => Grammar.factor nested fuel

/-- The reader of the operands of a level. -/
def Level.operandReader (nested : Reader Expr) (fuel : Nat) : Level → Reader Expr
  | disjunction => Grammar.conjunction nested fuel
  | conjunction => Grammar.equality nested fuel
  | equality => Grammar.comparison nested fuel
  | comparison => Grammar.term nested fuel
  | term => Grammar.factor nested fuel
  | factor => signed (call nested fuel) fuel

/-- Every level is a chain of its operands. -/
theorem Level.reader_eq (l : Level) (nested : Reader Expr) (fuel : Nat) :
    l.reader nested fuel = chain l.join l.operators (l.operandReader nested fuel) fuel := by
  cases l <;> rfl

/-- The kinds of token with which a level can go on. -/
def Level.goesOn : Level → List Kind
  | factor => [.star, .slash, .leftParen, .dot]
  | term => [.minus, .plus, .star, .slash, .leftParen, .dot]
  | comparison =>
    [.greater, .greaterEqual, .less, .lessEqual, .minus, .plus, .star, .slash, .leftParen, .dot]
  | equality =>
    [.bangEqual, .equalEqual, .greater, .greaterEqual, .less, .lessEqual, .minus, .plus, .star,
      .slash, .leftParen, .dot]
  | conjunction =>
    [.kwAnd, .bangEqual, .equalEqual, .greater, .greaterEqual, .less, .lessEqual, .minus, .plus,
      .star, .slash, .leftParen, .dot]
  | disjunction =>
    [.kwOr, .kwAnd, .bangEqual, .equalEqual, .greater, .greaterEqual, .less, .lessEqual, .minus,
      .plus, .star, .slash, .leftParen, .dot]

/-- The kinds of token with which the operands of a level can go on. -/
def Level.operandGoesOn : Level → List Kind
  | factor => [.leftParen, .dot]
  | term => goesOn factor
  | comparison => goesOn term
  | equality => goesOn comparison
  | conjunction => goesOn equality
  | disjunction => goesOn conjunction

/-- The kinds of token with which an expression can go on. -/
def exprGoesOn : List Kind := .equal :: Level.goesOn .disjunction

/-- A level goes on with its own operators and as its operands do. -/
theorem Level.goesOn_eq (l : Level) : l.goesOn = l.operators ++ l.operandGoesOn := by
  cases l <;> rfl

/-- No operator of a level continues an operand of it. -/
theorem Level.not_mem_operandGoesOn {l : Level} {kind : Kind} (h : kind ∈ l.operators) :
    kind ∉ l.operandGoesOn := by
  revert kind
  cases l <;> decide

/-- Tokens accepted as a primary expression, whatever follows. -/
def CompletesPrimary (n : Nat) (ts : List Token) (e : Expr) (m : Nat) : Prop :=
  ∀ fuel rest, ts.length + rest.length ≤ fuel →
    Accepts (primary (expression fuel)) n ts rest e m

/-- Tokens behind which the reader of calls stands before its next call or property. -/
def CompletesCall (n : Nat) (ts : List Token) (e : Expr) (m : Nat) : Prop :=
  ∀ fuel rest, ts.length + rest.length ≤ fuel → ∃ steps, rest.length < steps ∧
    Continues (call (expression fuel) (fuel + 1)) (postfixes (expression fuel) steps e) n ts rest m

/-- Tokens accepted as a signed operand. -/
def CompletesUnary (n : Nat) (ts : List Token) (e : Expr) (m : Nat) : Prop :=
  ∀ fuel steps rest, ts.length + rest.length ≤ fuel → ts.length + rest.length < steps →
    Stops [.leftParen, .dot] rest →
      Accepts (signed (call (expression fuel) (fuel + 1)) steps) n ts rest e m

/-- Tokens accepted as an operand of a level. -/
def CompletesOperand (l : Level) (n : Nat) (ts : List Token) (e : Expr) (m : Nat) : Prop :=
  ∀ fuel rest, ts.length + rest.length ≤ fuel → Stops l.operandGoesOn rest →
    Accepts (l.operandReader (expression fuel) (fuel + 1)) n ts rest e m

/-- Tokens behind which the reader of a level stands before its next operator. -/
def CompletesLevel (l : Level) (n : Nat) (ts : List Token) (e : Expr) (m : Nat) : Prop :=
  ∀ fuel rest, ts.length + rest.length ≤ fuel → Stops l.operandGoesOn rest →
    ∃ steps, rest.length < steps ∧
      Continues (l.reader (expression fuel) (fuel + 1))
        (chainFrom l.join l.operators (l.operandReader (expression fuel) (fuel + 1)) steps e)
        n ts rest m

/-- Tokens accepted as an assignment or what stands without one. -/
def CompletesAssignment (n : Nat) (ts : List Token) (e : Expr) (m : Nat) : Prop :=
  ∀ fuel rest, ts.length + rest.length ≤ fuel → Stops exprGoesOn rest →
    Accepts (assignment (expression fuel) (fuel + 1)) n ts rest e m

/-- Tokens accepted as an expression. -/
def CompletesExpression (n : Nat) (ts : List Token) (e : Expr) (m : Nat) : Prop :=
  ∀ fuel rest, ts.length + rest.length < fuel → Stops exprGoesOn rest →
    Accepts (expression fuel) n ts rest e m

/-- Tokens accepted as arguments behind `count` earlier ones. -/
def CompletesArguments (n : Nat) (ts : List Token) (es : List Expr) (m : Nat) : Prop :=
  ∀ fuel steps count rest, ts.length + rest.length < fuel → ts.length + rest.length < steps →
    count + es.length ≤ 255 → Stops (.comma :: exprGoesOn) rest →
      Accepts (arguments (expression fuel) steps count) n ts rest es m

variable {n m k : Nat} {ts us : List Token} {e : Expr} {t : Token}

/-- What begins with a token of some kinds does not begin with one of others. -/
theorem BeginsWith.stops {kinds others : List Kind} (h : BeginsWith kinds ts)
    (apart : ∀ kind ∈ kinds, kind ∉ others) (rest : List Token) : Stops others (ts ++ rest) := by
  obtain ⟨t, us, rfl, ht⟩ := h
  exact .cons (apart _ ht)

/-- A constant is accepted. -/
theorem CompletesPrimary.constant {value : Constant} (h : constant? t = some value) :
    CompletesPrimary n [t] (.literal n value) (n + 1) := by
  intro fuel rest _
  exact .acceptMap h (.nodeLast _)

/-- A token of a kind that stands for no constant. -/
theorem constant_eq_none (h : t.kind ∉ [Kind.kwFalse, .kwTrue, .kwNil, .number, .string]) :
    constant? t = none := by
  unfold constant?
  split <;> simp_all

/-- The receiver is accepted. -/
theorem CompletesPrimary.receiver (h : t.kind = .kwThis) :
    CompletesPrimary n [t] (.receiver n t) (n + 1) := by
  intro fuel rest _
  refine .skipMap ?_ (.accept h (.nodeLast _))
  rintro t' ⟨⟩
  exact constant_eq_none (by rw [h]; decide)

/-- A name is accepted. -/
theorem CompletesPrimary.name (h : t.kind = .identifier) :
    CompletesPrimary n [t] (.var n t) (n + 1) := by
  intro fuel rest _
  refine .skipMap ?_ (.skip (.cons (by rw [h]; decide)) (.accept h (.nodeLast _)))
  rintro t' ⟨⟩
  exact constant_eq_none (by rw [h]; decide)

/-- An expression in parentheses is accepted. -/
theorem CompletesPrimary.group {left right : Token} (hleft : left.kind = .leftParen)
    (inner : CompletesExpression n ts e m) (hright : right.kind = .rightParen) :
    CompletesPrimary n (left :: (ts ++ [right])) (.group m e) (m + 1) := by
  intro fuel rest hfuel
  simp only [List.length_cons, List.length_append, List.length_nil] at hfuel
  refine .skipMap ?_ (.skip (.cons (by rw [hleft]; decide)) (.skip (.cons (by rw [hleft]; decide))
    (.accept hleft (.bind (inner fuel _ ?_ (.cons ?_)) (.expect hright (.nodeLast _))))))
  · rintro t' ⟨⟩
    exact constant_eq_none (by rw [hleft]; decide)
  · simp only [List.length_cons, List.length_append, List.length_nil]
    omega
  · rw [hright]
    decide

/-- Behind a primary expression the reader stands in the loop. -/
theorem CompletesPrimary.call (h : CompletesPrimary n ts e m) : CompletesCall n ts e m := by
  intro fuel rest hfuel
  refine ⟨fuel + 1, by omega, ?_⟩
  exact .bindLast (h fuel rest hfuel) (.refl _)

/-- One more step of the loop over calls and properties. -/
theorem CompletesCall.step (h : CompletesCall n ts e m) {e' : Expr}
    (hloop : ∀ fuel steps rest, us.length + rest.length < fuel + 1 →
      us.length + rest.length < steps + 1 →
      Continues (postfixes (expression fuel) (steps + 1) e) (postfixes (expression fuel) steps e')
        m us rest k)
    (hne : us ≠ []) : CompletesCall n (ts ++ us) e' k := by
  intro fuel rest hfuel
  have hus := List.length_pos_iff.mpr hne
  rw [List.length_append] at hfuel
  obtain ⟨steps, hsteps, hreached⟩ := h fuel (us ++ rest) (by rw [List.length_append]; omega)
  rw [List.length_append] at hsteps
  obtain ⟨before, rfl⟩ : ∃ before, steps = before + 1 := ⟨steps - 1, by omega⟩
  exact ⟨before, by omega, hreached.trans (hloop fuel before rest (by omega) (by omega))⟩

/-- A call without arguments is accepted. -/
theorem CompletesCall.empty (h : CompletesCall n ts e m) {left right : Token}
    (hleft : left.kind = .leftParen) (hright : right.kind = .rightParen) :
    CompletesCall n (ts ++ [left, right]) (.call m e right []) (m + 1) := by
  refine h.step (fun fuel steps rest _ _ => ?_) (by simp)
  rw [postfixes]
  refine .accept hleft (.bindFirst (b := []) (k := m) ?_ (.expect hright (.node (.refl _))))
  refine .nextIs (b := true) ?_ (.refl _)
  simp [hright]

/-- A call with at most 255 arguments is accepted. -/
theorem CompletesCall.withArguments (h : CompletesCall n ts e m) {left right : Token}
    {es : List Expr} (hleft : left.kind = .leftParen) (given : CompletesArguments m us es k)
    (begins : BeginsWith exprStarters us) (few : es.length ≤ 255)
    (hright : right.kind = .rightParen) :
    CompletesCall n (ts ++ left :: (us ++ [right])) (.call k e right es) (k + 1) := by
  refine h.step (fun fuel steps rest hfuel hsteps => ?_) (by simp)
  simp only [List.length_cons, List.length_append, List.length_nil] at hfuel hsteps
  rw [postfixes]
  refine .accept hleft (.bind (b := es) (k := k) ?_ (.expect hright (.node (.refl _))))
  obtain ⟨t, vs, rfl, ht⟩ := begins
  refine .nextIs (b := false) ?_ (given fuel (steps + 1) 0 _ ?_ ?_ (by omega) (.cons ?_))
  · have hne : t.kind ≠ .rightParen := by
      intro heq
      rw [heq] at ht
      revert ht
      decide
    simp [hne]
  · simp only [List.length_cons, List.length_nil, List.length_append] at hfuel hsteps ⊢
    omega
  · simp only [List.length_cons, List.length_nil, List.length_append] at hfuel hsteps ⊢
    omega
  · rw [hright]
    decide

/-- A property is accepted. -/
theorem CompletesCall.get (h : CompletesCall n ts e m) {dot name : Token} (hdot : dot.kind = .dot)
    (hname : name.kind = .identifier) :
    CompletesCall n (ts ++ [dot, name]) (.get m e name) (m + 1) := by
  refine h.step (fun fuel steps rest _ _ => ?_) (by simp)
  rw [postfixes]
  exact .skip (.cons (by rw [hdot]; decide)) (.accept hdot (.expect hname (.node (.refl _))))

/-- Where no call or property follows, the loop ends. -/
theorem CompletesCall.accepts (h : CompletesCall n ts e m) {fuel : Nat} {rest : List Token}
    (hfuel : ts.length + rest.length ≤ fuel) (hstops : Stops [.leftParen, .dot] rest) :
    Accepts (call (expression fuel) (fuel + 1)) n ts rest e m := by
  obtain ⟨steps, hsteps, hreached⟩ := h fuel rest hfuel
  obtain ⟨before, rfl⟩ : ∃ before, steps = before + 1 := ⟨steps - 1, by omega⟩
  have hends : Accepts (postfixes (expression fuel) (before + 1) e) m [] rest e m := by
    rw [postfixes]
    exact .skip (hstops.mono (by decide)) (.skip (hstops.mono (by decide)) (.refl _))
  exact hreached.transLast hends

/-- A call is an operand of signs. -/
theorem CompletesCall.unary (h : CompletesCall n ts e m) (begins : BeginsWith operandStarters ts) :
    CompletesUnary n ts e m := by
  intro fuel steps rest hfuel hsteps hstops
  obtain ⟨before, rfl⟩ : ∃ before, steps = before + 1 := ⟨steps - 1, by omega⟩
  rw [signed]
  exact .skipAny (begins.stops (by decide) rest) (h.accepts hfuel hstops)

/-- A sign before an operand is accepted. -/
theorem CompletesUnary.sign (h : CompletesUnary n ts e m)
    (ht : t.kind ∈ [Kind.bang, .minus]) : CompletesUnary n (t :: ts) (.unary m t e) (m + 1) := by
  intro fuel steps rest hfuel hsteps hstops
  rw [List.length_cons] at hfuel hsteps
  obtain ⟨before, rfl⟩ : ∃ before, steps = before + 1 := ⟨steps - 1, by omega⟩
  rw [signed]
  exact .acceptAny ht (.bindLast (h fuel before rest (by omega) (by omega) hstops) (.nodeLast _))

/-- Signed operands are what the tightest level joins. -/
theorem CompletesUnary.operand (h : CompletesUnary n ts e m) :
    CompletesOperand .factor n ts e m := by
  intro fuel rest hfuel hstops
  exact h fuel (fuel + 1) rest hfuel (by omega) hstops

/-- Behind a first operand the reader of a level stands in its loop. -/
theorem CompletesOperand.level {l : Level} (h : CompletesOperand l n ts e m) :
    CompletesLevel l n ts e m := by
  intro fuel rest hfuel hstops
  refine ⟨fuel + 1, by omega, ?_⟩
  rw [l.reader_eq]
  exact .bindLast (h fuel rest hfuel hstops) (.refl _)

/-- One more operator with its operand. -/
theorem CompletesLevel.join {l : Level} {a b : Expr} {operator : Token}
    (left : CompletesLevel l n ts a m) (ht : operator.kind ∈ l.operators)
    (right : CompletesOperand l m us b k) :
    CompletesLevel l n (ts ++ operator :: us) (l.join k a operator b) (k + 1) := by
  intro fuel rest hfuel hstops
  rw [List.length_append, List.length_cons] at hfuel
  have hoperator : Stops l.operandGoesOn (operator :: us ++ rest) :=
    .cons (l.not_mem_operandGoesOn ht)
  have hlength : (operator :: us ++ rest).length = us.length + 1 + rest.length := by
    rw [List.length_append, List.length_cons]
  obtain ⟨steps, hsteps, hreached⟩ := left fuel (operator :: us ++ rest) (by omega) hoperator
  obtain ⟨before, rfl⟩ : ∃ before, steps = before + 1 := ⟨steps - 1, by omega⟩
  refine ⟨before, by omega, hreached.trans ?_⟩
  rw [chainFrom]
  exact .acceptAny ht (.bindLast (right fuel rest (by omega) hstops) (.node (.refl _)))

/-- Where no operator of the level follows, its loop ends. -/
theorem CompletesLevel.accepts {l : Level} (h : CompletesLevel l n ts e m) {fuel : Nat}
    {rest : List Token} (hfuel : ts.length + rest.length ≤ fuel) (hstops : Stops l.goesOn rest) :
    Accepts (l.reader (expression fuel) (fuel + 1)) n ts rest e m := by
  rw [l.goesOn_eq] at hstops
  obtain ⟨steps, hsteps, hreached⟩ :=
    h fuel rest hfuel (hstops.mono fun _ => List.mem_append_right _)
  obtain ⟨before, rfl⟩ : ∃ before, steps = before + 1 := ⟨steps - 1, by omega⟩
  have hends : Accepts (chainFrom l.join l.operators (l.operandReader (expression fuel) (fuel + 1))
      (before + 1) e) m [] rest e m := by
    rw [chainFrom]
    exact .skipAny (hstops.mono fun _ => List.mem_append_left _) (.refl _)
  exact hreached.transLast hends

/-- One level is what the next looser one joins. -/
theorem CompletesLevel.operand {l tighter : Level} (hl : l.operand = .level tighter)
    (h : CompletesLevel tighter n ts e m) : CompletesOperand l n ts e m := by
  intro fuel rest hfuel hstops
  cases l <;> cases hl <;> exact h.accepts hfuel hstops

/-- A call is accepted with all levels of operators. -/
theorem CompletesCall.disjunction (h : CompletesCall n ts e m)
    (begins : BeginsWith operandStarters ts) : CompletesLevel .disjunction n ts e m := by
  have hfactor : CompletesLevel .factor n ts e m := (h.unary begins).operand.level
  have hterm : CompletesLevel .term n ts e m := (hfactor.operand rfl).level
  have hcomparison : CompletesLevel .comparison n ts e m := (hterm.operand rfl).level
  have hequality : CompletesLevel .equality n ts e m := (hcomparison.operand rfl).level
  have hconjunction : CompletesLevel .conjunction n ts e m := (hequality.operand rfl).level
  exact (hconjunction.operand rfl).level

/-- What is not assigned to is accepted alone. -/
theorem CompletesLevel.assignment (h : CompletesLevel .disjunction n ts e m) :
    CompletesAssignment n ts e m := by
  intro fuel rest hfuel hstops
  exact .bindLast (h.accepts hfuel (hstops.mono fun _ => List.mem_cons_of_mem _))
    (.skip (hstops.mono (by decide)) (.refl _))

/-- Assignments are what expressions are. -/
theorem CompletesAssignment.expression (h : CompletesAssignment n ts e m) :
    CompletesExpression n ts e m := by
  intro fuel rest hfuel hstops
  obtain ⟨before, rfl⟩ : ∃ before, fuel = before + 1 := ⟨fuel - 1, by omega⟩
  rw [Grammar.expression]
  exact h before rest (by omega) hstops

/-- An assignment to a name is accepted. -/
theorem CompletesAssignment.var {name sign : Token} (hname : name.kind = .identifier)
    (hsign : sign.kind = .equal) (value : CompletesAssignment (n + 1) us e m) :
    CompletesAssignment n (name :: sign :: us) (.assign m name e) (m + 1) := by
  intro fuel rest hfuel hstops
  rw [List.length_cons, List.length_cons] at hfuel
  have htarget : CompletesLevel .disjunction n [name] (.var n name) (n + 1) :=
    (CompletesPrimary.name hname).call.disjunction (.cons (by rw [hname]; decide))
  have hequals : Stops (Level.goesOn .disjunction) (sign :: us ++ rest) :=
    .cons (by rw [hsign]; decide)
  have hread : Accepts (Grammar.disjunction (Grammar.expression fuel) (fuel + 1)) n [name]
      (sign :: us ++ rest) (.var n name) (n + 1) := by
    refine htarget.accepts ?_ hequals
    simp only [List.length_append, List.length_cons, List.length_nil]
    omega
  have hvalue := value.expression fuel rest (by omega) hstops
  exact hread.bind (.accept hsign (.bindLast hvalue (.nodeLast _)))

/-- An assignment to a property is accepted. -/
theorem CompletesAssignment.set {o : Expr} {dot name sign : Token}
    (object : CompletesCall n ts o m) (begins : BeginsWith operandStarters ts)
    (hdot : dot.kind = .dot) (hname : name.kind = .identifier) (hsign : sign.kind = .equal)
    (value : CompletesAssignment (m + 1) us e k) :
    CompletesAssignment n (ts ++ dot :: name :: sign :: us) (.set k o name e) (k + 1) := by
  intro fuel rest hfuel hstops
  simp only [List.length_append, List.length_cons] at hfuel
  have htarget : CompletesLevel .disjunction n (ts ++ [dot, name]) (.get m o name) (m + 1) :=
    (object.get hdot hname).disjunction (begins.append _)
  have hequals : Stops (Level.goesOn .disjunction) (sign :: us ++ rest) :=
    .cons (by rw [hsign]; decide)
  have hread : Accepts (Grammar.disjunction (Grammar.expression fuel) (fuel + 1)) n
      (ts ++ [dot, name]) (sign :: us ++ rest) (.get m o name) (m + 1) := by
    refine htarget.accepts ?_ hequals
    simp only [List.length_append, List.length_cons, List.length_nil]
    omega
  have hvalue := value.expression fuel rest (by omega) hstops
  have hsplit : ts ++ dot :: name :: sign :: us = (ts ++ [dot, name]) ++ sign :: us := by
    rw [List.append_assoc]
    rfl
  rw [hsplit]
  exact hread.bind (.accept hsign (.bindLast hvalue (.nodeLast _)))

/-- A last argument is accepted. -/
theorem CompletesExpression.argumentsLast (h : CompletesExpression n ts e m) :
    CompletesArguments n ts [e] m := by
  intro fuel steps count rest hfuel hsteps hcount hstops
  obtain ⟨before, rfl⟩ : ∃ before, steps = before + 1 := ⟨steps - 1, by omega⟩
  have hfew : ¬maxCount ≤ count := by
    rw [List.length_singleton] at hcount
    exact Nat.not_le.mpr hcount
  rw [Grammar.arguments, if_neg hfew]
  exact .bindLast (h fuel rest hfuel (hstops.mono fun _ => List.mem_cons_of_mem _))
    (.skip (hstops.mono (by decide)) (.refl _))

/-- An argument with others behind it is accepted. -/
theorem CompletesExpression.argumentsMore {es : List Expr} {comma : Token}
    (h : CompletesExpression n ts e m) (hcomma : comma.kind = .comma)
    (others : CompletesArguments m us es k) :
    CompletesArguments n (ts ++ comma :: us) (e :: es) k := by
  intro fuel steps count rest hfuel hsteps hcount hstops
  rw [List.length_append, List.length_cons] at hfuel hsteps
  rw [List.length_cons] at hcount
  obtain ⟨before, rfl⟩ : ∃ before, steps = before + 1 := ⟨steps - 1, by omega⟩
  have hfew : ¬maxCount ≤ count := Nat.not_le.mpr (show count < 255 by omega)
  have hfirst : Accepts (Grammar.expression fuel) n ts (comma :: us ++ rest) e m := by
    refine h fuel _ ?_ (.cons (by rw [hcomma]; decide))
    simp only [List.length_append, List.length_cons]
    omega
  have hothers := others fuel before (count + 1) rest (by omega) (by omega) (by omega) hstops
  rw [Grammar.arguments, if_neg hfew]
  exact hfirst.bind (.accept hcomma (.bindLast hothers (.refl _)))

end Scriptlet.Grammar
