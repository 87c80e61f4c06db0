import Scriptlet.Proofs.Alike.Trees
import Scriptlet.Proofs.Grammar.Heads

/-!
# Reading again from another number

What some tokens are read as does not depend on the number from which their expressions
are numbered, apart from the numbers. There is one rule for each part that statements
stand in, since there other tokens may be read as something alike, too.
-/

namespace Scriptlet

/-- All numbers correspond, and a line to itself. -/
def exceptNumbers : Likeness := ⟨fun _ _ => True, Eq⟩

/-- A token is alike to itself on its line. -/
theorem Token.alike_exceptNumbers (t : Token) : t.Alike exceptNumbers t := ⟨rfl, rfl, rfl, rfl⟩

namespace Grammar

/-- What was read, alike. A statement may be closed in place of one that is open. -/
inductive Node.Alike (K : Likeness) : Node → Node → Prop where
  | expr {e e' : Expr} (h : e.Alike K e') : Node.Alike K (.expr e) (.expr e')
  | exprs {es es' : List Expr} (h : Expr.AllAlike K es es') : Node.Alike K (.exprs es) (.exprs es')
  | clause {e e' : Option Expr} (h : Option.Rel (Expr.Alike K) e e') :
    Node.Alike K (.clause e) (.clause e')
  | names (ts : List Token) : Node.Alike K (.names ts) (.names ts)
  | routine {r r' : Routine} (h : r.Alike K r') : Node.Alike K (.routine r) (.routine r')
  | routines {rs rs' : List Routine} (h : Routine.AllAlike K rs rs') :
    Node.Alike K (.routines rs) (.routines rs')
  | initial {s s' : Option Stmt} (h : Option.Rel (Stmt.Alike K) s s') :
    Node.Alike K (.initial s) (.initial s')
  | stmt {s s' : Stmt} {isOpen isOpen' : Bool} (h : s.Alike K s')
    (hopen : isOpen' = true → isOpen = true) : Node.Alike K (.stmt s isOpen) (.stmt s' isOpen')
  | stmts {ss ss' : List Stmt} (h : Stmt.AllAlike K ss ss') : Node.Alike K (.stmts ss) (.stmts ss')

/-- From every number on, the tokens are read as something alike. -/
def Rereads (p : Part) (ts : List Token) (x : Node) : Prop :=
  ∀ n, ∃ x' m, Reads p n ts x' m ∧ x.Alike exceptNumbers x'

/-- Loops with clauses alike. -/
theorem desugared_alike {K : Likeness} {first first' : Option Stmt} {c c' : Expr}
    {step step' : Option Expr} {s s' : Stmt} (hfirst : Option.Rel (Stmt.Alike K) first first')
    (hc : c.Alike K c') (hstep : Option.Rel (Expr.Alike K) step step') (hs : s.Alike K s') :
    (desugared first c step s).Alike K (desugared first' c' step' s') := by
  have hbody : ∀ {e e' : Expr}, e.Alike K e' →
      (Stmt.loop c (.block [s, .expr e])).Alike K (.loop c' (.block [s', .expr e'])) :=
    fun he => .loop hc (.block (.cons hs (.cons (.expr he) .nil)))
  cases hfirst with
  | none =>
    cases hstep with
    | none => exact .loop hc hs
    | some he => exact hbody he
  | some hfirst =>
    cases hstep with
    | none => exact .block (.cons hfirst (.cons (.loop hc hs) .nil))
    | some he => exact .block (.cons hfirst (.cons (hbody he) .nil))

namespace Rereads

variable {p : Part} {ts us : List Token} {s : Stmt} {isOpen : Bool} {ss body : List Stmt}

/-- Expressions are read again as expressions. -/
theorem expr {e : Expr} (h : Rereads p ts (.expr e)) (n : Nat) :
    ∃ e' m, Reads p n ts (.expr e') m ∧ e.Alike exceptNumbers e' := by
  obtain ⟨x', m, hread, halike⟩ := h n
  cases halike with
  | expr h => exact ⟨_, m, hread, h⟩

/-- Arguments are read again as arguments. -/
theorem exprs {es : List Expr} (h : Rereads p ts (.exprs es)) (n : Nat) :
    ∃ es' m, Reads p n ts (.exprs es') m ∧ Expr.AllAlike exceptNumbers es es' := by
  obtain ⟨x', m, hread, halike⟩ := h n
  cases halike with
  | exprs h => exact ⟨_, m, hread, h⟩

/-- Clauses are read again as clauses. -/
theorem clause {e : Option Expr} (h : Rereads p ts (.clause e)) (n : Nat) :
    ∃ e' m, Reads p n ts (.clause e') m ∧ Option.Rel (Expr.Alike exceptNumbers) e e' := by
  obtain ⟨x', m, hread, halike⟩ := h n
  cases halike with
  | clause h => exact ⟨_, m, hread, h⟩

/-- Routines are read again as routines. -/
theorem routine {r : Routine} (h : Rereads p ts (.routine r)) (n : Nat) :
    ∃ r' m, Reads p n ts (.routine r') m ∧ r.Alike exceptNumbers r' := by
  obtain ⟨x', m, hread, halike⟩ := h n
  cases halike with
  | routine h => exact ⟨_, m, hread, h⟩

/-- Methods are read again as methods. -/
theorem routines {rs : List Routine} (h : Rereads p ts (.routines rs)) (n : Nat) :
    ∃ rs' m, Reads p n ts (.routines rs') m ∧ Routine.AllAlike exceptNumbers rs rs' := by
  obtain ⟨x', m, hread, halike⟩ := h n
  cases halike with
  | routines h => exact ⟨_, m, hread, h⟩

/-- First clauses are read again as first clauses. -/
theorem initial {s : Option Stmt} (h : Rereads p ts (.initial s)) (n : Nat) :
    ∃ s' m, Reads p n ts (.initial s') m ∧ Option.Rel (Stmt.Alike exceptNumbers) s s' := by
  obtain ⟨x', m, hread, halike⟩ := h n
  cases halike with
  | initial h => exact ⟨_, m, hread, h⟩

/-- Statements are read again as statements, which may be closed instead of open. -/
theorem stmt (h : Rereads p ts (.stmt s isOpen)) (n : Nat) :
    ∃ s' isOpen' m, Reads p n ts (.stmt s' isOpen') m ∧ s.Alike exceptNumbers s' ∧
      (isOpen' = true → isOpen = true) := by
  obtain ⟨x', m, hread, halike⟩ := h n
  cases halike with
  | stmt h hopen => exact ⟨_, _, m, hread, h, hopen⟩

/-- Closed statements are read again as closed statements. -/
theorem closed (h : Rereads p ts (.stmt s false)) (n : Nat) :
    ∃ s' m, Reads p n ts (.stmt s' false) m ∧ s.Alike exceptNumbers s' := by
  obtain ⟨s', isOpen, m, hread, halike, hopen⟩ := h.stmt n
  cases isOpen with
  | true => cases hopen rfl
  | false => exact ⟨s', m, hread, halike⟩

/-- Declarations are read again as declarations. -/
theorem stmts (h : Rereads p ts (.stmts ss)) (n : Nat) :
    ∃ ss' m, Reads p n ts (.stmts ss') m ∧ Stmt.AllAlike exceptNumbers ss ss' := by
  obtain ⟨x', m, hread, halike⟩ := h n
  cases halike with
  | stmts h => exact ⟨_, m, hread, h⟩

/-- An expression that is one of another part, too. -/
theorem exprAs {q : Part} {e : Expr} (h : Rereads p ts (.expr e))
    (hsame : ∀ n e' m, Reads p n ts (.expr e') m → Reads q n ts (.expr e') m) :
    Rereads q ts (.expr e) := by
  intro n
  obtain ⟨e', m, he, halike⟩ := h.expr n
  exact ⟨_, m, hsame n e' m he, .expr halike⟩

/-- A closed statement that is one of another part, perhaps with more tokens. -/
theorem closedAs {q : Part} (h : Rereads p ts (.stmt s false))
    (hsame : ∀ n s' m, Reads p n ts (.stmt s' false) m → Reads q n us (.stmt s' false) m) :
    Rereads q us (.stmt s false) := by
  intro n
  obtain ⟨s', m, hs, halike⟩ := h.closed n
  exact ⟨_, m, hsame n s' m hs, .stmt halike id⟩

/-- A closed statement that is a first clause, perhaps with more tokens. -/
theorem initialAs (h : Rereads p ts (.stmt s false))
    (hsame : ∀ n s' m, Reads p n ts (.stmt s' false) m →
      Reads .forInitial n us (.initial (some s')) m) :
    Rereads .forInitial us (.initial (some s)) := by
  intro n
  obtain ⟨s', m, hs, halike⟩ := h.closed n
  exact ⟨_, m, hsame n s' m hs, .initial (.some halike)⟩

variable {c : Expr} {keyword left right opening closing name : Token}

/-- A routine without parameters. -/
theorem routineEmpty (hname : name.kind = .identifier) (hleft : left.kind = .leftParen)
    (hright : right.kind = .rightParen) (hopening : opening.kind = .leftBrace)
    (inside : Rereads .declarations us (.stmts body)) (hclosing : closing.kind = .rightBrace) :
    Rereads .routine (name :: left :: right :: opening :: (us ++ [closing]))
      (.routine (.mk name [] body)) := by
  intro n
  obtain ⟨body', m, hbody, halike⟩ := inside.stmts n
  exact ⟨_, m, .routineEmpty hname hleft hright hopening hbody hclosing,
    .routine (.mk name.alike_exceptNumbers .nil halike)⟩

/-- A routine with parameters. -/
theorem routineWith {names : List Token} (hname : name.kind = .identifier)
    (hleft : left.kind = .leftParen) (given : ∀ n, Reads .parameters n ts (.names names) n)
    (few : names.length ≤ 255) (hright : right.kind = .rightParen)
    (hopening : opening.kind = .leftBrace) (inside : Rereads .declarations us (.stmts body))
    (hclosing : closing.kind = .rightBrace) :
    Rereads .routine (name :: left :: (ts ++ right :: opening :: (us ++ [closing])))
      (.routine (.mk name names body)) := by
  intro n
  obtain ⟨body', m, hbody, halike⟩ := inside.stmts n
  have hnames : Token.AllAlike exceptNumbers names names :=
    List.forall₂_same.mpr fun t _ => t.alike_exceptNumbers
  exact ⟨_, m, .routineWith hname hleft (given n) few hright hopening hbody hclosing,
    .routine (.mk name.alike_exceptNumbers hnames halike)⟩

/-- A method with others behind it. -/
theorem methodsMore {r : Routine} {rs : List Routine} (first : Rereads .routine ts (.routine r))
    (others : Rereads .methods us (.routines rs)) :
    Rereads .methods (ts ++ us) (.routines (r :: rs)) := by
  intro n
  obtain ⟨r', m, hr, halike⟩ := first.routine n
  obtain ⟨rs', k, hrs, hall⟩ := others.routines m
  exact ⟨_, k, .methodsMore hr hrs, .routines (.cons halike hall)⟩

/-- A plain loop. -/
theorem statementWhile (h : keyword.kind = .kwWhile) (hleft : left.kind = .leftParen)
    (condition : Rereads .expression ts (.expr c)) (hright : right.kind = .rightParen)
    (inside : Rereads .statement us (.stmt s isOpen)) :
    Rereads .statement (keyword :: left :: (ts ++ right :: us)) (.stmt (.loop c s) isOpen) := by
  intro n
  obtain ⟨c', m, hc, hcondition⟩ := condition.expr n
  obtain ⟨s', isOpen', k, hs, hbody, hopen⟩ := inside.stmt m
  exact ⟨_, k, .statementWhile h hleft hc hright hs, .stmt (.loop hcondition hbody) hopen⟩

/-- A conditional with one branch. -/
theorem statementIf (h : keyword.kind = .kwIf) (hleft : left.kind = .leftParen)
    (condition : Rereads .expression ts (.expr c)) (hright : right.kind = .rightParen)
    (yes : Rereads .statement us (.stmt s isOpen)) :
    Rereads .statement (keyword :: left :: (ts ++ right :: us)) (.stmt (.ifThen c s) true) := by
  intro n
  obtain ⟨c', m, hc, hcondition⟩ := condition.expr n
  obtain ⟨s', isOpen', k, hs, hyes, -⟩ := yes.stmt m
  exact ⟨_, k, .statementIf h hleft hc hright hs, .stmt (.ifThen hcondition hyes) id⟩

/-- A conditional with two branches. -/
theorem statementElse {middle : Token} {vs : List Token} {s' : Stmt} (h : keyword.kind = .kwIf)
    (hleft : left.kind = .leftParen) (condition : Rereads .expression ts (.expr c))
    (hright : right.kind = .rightParen) (yes : Rereads .statement us (.stmt s false))
    (hmiddle : middle.kind = .kwElse) (no : Rereads .statement vs (.stmt s' isOpen)) :
    Rereads .statement (keyword :: left :: (ts ++ right :: (us ++ middle :: vs)))
      (.stmt (.ifElse c s s') isOpen) := by
  intro n
  obtain ⟨c', m, hc, hcondition⟩ := condition.expr n
  obtain ⟨_, k, hs, hyes⟩ := yes.closed m
  obtain ⟨_, isOpen', j, hs', hno, hopen⟩ := no.stmt k
  exact ⟨_, j, .statementElse h hleft hc hright hs hmiddle hs',
    .stmt (.ifElse hcondition hyes hno) hopen⟩

section Loop

variable {stop : Token} {is cs : List Token} {first : Option Stmt} {step : Option Expr}

/-- A loop with clauses, among them a condition. -/
theorem statementFor (h : keyword.kind = .kwFor) (hleft : left.kind = .leftParen)
    (initial : Rereads .forInitial is (.initial first))
    (condition : Rereads .expression cs (.expr c)) (hstop : stop.kind = .semicolon)
    (increment : Rereads .clause ts (.clause step)) (hright : right.kind = .rightParen)
    (inside : Rereads .statement us (.stmt s isOpen)) :
    Rereads .statement (keyword :: left :: (is ++ (cs ++ stop :: (ts ++ right :: us))))
      (.stmt (desugared first c step s) isOpen) := by
  intro n
  obtain ⟨first', m, hi, hfirst⟩ := initial.initial n
  obtain ⟨c', k, hc, hcondition⟩ := condition.expr m
  obtain ⟨step', j, he, hstep⟩ := increment.clause k
  obtain ⟨s', isOpen', i, hs, hbody, hopen⟩ := inside.stmt j
  exact ⟨_, i, .statementFor h hleft hi hc hstop he hright hs,
    .stmt (desugared_alike hfirst hcondition hstep hbody) hopen⟩

/-- A loop with clauses, but without a condition. -/
theorem statementForever {j : Nat} (h : keyword.kind = .kwFor) (hleft : left.kind = .leftParen)
    (initial : Rereads .forInitial is (.initial first)) (hstop : stop.kind = .semicolon)
    (increment : Rereads .clause ts (.clause step)) (hright : right.kind = .rightParen)
    (inside : Rereads .statement us (.stmt s isOpen)) :
    Rereads .statement (keyword :: left :: (is ++ stop :: (ts ++ right :: us)))
      (.stmt (desugared first (.literal j (.bool true)) step s) isOpen) := by
  intro n
  obtain ⟨first', m, hi, hfirst⟩ := initial.initial n
  obtain ⟨step', k, he, hstep⟩ := increment.clause m
  obtain ⟨s', isOpen', i, hs, hbody, hopen⟩ := inside.stmt k
  exact ⟨_, i + 1, .statementForever h hleft hi hstop he hright hs,
    .stmt (desugared_alike hfirst (.literal _ trivial) hstep hbody) hopen⟩

end Loop

/-- A block. -/
theorem statementBlock (hopening : opening.kind = .leftBrace)
    (inside : Rereads .declarations ts (.stmts body)) (hclosing : closing.kind = .rightBrace) :
    Rereads .statement (opening :: (ts ++ [closing])) (.stmt (.block body) false) := by
  intro n
  obtain ⟨body', m, hbody, halike⟩ := inside.stmts n
  exact ⟨_, m, .statementBlock hopening hbody hclosing, .stmt (.block halike) id⟩

/-- A statement among declarations. -/
theorem declarationStatement (inside : Rereads .statement ts (.stmt s isOpen)) :
    Rereads .declaration ts (.stmt s isOpen) := by
  intro n
  obtain ⟨s', isOpen', m, hs, halike, hopen⟩ := inside.stmt n
  exact ⟨_, m, .declarationStatement hs, .stmt halike hopen⟩

/-- A class. -/
theorem declarationClass {rs : List Routine} (h : keyword.kind = .kwClass)
    (hname : name.kind = .identifier) (hopening : opening.kind = .leftBrace)
    (inside : Rereads .methods ts (.routines rs)) (hclosing : closing.kind = .rightBrace) :
    Rereads .declaration (keyword :: name :: opening :: (ts ++ [closing]))
      (.stmt (.classDecl name rs) false) := by
  intro n
  obtain ⟨rs', m, hrs, hall⟩ := inside.routines n
  exact ⟨_, m, .declarationClass h hname hopening hrs hclosing,
    .stmt (.classDecl name.alike_exceptNumbers hall) id⟩

/-- A function. -/
theorem declarationFunction {r : Routine} (h : keyword.kind = .kwFunc)
    (inside : Rereads .routine ts (.routine r)) :
    Rereads .declaration (keyword :: ts) (.stmt (.function r) false) := by
  intro n
  obtain ⟨r', m, hr, halike⟩ := inside.routine n
  exact ⟨_, m, .declarationFunction h hr, .stmt (.function halike) id⟩

/-- A declaration with others behind it. -/
theorem declarationsMore (first : Rereads .declaration ts (.stmt s isOpen))
    (others : Rereads .declarations us (.stmts ss)) :
    Rereads .declarations (ts ++ us) (.stmts (s :: ss)) := by
  intro n
  obtain ⟨s', isOpen', m, hs, halike, -⟩ := first.stmt n
  obtain ⟨ss', k, hss, hall⟩ := others.stmts m
  exact ⟨_, k, .declarationsMore hs hss, .stmts (.cons halike hall)⟩

end Rereads

/-- Operands alike are joined alike. -/
theorem Level.join_alike {K : Likeness} (l : Level) {i i' : Nat} {a a' b b' : Expr}
    {t t' : Token} (hi : K.numbers i i') (ha : a.Alike K a') (ht : t.Alike K t')
    (hb : b.Alike K b') : (l.join i a t b).Alike K (l.join i' a' t' b') := by
  cases l with
  | disjunction | conjunction => exact .logical hi ha ht hb
  | equality | comparison | term | factor => exact .binary hi ha ht hb

/-- Parameters have no numbers, so they are read again from every number. -/
theorem Reads.parameters_from {n m : Nat} {ts names : List Token}
    (h : Reads .parameters n ts (.names names) m) (n' : Nat) :
    Reads .parameters n' ts (.names names) n' := by
  generalize hp : Part.parameters = p at h
  generalize hx : Node.names names = x at h
  induction h generalizing names with
  | parametersLast h =>
    cases hx
    exact .parametersLast h
  | parametersMore h hcomma _ ih =>
    cases hx
    exact .parametersMore h hcomma (ih rfl rfl)
  | _ => cases hp

/-- What is read is read again from every number. -/
theorem Reads.rereads {p : Part} {n m : Nat} {ts : List Token} {x : Node} (h : Reads p n ts x m) :
    Rereads p ts x := by
  induction h with
  | constant h => exact fun n => ⟨_, _, .constant h, .expr (.literal _ trivial)⟩
  | @receiver _ t h =>
    exact fun n => ⟨_, _, .receiver h, .expr (.receiver trivial t.alike_exceptNumbers)⟩
  | @name _ t h => exact fun n => ⟨_, _, .name h, .expr (.var trivial t.alike_exceptNumbers)⟩
  | group hleft _ hright ih =>
    intro n
    obtain ⟨e', m, he, halike⟩ := ih.expr n
    exact ⟨_, _, .group hleft he hright, .expr (.group trivial halike)⟩
  | callPrimary _ ih => exact ih.exprAs fun _ _ _ => .callPrimary
  | @callEmpty _ _ _ _ _ right _ hleft hright ih =>
    intro n
    obtain ⟨e', m, he, halike⟩ := ih.expr n
    exact ⟨_, _, .callEmpty he hleft hright,
      .expr (.call trivial halike right.alike_exceptNumbers .nil)⟩
  | @callWith _ _ _ _ _ _ _ right _ _ hleft _ few hright ih ihgiven =>
    intro n
    obtain ⟨e', m, he, halike⟩ := ih.expr n
    obtain ⟨es', k, hes, hall⟩ := ihgiven.exprs m
    exact ⟨_, _, .callWith he hleft hes (hall.length_eq ▸ few) hright,
      .expr (.call trivial halike right.alike_exceptNumbers hall)⟩
  | @callGet _ _ _ _ _ name _ hdot hname ih =>
    intro n
    obtain ⟨e', m, he, halike⟩ := ih.expr n
    exact ⟨_, _, .callGet he hdot hname, .expr (.get trivial halike name.alike_exceptNumbers)⟩
  | argumentsLast _ ih =>
    intro n
    obtain ⟨e', m, he, halike⟩ := ih.expr n
    exact ⟨_, m, .argumentsLast he, .exprs (.cons halike .nil)⟩
  | argumentsMore _ hcomma _ ih ihothers =>
    intro n
    obtain ⟨e', m, he, halike⟩ := ih.expr n
    obtain ⟨es', k, hes, hall⟩ := ihothers.exprs m
    exact ⟨_, k, .argumentsMore he hcomma hes, .exprs (.cons halike hall)⟩
  | unaryCall _ ih => exact ih.exprAs fun _ _ _ => .unaryCall
  | @unarySign _ _ _ _ operator h _ ih =>
    intro n
    obtain ⟨e', m, he, halike⟩ := ih.expr n
    exact ⟨_, _, .unarySign h he, .expr (.unary trivial operator.alike_exceptNumbers halike)⟩
  | levelOperand l _ ih => exact ih.exprAs fun _ _ _ => .levelOperand l
  | @levelJoin _ _ _ _ _ _ _ operator l _ h _ ih ihright =>
    intro n
    obtain ⟨a', m, ha, hleft⟩ := ih.expr n
    obtain ⟨b', k, hb, hright⟩ := ihright.expr m
    exact ⟨_, _, .levelJoin l ha h hb,
      .expr (l.join_alike trivial hleft operator.alike_exceptNumbers hright)⟩
  | assignmentPlain _ ih => exact ih.exprAs fun _ _ _ => .assignmentPlain
  | @assignmentVar _ _ _ name _ _ hname hsign _ ih =>
    intro n
    obtain ⟨e', m, he, halike⟩ := ih.expr (n + 1)
    exact ⟨_, _, .assignmentVar hname hsign he,
      .expr (.assign trivial name.alike_exceptNumbers halike)⟩
  | @assignmentSet _ _ _ _ _ _ _ _ name _ _ hdot hname hsign _ ih ihvalue =>
    intro n
    obtain ⟨o', m, ho, hobject⟩ := ih.expr n
    obtain ⟨e', k, he, hvalue⟩ := ihvalue.expr (m + 1)
    exact ⟨_, _, .assignmentSet ho hdot hname hsign he,
      .expr (.set trivial hobject name.alike_exceptNumbers hvalue)⟩
  | expression _ ih => exact ih.exprAs fun _ _ _ => .expression
  | clauseAbsent => exact fun n => ⟨_, n, .clauseAbsent, .clause .none⟩
  | clausePresent _ ih =>
    intro n
    obtain ⟨e', m, he, halike⟩ := ih.expr n
    exact ⟨_, m, .clausePresent he, .clause (.some halike)⟩
  | parametersLast h => exact fun n => ⟨_, n, .parametersLast h, .names _⟩
  | parametersMore h hcomma others _ =>
    exact fun n => ⟨_, n, .parametersMore h hcomma (others.parameters_from n), .names _⟩
  | routineEmpty hname hleft hright hopening _ hclosing ih =>
    exact .routineEmpty hname hleft hright hopening ih hclosing
  | routineWith hname hleft given few hright hopening _ hclosing _ ih =>
    exact .routineWith hname hleft given.parameters_from few hright hopening ih hclosing
  | methodsNone => exact fun n => ⟨_, n, .methodsNone, .routines .nil⟩
  | methodsMore _ _ ih ihothers => exact .methodsMore ih ihothers
  | @varBare _ name _ hname hstop =>
    exact fun n => ⟨_, n, .varBare hname hstop,
      .stmt (.var name.alike_exceptNumbers .none) id⟩
  | @varWith _ _ _ name _ _ _ hname hsign _ hstop ih =>
    intro n
    obtain ⟨e', m, he, halike⟩ := ih.expr n
    exact ⟨_, m, .varWith hname hsign he hstop,
      .stmt (.var name.alike_exceptNumbers (.some halike)) id⟩
  | exprStmt _ hstop ih =>
    intro n
    obtain ⟨e', m, he, halike⟩ := ih.expr n
    exact ⟨_, m, .exprStmt he hstop, .stmt (.expr halike) id⟩
  | initialAbsent hstop => exact fun n => ⟨_, n, .initialAbsent hstop, .initial .none⟩
  | initialVar h _ ih => exact ih.initialAs fun _ _ _ => .initialVar h
  | initialExpr _ ih => exact ih.initialAs fun _ _ _ => .initialExpr
  | statementExpr _ ih => exact ih.closedAs fun _ _ _ => .statementExpr
  | statementPrint h _ hstop ih =>
    intro n
    obtain ⟨e', m, he, halike⟩ := ih.expr n
    exact ⟨_, m, .statementPrint h he hstop, .stmt (.print halike) id⟩
  | @statementReturn _ _ keyword _ _ _ h _ hstop ih =>
    intro n
    obtain ⟨e', m, he, halike⟩ := ih.clause n
    exact ⟨_, m, .statementReturn h he hstop, .stmt (.ret keyword.alike_exceptNumbers halike) id⟩
  | statementWhile h hleft _ hright _ ih ihbody => exact .statementWhile h hleft ih hright ihbody
  | statementIf h hleft _ hright _ ih ihyes => exact .statementIf h hleft ih hright ihyes
  | statementElse h hleft _ hright _ hmiddle _ ih ihyes ihno =>
    exact .statementElse h hleft ih hright ihyes hmiddle ihno
  | statementFor h hleft _ _ hstop _ hright _ ihinitial ih ihincrement ihbody =>
    exact .statementFor h hleft ihinitial ih hstop ihincrement hright ihbody
  | statementForever h hleft _ hstop _ hright _ ihinitial ihincrement ihbody =>
    exact .statementForever h hleft ihinitial hstop ihincrement hright ihbody
  | statementBlock hopening _ hclosing ih => exact .statementBlock hopening ih hclosing
  | declarationStatement _ ih => exact .declarationStatement ih
  | declarationClass h hname hopening _ hclosing ih =>
    exact .declarationClass h hname hopening ih hclosing
  | declarationFunction h _ ih => exact .declarationFunction h ih
  | declarationVar h _ ih => exact ih.closedAs fun _ _ _ => .declarationVar h
  | declarationsNone => exact fun n => ⟨_, n, .declarationsNone, .stmts .nil⟩
  | declarationsMore _ _ ih ihothers => exact .declarationsMore ih ihothers

end Grammar

end Scriptlet
