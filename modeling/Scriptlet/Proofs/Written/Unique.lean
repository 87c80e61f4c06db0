import Scriptlet.Proofs.Decimal.Numeral
import Scriptlet.Proofs.Grammar.Acceptance
import Scriptlet.Proofs.Written.Recovered

/-!
# Nothing but texts is lost in writing

Every tree that is read off scanned tokens is known from what is written of it, if it has
no texts and no infinite numbers in it: this is an induction on its reading. So two such
trees that are written in the same way are the same, apart from numbers of expressions,
lines of tokens and closing parentheses of calls. A text may have spaces and parentheses
in it, and an infinite number is written as the name `inf` is.
-/

namespace Scriptlet

/-- A constant other than a text and an infinite number. -/
def Constant.Plain : Constant → Prop
  | .number x => ∀ negative, Decimal.Reading.ofFloat x ≠ .infinite negative
  | .text _ => False
  | .bool _ => True
  | .nil => True

/-- An expression other than the literal of a text or of an infinite number. -/
def Expr.Plain : Expr → Prop
  | .literal _ value => value.Plain
  | _ => True

/-- Whether all of some things are so. -/
def Throughout {α : Type} (P : α → Prop) (xs : List α) : Prop := ∀ x ∈ xs, P x

namespace Throughout

variable {α : Type} {P : α → Prop} {x : α} {xs ys : List α}

/-- The first one. -/
theorem head (h : Throughout P (x :: xs)) : P x := h x List.mem_cons_self

/-- Those behind the first one. -/
theorem tail (h : Throughout P (x :: xs)) : Throughout P xs :=
  fun y hy => h y (List.mem_cons_of_mem x hy)

/-- Those of the first list. -/
theorem left (h : Throughout P (xs ++ ys)) : Throughout P xs :=
  fun y hy => h y (List.mem_append_left ys hy)

/-- Those of the second list. -/
theorem right (h : Throughout P (xs ++ ys)) : Throughout P ys :=
  fun y hy => h y (List.mem_append_right xs hy)

end Throughout

namespace Token.Scanned

variable {t : Token}

/-- A scanned name. -/
theorem name (h : t.Scanned) (hkind : t.kind = .identifier) : t.Recovered :=
  h.recovered (by rw [hkind]; decide)

/-- A scanned operator. -/
theorem sign {kinds : List Kind} (h : t.Scanned) (hkind : t.kind ∈ kinds)
    (hkinds : kinds.all (fun kind => kind ∉ Kind.aside) = true) : t.Recovered :=
  h.recovered (by simpa using List.all_eq_true.mp hkinds _ hkind)

/-- A scanned word that is reserved has the text that is. -/
theorem reserved {kind : Kind} {word : String} (h : t.Scanned) (hkind : t.kind = kind)
    (hword : Kind.keywords.all (fun entry => entry.2 != kind || entry.1 == word) = true)
    (hfixed : Segment.fixedTexts.all (fun entry => entry.2 != kind) = true)
    (hshape : kind ∉ [Kind.string, .number, .identifier]) : t.lexeme = word := by
  have hlexeme := h.lexeme
  rw [hkind] at hlexeme
  generalize htext : t.lexeme.toList = text at hlexeme
  cases hlexeme with
  | fixed hmem => simpa using List.all_eq_true.mp hfixed _ hmem
  | string hbody => exact absurd (by decide) hshape
  | whole hne hdigits => exact absurd (by decide) hshape
  | decimal hne hdigits hplaces hothers => exact absurd (by decide) hshape
  | keyword hmem =>
    have hentry := List.all_eq_true.mp hword _ hmem
    rw [← htext, String.ofList_toList] at hentry
    simpa using hentry
  | identifier hisword hfree => exact absurd (by decide) hshape

/-- A scanned constant that is neither a text nor an infinite number. -/
theorem constant {n : Nat} {value : Constant} (h : t.Scanned)
    (hvalue : Grammar.constant? t = some value) (hplain : value.Plain) :
    (Expr.literal n value).Recovered := by
  have hliteral := h.literal
  unfold Grammar.constant? at hvalue
  split at hvalue
  · cases hvalue
    exact .bool false
  · cases hvalue
    exact .bool true
  · cases hvalue
    exact .nil
  · rename_i hkind
    rw [hliteral, hkind] at hvalue
    cases hvalue
    exact .number (Decimal.Reading.finite_of hplain (Decimal.numeral_isNumber _))
  · rename_i hkind
    rw [hliteral, hkind] at hvalue
    cases hvalue
    exact absurd hplain id
  · cases hvalue

end Token.Scanned

namespace Grammar

/-- What was read is known from what is written of it. -/
def Node.Recovered : Node → Prop
  | .expr e => e.Recovered
  | .exprs es => ∀ e ∈ es, e.Recovered
  | .clause e => ∀ value ∈ e, value.Recovered
  | .names ts => ∀ t ∈ ts, t.Recovered
  | .routine r => r.Recovered
  | .routines rs => ∀ r ∈ rs, r.Recovered
  | .initial s => ∀ first ∈ s, first.Recovered
  | .stmt s _ => s.Recovered
  | .stmts ss => ∀ s ∈ ss, s.Recovered

/-- A level joins by words that decide, or else by operators of two operands, and its operators
are no words that need more than their text. -/
theorem Level.operators_cases (l : Level) :
    l.operators.all (fun kind => kind ∉ Kind.aside) = true ∧
      (l.join = .logical ∧ (∀ kind ∈ l.operators, kind ∈ [Kind.kwAnd, .kwOr]) ∨
        l.join = .binary ∧ ∀ kind ∈ l.operators, kind ∈ binaryOperators) := by
  cases l with
  | disjunction | conjunction => exact ⟨by decide, .inl ⟨rfl, by decide⟩⟩
  | equality | comparison | term | factor => exact ⟨by decide, .inr ⟨rfl, by decide⟩⟩

/-- Operands joined by an operator of a level. -/
theorem Level.join_recovered {l : Level} {n : Nat} {a b : Expr} {t : Token} (ht : t.Scanned)
    (h : t.kind ∈ l.operators) (ha : a.Recovered) (hb : b.Recovered) :
    (l.join n a t b).Recovered := by
  obtain ⟨haside, ⟨hjoin, hkinds⟩ | ⟨hjoin, hkinds⟩⟩ := l.operators_cases
  · rw [hjoin]
    exact .logical (ht.sign h haside) (hkinds _ h) ha hb
  · rw [hjoin]
    exact .binary (ht.sign h haside) (hkinds _ h) ha hb

/-- The expressions of a level with its operator. -/
theorem Level.plain_join {l : Level} {n : Nat} {a b : Expr} {t : Token}
    (h : Throughout Expr.Plain (l.join n a t b).nodes) :
    Throughout Expr.Plain a.nodes ∧ Throughout Expr.Plain b.nodes := by
  rcases l.join_cases with hjoin | ⟨hjoin, -⟩
  · rw [hjoin] at h
    exact ⟨h.tail.left, h.tail.right⟩
  · rw [hjoin] at h
    exact ⟨h.tail.left, h.tail.right⟩

/-- A loop with clauses is known when its clauses and its body are. -/
theorem desugared_recovered {initial : Option Stmt} {condition : Expr} {step : Option Expr}
    {body : Stmt} (hinitial : ∀ first ∈ initial, first.Recovered) (hcondition : condition.Recovered)
    (hstep : ∀ value ∈ step, value.Recovered) (hbody : body.Recovered) :
    (desugared initial condition step body).Recovered := by
  have hloop : ∀ inside : Stmt, inside.Recovered →
      (desugared initial condition none inside).Recovered := by
    intro inside hinside
    cases initial with
    | none => exact .loop hcondition hinside
    | some first =>
      refine .block (List.forall_mem_cons.mpr ⟨hinitial first rfl, ?_⟩)
      exact List.forall_mem_singleton.mpr (.loop hcondition hinside)
  cases step with
  | none => exact hloop body hbody
  | some value =>
    have hinside : (Stmt.block [body, .expr value]).Recovered := by
      refine .block (List.forall_mem_cons.mpr ⟨hbody, ?_⟩)
      exact List.forall_mem_singleton.mpr (.expr (hstep value rfl))
    cases initial with
    | none => exact hloop _ hinside
    | some first => exact hloop _ hinside

/-- The expressions of a loop with clauses are those of its clauses and its body. -/
theorem plain_desugared {initial : Option Stmt} {condition : Expr} {step : Option Expr}
    {body : Stmt} (h : Throughout Expr.Plain (desugared initial condition step body).exprs) :
    Throughout Expr.Plain (exprsOfFound initial) ∧ Throughout Expr.Plain condition.nodes ∧
      Throughout Expr.Plain (Expr.nodesOfOption step) ∧ Throughout Expr.Plain body.exprs := by
  have hall : Throughout Expr.Plain
      (exprsOfFound initial ++ (condition.nodes ++ (Expr.nodesOfOption step ++ body.exprs))) := by
    intro e he
    refine h e ?_
    rw [← forLoop_eq_desugared]
    exact (forLoop_perm initial condition step body).mem_iff.mp he
  exact ⟨hall.left, hall.right.left, hall.right.right.left, hall.right.right.right⟩

/-- What is read off scanned tokens is known from what is written of it, if there is neither a text
nor an infinite number in it. -/
theorem Reads.recovered {p : Part} {n m : Nat} {ts : List Token} {x : Node} (h : Reads p n ts x m)
    (hts : Throughout Token.Scanned ts) (hplain : Throughout Expr.Plain x.nodes) :
    x.Recovered := by
  induction h with
  | constant h => exact hts.head.constant h hplain.head
  | receiver h =>
    exact .receiver (hts.head.recovered (by rw [h]; decide))
      (hts.head.reserved h (by decide) (by decide) (by decide))
  | name h => exact .var (hts.head.name h) h (hts.head.isWord h)
  | group _ _ _ ih => exact .group (ih hts.tail.left hplain.tail)
  | callPrimary _ ih => exact ih hts hplain
  | callEmpty _ _ _ ih =>
    exact .call (ih hts.left hplain.tail.left) fun _ hmem => absurd hmem List.not_mem_nil
  | callWith _ _ _ _ _ ih ihgiven =>
    exact .call (ih hts.left hplain.tail.left) (ihgiven hts.right.tail.left hplain.tail.right)
  | callGet _ _ hname ih => exact .get (ih hts.left hplain.tail) (hts.right.tail.head.name hname)
  | argumentsLast _ ih => exact List.forall_mem_singleton.mpr (ih hts hplain.left)
  | argumentsMore _ _ _ ih ihothers =>
    exact List.forall_mem_cons.mpr ⟨ih hts.left hplain.left, ihothers hts.right.tail hplain.right⟩
  | unaryCall _ ih => exact ih hts hplain
  | unarySign h _ ih =>
    exact .unary (hts.head.sign h (by decide)) h (ih hts.tail hplain.tail)
  | levelOperand _ _ ih => exact ih hts hplain
  | levelJoin l _ h _ ih ihright =>
    obtain ⟨hleft, hright⟩ := Level.plain_join hplain
    exact Level.join_recovered hts.right.head h (ih hts.left hleft) (ihright hts.right.tail hright)
  | assignmentPlain _ ih => exact ih hts hplain
  | assignmentVar hname _ _ ih =>
    exact .assign (hts.head.name hname) (ih hts.tail.tail hplain.tail)
  | assignmentSet _ _ hname _ _ ih ihvalue =>
    exact .set (ih hts.left hplain.tail.left) (hts.right.tail.head.name hname)
      (ihvalue hts.right.tail.tail.tail hplain.tail.right)
  | expression _ ih => exact ih hts hplain
  | clauseAbsent => exact fun _ hmem => nomatch hmem
  | clausePresent _ ih =>
    rintro value ⟨⟩
    exact ih hts hplain
  | parametersLast h => exact List.forall_mem_singleton.mpr (hts.head.name h)
  | parametersMore h _ _ ih =>
    exact List.forall_mem_cons.mpr ⟨hts.head.name h, ih hts.tail.tail hplain⟩
  | routineEmpty hname _ _ _ _ _ ih =>
    exact Routine.Recovered.declared (hts.head.name hname)
      (fun _ hmem => absurd hmem List.not_mem_nil) (ih hts.tail.tail.tail.tail.left hplain)
  | routineWith hname _ _ _ _ _ _ _ ihgiven ih =>
    exact Routine.Recovered.declared (hts.head.name hname)
      (ihgiven hts.tail.tail.left fun _ hmem => absurd hmem List.not_mem_nil)
      (ih hts.tail.tail.right.tail.tail.left hplain)
  | methodsNone => exact fun _ hmem => absurd hmem List.not_mem_nil
  | methodsMore _ _ ih ihothers =>
    exact List.forall_mem_cons.mpr ⟨ih hts.left hplain.left, ihothers hts.right hplain.right⟩
  | varBare hname _ => exact .varBare (hts.head.name hname)
  | varWith hname _ _ _ ih =>
    exact .varWith (hts.head.name hname) (ih hts.tail.tail.left hplain)
  | exprStmt _ _ ih => exact .expr (ih hts.left hplain)
  | initialAbsent => exact fun _ hmem => nomatch hmem
  | initialVar _ _ ih =>
    rintro first ⟨⟩
    exact ih hts.tail hplain.left
  | initialExpr _ ih =>
    rintro first ⟨⟩
    exact ih hts hplain.left
  | statementExpr _ ih => exact ih hts hplain
  | statementPrint _ _ _ ih => exact .print (ih hts.tail.left hplain)
  | @statementReturn _ _ keyword _ _ e h _ _ ih =>
    have hkeyword := hts.head.recovered (by rw [h]; decide)
    have hlexeme : keyword.lexeme = "return" :=
      hts.head.reserved h (by decide) (by decide) (by decide)
    cases e with
    | none => exact .retBare hkeyword hlexeme
    | some value => exact .retWith hkeyword hlexeme (ih hts.tail.left hplain value rfl)
  | statementWhile _ _ _ _ _ ih ihbody =>
    exact .loop (ih hts.tail.tail.left hplain.left) (ihbody hts.tail.tail.right.tail hplain.right)
  | statementIf _ _ _ _ _ ih ihyes =>
    exact .ifThen (ih hts.tail.tail.left hplain.left) (ihyes hts.tail.tail.right.tail hplain.right)
  | statementElse _ _ _ _ _ _ _ ih ihyes ihno =>
    exact .ifElse (ih hts.tail.tail.left hplain.left.left)
      (ihyes hts.tail.tail.right.tail.left hplain.left.right)
      (ihno hts.tail.tail.right.tail.right.tail hplain.right)
  | statementFor _ _ _ _ _ _ _ _ ihinitial ihcondition ihstep ihbody =>
    obtain ⟨hinitial, hcondition, hstep, hbody⟩ := plain_desugared hplain
    have hclauses := hts.tail.tail
    exact desugared_recovered (ihinitial hclauses.left hinitial)
      (ihcondition hclauses.right.left hcondition) (ihstep hclauses.right.right.tail.left hstep)
      (ihbody hclauses.right.right.tail.right.tail hbody)
  | statementForever _ _ _ _ _ _ _ ihinitial ihstep ihbody =>
    obtain ⟨hinitial, -, hstep, hbody⟩ := plain_desugared hplain
    have hclauses := hts.tail.tail
    exact desugared_recovered (ihinitial hclauses.left hinitial) (.bool true)
      (ihstep hclauses.right.tail.left hstep) (ihbody hclauses.right.tail.right.tail hbody)
  | statementBlock _ _ _ ih => exact .block (ih hts.tail.left hplain)
  | declarationStatement _ ih => exact ih hts hplain
  | declarationClass _ hname _ _ _ ih =>
    exact .classDecl (hts.tail.head.name hname) (ih hts.tail.tail.tail.left hplain)
  | declarationFunction _ _ ih => exact .function (ih hts.tail hplain)
  | declarationVar _ _ ih => exact ih hts.tail hplain
  | declarationsNone => exact fun _ hmem => absurd hmem List.not_mem_nil
  | declarationsMore _ _ ih ihothers =>
    exact List.forall_mem_cons.mpr ⟨ih hts.left hplain.left, ihothers hts.right hplain.right⟩

/-- Every statement of a program is read off some of its tokens. -/
theorem Reads.member {n m : Nat} {ts : List Token} {ss : List Stmt} {s : Stmt}
    (h : Reads .declarations n ts (.stmts ss) m) (hs : s ∈ ss) :
    ∃ i j us isOpen, Reads .declaration i us (.stmt s isOpen) j ∧ us ⊆ ts := by
  induction ss generalizing n ts with
  | nil => exact absurd hs List.not_mem_nil
  | cons first rest ih =>
    cases h with
    | declarationsMore hfirst hothers =>
      rcases List.mem_cons.mp hs with rfl | hs
      · exact ⟨_, _, _, _, hfirst, List.subset_append_left _ _⟩
      · obtain ⟨i, j, us, isOpen, hread, hsubset⟩ := ih hothers hs
        exact ⟨i, j, us, isOpen, hread, fun t ht => List.mem_append_right _ (hsubset ht)⟩

/-- A statement that a parse without errors keeps is known from what is written of it, if there is
neither a text nor an infinite number in it. -/
theorem parse_recovered {source : String} {n : Nat} {p : Stmt}
    (clean : (parse (scan source).tokens n).errors = [])
    (hp : p ∈ (parse (scan source).tokens n).program) (hplain : ∀ e ∈ p.exprs, e.Plain) :
    p.Recovered := by
  have hproper := tokensIn_proper 1 (Segment.split_proper source.toList)
  have hscanned := scan_scanned source
  rw [scan_tokens] at clean hp
  have hreads := reads_of_parse (fun t ht => (hproper t ht).1) rfl clean
  obtain ⟨i, j, us, isOpen, hread, hsubset⟩ := hreads.member hp
  exact hread.recovered (fun t ht => hscanned t (hsubset ht)) hplain

/-- The written form of a tree loses nothing but texts. Two statements that parses of scanned
sources without errors keep, with neither texts nor infinite numbers in them, are written in the
same way exactly when they are the same apart from the numbers of expressions, the lines of tokens
and the closing parentheses of calls. -/
theorem render_eq_iff {source source' : String} {n n' : Nat} {p q : Stmt}
    (clean : (parse (scan source).tokens n).errors = [])
    (clean' : (parse (scan source').tokens n').errors = [])
    (hp : p ∈ (parse (scan source).tokens n).program)
    (hq : q ∈ (parse (scan source').tokens n').program)
    (hplain : ∀ e ∈ p.exprs, e.Plain) (hplain' : ∀ e ∈ q.exprs, e.Plain) :
    p.render = q.render ↔ p.bare = q.bare := by
  have hknown := parse_recovered clean hp hplain
  have hknown' := parse_recovered clean' hq hplain'
  have htext : p.render = q.render ↔ p.form.text = q.form.text := by
    rw [← Stmt.toList_render, ← Stmt.toList_render, String.toList_inj]
  rw [htext]
  constructor
  · intro h
    rw [← hknown.back, ← hknown'.back, Form.text_inj hknown.proper hknown'.proper h]
  · intro h
    rw [← p.form_bare, ← q.form_bare, h]

/-- A text is written as a name is. -/
example : (Expr.literal 0 (.text "a")).render = (Expr.var 0 ⟨.identifier, "a", none, 1⟩).render :=
  rfl

/-- The statement `a.b = f(nil);` on one line. -/
def onOneLine : Stmt :=
  .expr (.set 5 (.var 0 ⟨.identifier, "a", none, 1⟩) ⟨.identifier, "b", none, 1⟩
    (.call 4 (.var 2 ⟨.identifier, "f", none, 1⟩) ⟨.rightParen, ")", none, 1⟩ [.literal 3 .nil]))

/-- The same statement over three lines, numbered from seven on. -/
def onThreeLines : Stmt :=
  .expr (.set 12 (.var 7 ⟨.identifier, "a", none, 1⟩) ⟨.identifier, "b", none, 1⟩
    (.call 11 (.var 9 ⟨.identifier, "f", none, 3⟩) ⟨.rightParen, ")", none, 3⟩ [.literal 10 .nil]))

/-- One statement in two layouts is written in the same way. -/
theorem render_onOneLine :
    (parse (scan "a.b = f(nil);").tokens 0).errors = [] ∧
      (parse (scan "a . b\n=\nf ( nil ) ;").tokens 7).errors = [] ∧
      onOneLine ∈ (parse (scan "a.b = f(nil);").tokens 0).program ∧
      onThreeLines ∈ (parse (scan "a . b\n=\nf ( nil ) ;").tokens 7).program ∧
      (∀ e ∈ onOneLine.exprs, e.Plain) ∧ (∀ e ∈ onThreeLines.exprs, e.Plain) ∧
      onOneLine.render = onThreeLines.render ∧ onOneLine.bare = onThreeLines.bare := by
  have hscan : (scan "a.b = f(nil);").tokens =
      [⟨.identifier, "a", none, 1⟩, ⟨.dot, ".", none, 1⟩, ⟨.identifier, "b", none, 1⟩,
        ⟨.equal, "=", none, 1⟩, ⟨.identifier, "f", none, 1⟩, ⟨.leftParen, "(", none, 1⟩,
        ⟨.kwNil, "nil", none, 1⟩, ⟨.rightParen, ")", none, 1⟩, ⟨.semicolon, ";", none, 1⟩,
        Token.endAt 1] := by
    decide
  have hscan' : (scan "a . b\n=\nf ( nil ) ;").tokens =
      [⟨.identifier, "a", none, 1⟩, ⟨.dot, ".", none, 1⟩, ⟨.identifier, "b", none, 1⟩,
        ⟨.equal, "=", none, 2⟩, ⟨.identifier, "f", none, 3⟩, ⟨.leftParen, "(", none, 3⟩,
        ⟨.kwNil, "nil", none, 3⟩, ⟨.rightParen, ")", none, 3⟩, ⟨.semicolon, ";", none, 3⟩,
        Token.endAt 3] := by
    decide
  have hparse : parse (scan "a.b = f(nil);").tokens 0 = ⟨[onOneLine], [], 6⟩ := by
    rw [hscan]
    cbv
  have hparse' : parse (scan "a . b\n=\nf ( nil ) ;").tokens 7 = ⟨[onThreeLines], [], 13⟩ := by
    rw [hscan']
    cbv
  have hplain : ∀ e ∈ onOneLine.exprs, e.Plain := by
    simp [onOneLine, Stmt.exprs, Expr.nodes, Expr.nodesOfAll, Expr.Plain, Constant.Plain]
  have hplain' : ∀ e ∈ onThreeLines.exprs, e.Plain := by
    simp [onThreeLines, Stmt.exprs, Expr.nodes, Expr.nodesOfAll, Expr.Plain, Constant.Plain]
  have hclean : (parse (scan "a.b = f(nil);").tokens 0).errors = [] := by rw [hparse]
  have hclean' : (parse (scan "a . b\n=\nf ( nil ) ;").tokens 7).errors = [] := by rw [hparse']
  have hkept : onOneLine ∈ (parse (scan "a.b = f(nil);").tokens 0).program := by
    rw [hparse]
    exact List.mem_cons_self
  have hkept' : onThreeLines ∈ (parse (scan "a . b\n=\nf ( nil ) ;").tokens 7).program := by
    rw [hparse']
    exact List.mem_cons_self
  have hsame : onOneLine.render = onThreeLines.render := by cbv
  exact ⟨hclean, hclean', hkept, hkept', hplain, hplain', hsame,
    (render_eq_iff hclean hclean' hkept hkept' hplain hplain').mp hsame⟩

end Grammar

end Scriptlet
