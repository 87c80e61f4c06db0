import Scriptlet.Proofs.Grammar.Derives

/-!
# What is derivable can be read

The kinds all of whose tokens can be read obey the rules, so they include what is
derivable. The rules leave open to which of several conditionals an `else`
belongs; a reading gives it to the innermost one that is still open. Together
with the converse, tokens can be read as a program exactly when their kinds are
derivable from `program`.
-/

namespace Scriptlet.Grammar

open Phrase

/-- A statement that is open for an `else` takes one with a statement behind it. -/
theorem Reads.attach {middle : Token} {vs : List Token} (hmiddle : middle.kind = .kwElse)
    (behind : ∀ k, ∃ s isOpen j, Reads .statement k vs (.stmt s isOpen) j) {n m : Nat}
    {ts : List Token} {s : Stmt} (h : Reads .statement n ts (.stmt s true) m) :
    ∃ s' isOpen j, Reads .statement n (ts ++ middle :: vs) (.stmt s' isOpen) j := by
  generalize hp : Part.statement = p at h
  generalize hx : Node.stmt s true = x at h
  induction h generalizing s with
  | statementWhile h hleft condition hright _ _ ih =>
    cases hx
    obtain ⟨s', isOpen, j, hbody⟩ := ih rfl rfl
    simp only [List.cons_append, List.append_assoc]
    exact ⟨_, _, _, .statementWhile h hleft condition hright hbody⟩
  | @statementIf _ _ _ _ _ _ _ _ _ _ isOpen h hleft condition hright yes _ ih =>
    cases isOpen with
    | true =>
      obtain ⟨s', isOpen, j, hyes⟩ := ih rfl rfl
      simp only [List.cons_append, List.append_assoc]
      exact ⟨_, _, _, .statementIf h hleft condition hright hyes⟩
    | false =>
      obtain ⟨s', isOpen, j, hno⟩ := behind _
      simp only [List.cons_append, List.append_assoc]
      exact ⟨_, _, _, .statementElse h hleft condition hright yes hmiddle hno⟩
  | statementElse h hleft condition hright yes hmiddle' _ _ _ ih =>
    cases hx
    obtain ⟨s', isOpen, j, hno⟩ := ih rfl rfl
    simp only [List.cons_append, List.append_assoc]
    exact ⟨_, _, _, .statementElse h hleft condition hright yes hmiddle' hno⟩
  | statementFor h hleft initial condition hstop increment hright _ _ _ _ ih =>
    cases hx
    obtain ⟨s', isOpen, j, hbody⟩ := ih rfl rfl
    simp only [List.cons_append, List.append_assoc]
    exact ⟨_, _, _, .statementFor h hleft initial condition hstop increment hright hbody⟩
  | statementForever h hleft initial hstop increment hright _ _ _ ih =>
    cases hx
    obtain ⟨s', isOpen, j, hbody⟩ := ih rfl rfl
    simp only [List.cons_append, List.append_assoc]
    exact ⟨_, _, _, .statementForever h hleft initial hstop increment hright hbody⟩
  | statementExpr | statementPrint | statementReturn | statementBlock => cases hx
  | _ => cases hp

/-- What it is to read tokens as what a symbol stands for, numbering from `n` on. -/
def ReadAs (n : Nat) (ts : List Token) : Symbol → Prop
  | .program => ∃ ss m, Reads .declarations n ts (.stmts ss) m
  | .declaration => ∃ s isOpen m, Reads .declaration n ts (.stmt s isOpen) m
  | .classDecl | .funcDecl => ∃ s m, Reads .declaration n ts (.stmt s false) m
  | .function => ∃ r m, Reads .routine n ts (.routine r) m
  | .varDecl => ∃ keyword us s m, ts = keyword :: us ∧ keyword.kind = .kwVar ∧
      Reads .varDecl n us (.stmt s false) m
  | .exprStmt => ∃ s m, Reads .exprStmt n ts (.stmt s false) m
  | .statement | .forStmt | .ifStmt | .printStmt | .returnStmt | .whileStmt =>
    ∃ s isOpen m, Reads .statement n ts (.stmt s isOpen) m
  | .block => ∃ opening us ss closing m, ts = opening :: (us ++ [closing]) ∧
      opening.kind = .leftBrace ∧ closing.kind = .rightBrace ∧
      Reads .declarations n us (.stmts ss) m
  | .expression => ∃ e m, Reads .expression n ts (.expr e) m
  | .assignment => ∃ e m, Reads .assignment n ts (.expr e) m
  | .logicOr => ∃ e m, Reads (.level .disjunction) n ts (.expr e) m
  | .logicAnd => ∃ e m, Reads (.level .conjunction) n ts (.expr e) m
  | .equality => ∃ e m, Reads (.level .equality) n ts (.expr e) m
  | .comparison => ∃ e m, Reads (.level .comparison) n ts (.expr e) m
  | .term => ∃ e m, Reads (.level .term) n ts (.expr e) m
  | .factor => ∃ e m, Reads (.level .factor) n ts (.expr e) m
  | .unary => ∃ e m, Reads .unary n ts (.expr e) m
  | .call => ∃ e m, Reads .call n ts (.expr e) m
  | .primary => ∃ e m, Reads .primary n ts (.expr e) m
  | .arguments => ∃ es m, Reads .arguments n ts (.exprs es) m ∧ es.length ≤ 255
  | .parameters => ∃ names, Reads .parameters n ts (.names names) n ∧ names.length ≤ 255

/-- Kinds such that all tokens of these kinds can be read, whatever the first number. -/
def Readable (s : Symbol) (kinds : List Kind) : Prop :=
  ∀ ts : List Token, ts.map Token.kind = kinds → ∀ n, ReadAs n ts s

/-- The languages of what can be read obey the rule of a symbol. -/
abbrev ObeysRule (s : Symbol) : Prop :=
  ∀ (ts : List Token) (n : Nat), (rules s).Fits Readable (ts.map Token.kind) → ReadAs n ts s

/-- A token of a kind of constant stands for one. -/
theorem constant_of_kind {t : Token}
    (h : t.kind ∈ [Kind.number, .string, .kwTrue, .kwFalse, .kwNil]) :
    ∃ value, constant? t = some value := by
  unfold constant?
  simp only [List.mem_cons, List.not_mem_nil, or_false] at h
  rcases h with h | h | h | h | h
  all_goals
    rw [h]
    dsimp only
  · cases t.literal with
    | none => exact ⟨_, rfl⟩
    | some literal => cases literal <;> exact ⟨_, rfl⟩
  · cases t.literal with
    | none => exact ⟨_, rfl⟩
    | some literal => cases literal <;> exact ⟨_, rfl⟩
  · exact ⟨_, rfl⟩
  · exact ⟨_, rfl⟩
  · exact ⟨_, rfl⟩

/-- Primary expressions. -/
theorem obeysRule_primary : ObeysRule .primary := by
  intro ts n h
  rcases h with h | h
  · obtain ⟨t, rfl, ht⟩ := fits_tokenOf.mp h
    by_cases hthis : t.kind = .kwThis
    · exact ⟨_, _, .receiver hthis⟩
    by_cases hname : t.kind = .identifier
    · exact ⟨_, _, .name hname⟩
    obtain ⟨value, hvalue⟩ : ∃ value, constant? t = some value := by
      apply constant_of_kind
      simpa [hthis, hname] using ht
    exact ⟨_, _, .constant hvalue⟩
  · obtain ⟨left, us, rfl, hleft, h⟩ := fits_cons.mp h
    obtain ⟨us, vs, rfl, hinner, h⟩ := fits_pair.mp h
    obtain ⟨right, rfl, hright⟩ := fits_token.mp h
    obtain ⟨e, m, hread⟩ := hinner us rfl n
    exact ⟨_, _, .group hleft hread hright⟩

/-- Calls and properties behind a primary expression. -/
theorem obeysRule_call : ObeysRule .call := by
  intro ts n h
  obtain ⟨us, vs, rfl, hprimary, h⟩ := fits_pair.mp h
  obtain ⟨pieces, rfl, -, hall⟩ := fits_many.mp h
  obtain ⟨e, m, hread⟩ := hprimary us rfl n
  have hloop : ∀ (pieces : List (List Token)) (us : List Token) (e : Expr) (m : Nat),
      (∀ piece ∈ pieces, (oneOf (row [token .leftParen, Phrase.optional (symbol .arguments),
        token .rightParen]) [row [token .dot, token .identifier]]).Fits Readable
          (piece.map Token.kind)) →
      Reads .call n us (.expr e) m → ∃ e' m', Reads .call n (us ++ pieces.flatten) (.expr e') m' := by
    intro pieces
    induction pieces with
    | nil =>
      intro us e m _ hread
      rw [List.flatten_nil, List.append_nil]
      exact ⟨e, m, hread⟩
    | cons piece pieces ih =>
      intro us e m hall hread
      have hmore := fun e' m' => ih (us ++ piece) e' m' fun _ hmem => hall _ (List.mem_cons_of_mem _ hmem)
      rw [List.flatten_cons, ← List.append_assoc]
      rcases hall piece List.mem_cons_self with h | h
      · obtain ⟨left, vs, rfl, hleft, h⟩ := fits_cons.mp h
        obtain ⟨vs, ws, rfl, hgiven, h⟩ := fits_pair.mp h
        obtain ⟨right, rfl, hright⟩ := fits_token.mp h
        rcases hgiven with hgiven | hnone
        · obtain ⟨es, k, hes, hfew⟩ := hgiven vs rfl m
          exact hmore _ _ (.callWith hread hleft hes hfew hright)
        · rw [fits_nothing.mp hnone] at hmore ⊢
          exact hmore _ _ (.callEmpty hread hleft hright)
      · obtain ⟨dot, vs, rfl, hdot, h⟩ := fits_cons.mp h
        obtain ⟨name, rfl, hname⟩ := fits_token.mp h
        exact hmore _ _ (.callGet hread hdot hname)
  exact hloop pieces us e m hall (.callPrimary hread)

/-- Operands of a level. -/
theorem readAs_operand (l : Level) {ts : List Token} (n : Nat)
    (h : (l.operand.phrase 0).Fits Readable (ts.map Token.kind)) :
    ∃ e m, Reads l.operand n ts (.expr e) m := by
  cases l <;> exact h ts rfl n

/-- Operators of a level and operands behind a first operand. -/
theorem readAs_level (l : Level) {ts : List Token} (n : Nat)
    (h : (rules l.symbol).Fits Readable (ts.map Token.kind)) :
    ∃ e m, Reads (.level l) n ts (.expr e) m := by
  obtain ⟨kind, kinds, hrule, hkinds⟩ := l.rules_symbol
  rw [hrule] at h
  obtain ⟨us, vs, rfl, hfirst, h⟩ := fits_pair.mp h
  obtain ⟨pieces, rfl, -, hall⟩ := fits_many.mp h
  obtain ⟨e, m, hread⟩ := readAs_operand l n hfirst
  have hloop : ∀ (pieces : List (List Token)) (us : List Token) (e : Expr) (m : Nat),
      (∀ piece ∈ pieces,
        (pair (tokenOf kind kinds) (l.operand.phrase 0)).Fits Readable (piece.map Token.kind)) →
      Reads (.level l) n us (.expr e) m →
        ∃ e' m', Reads (.level l) n (us ++ pieces.flatten) (.expr e') m' := by
    intro pieces
    induction pieces with
    | nil =>
      intro us e m _ hread
      rw [List.flatten_nil, List.append_nil]
      exact ⟨e, m, hread⟩
    | cons piece pieces ih =>
      intro us e m hall hread
      obtain ⟨ops, ws, rfl, hop, hright⟩ := fits_pair.mp (hall _ List.mem_cons_self)
      obtain ⟨operator, rfl, hoperator⟩ := fits_tokenOf.mp hop
      obtain ⟨b, k, hb⟩ := readAs_operand l m hright
      rw [List.flatten_cons, ← List.append_assoc]
      exact ih _ _ _ (fun _ hmem => hall _ (List.mem_cons_of_mem _ hmem))
        (.levelJoin l hread ((hkinds _).mp hoperator) hb)
  exact hloop pieces us e m hall (.levelOperand l hread)

/-- Signed operands. -/
theorem obeysRule_unary : ObeysRule .unary := by
  intro ts n h
  rcases h with h | h
  · obtain ⟨ops, us, rfl, hop, hinner⟩ := fits_pair.mp h
    obtain ⟨operator, rfl, hoperator⟩ := fits_tokenOf.mp hop
    obtain ⟨e, m, hread⟩ := hinner us rfl n
    exact ⟨_, _, .unarySign hoperator hread⟩
  · obtain ⟨e, m, hread⟩ := h ts rfl n
    exact ⟨e, m, .unaryCall hread⟩

/-- Assignments. -/
theorem obeysRule_assignment : ObeysRule .assignment := by
  intro ts n h
  rcases h with h | h
  · obtain ⟨us, vs, rfl, htarget, h⟩ := fits_pair.mp h
    obtain ⟨name, vs, rfl, hname, h⟩ := fits_cons.mp h
    obtain ⟨sign, vs, rfl, hsign, hvalue⟩ := fits_cons.mp h
    rcases htarget with htarget | hnone
    · obtain ⟨us, ws, rfl, hobject, h⟩ := fits_pair.mp htarget
      obtain ⟨dot, rfl, hdot⟩ := fits_token.mp h
      obtain ⟨o, m, ho⟩ := hobject us rfl n
      obtain ⟨e, k, he⟩ := hvalue vs rfl (m + 1)
      rw [List.append_assoc]
      exact ⟨_, _, .assignmentSet ho hdot hname hsign he⟩
    · rw [fits_nothing.mp hnone]
      obtain ⟨e, k, he⟩ := hvalue vs rfl (n + 1)
      exact ⟨_, _, .assignmentVar hname hsign he⟩
  · obtain ⟨e, m, hread⟩ := h ts rfl n
    exact ⟨e, m, .assignmentPlain hread⟩

/-- Arguments. -/
theorem obeysRule_arguments : ObeysRule .arguments := by
  intro ts n h
  obtain ⟨us, vs, rfl, hfirst, h⟩ := fits_pair.mp h
  obtain ⟨pieces, rfl, hbound, hall⟩ := fits_many.mp h
  have hlength : pieces.length ≤ 254 := hbound 254 rfl
  have hlist : ∀ (pieces : List (List Token)) (us : List Token) (n : Nat),
      Readable .expression (us.map Token.kind) →
      (∀ piece ∈ pieces,
        (pair (token .comma) (symbol .expression)).Fits Readable (piece.map Token.kind)) →
      ∃ es m, Reads .arguments n (us ++ pieces.flatten) (.exprs es) m ∧
        es.length = pieces.length + 1 := by
    intro pieces
    induction pieces with
    | nil =>
      intro us n hfirst _
      obtain ⟨e, m, he⟩ := hfirst us rfl n
      rw [List.flatten_nil, List.append_nil]
      exact ⟨[e], m, .argumentsLast he, rfl⟩
    | cons piece pieces ih =>
      intro us n hfirst hall
      obtain ⟨comma, ws, rfl, hcomma, hnext⟩ := fits_cons.mp (hall piece List.mem_cons_self)
      obtain ⟨e, m, he⟩ := hfirst us rfl n
      obtain ⟨es, k, hes, hcount⟩ := ih ws m hnext fun _ hmem => hall _ (List.mem_cons_of_mem _ hmem)
      exact ⟨e :: es, k, .argumentsMore he hcomma hes, by rw [List.length_cons, hcount]; rfl⟩
  obtain ⟨es, m, hes, hcount⟩ := hlist pieces us n hfirst hall
  exact ⟨es, m, hes, by omega⟩

/-- Parameters. -/
theorem obeysRule_parameters : ObeysRule .parameters := by
  intro ts n h
  obtain ⟨us, vs, rfl, hfirst, hmany⟩ := fits_pair.mp h
  obtain ⟨name, rfl, hname⟩ := fits_token.mp hfirst
  obtain ⟨pieces, rfl, hbound, hall⟩ := fits_many.mp hmany
  have hlength : pieces.length ≤ 254 := hbound 254 rfl
  have hlist : ∀ (pieces : List (List Token)) (name : Token), name.kind = .identifier →
      (∀ piece ∈ pieces,
        (pair (token .comma) (token .identifier)).Fits Readable (piece.map Token.kind)) →
      ∃ names, Reads .parameters n (name :: pieces.flatten) (.names names) n ∧
        names.length = pieces.length + 1 := by
    intro pieces
    induction pieces with
    | nil => exact fun name hname _ => ⟨[name], .parametersLast hname, rfl⟩
    | cons piece pieces ih =>
      intro name hname hall
      obtain ⟨comma, ws, rfl, hcomma, hbehind⟩ := fits_cons.mp (hall piece List.mem_cons_self)
      obtain ⟨next, rfl, hnext⟩ := fits_token.mp hbehind
      obtain ⟨names, hnames, hcount⟩ :=
        ih next hnext fun _ hmem => hall _ (List.mem_cons_of_mem _ hmem)
      exact ⟨name :: names, .parametersMore hname hcomma hnames, by
        rw [List.length_cons, hcount]; rfl⟩
  obtain ⟨names, hnames, hcount⟩ := hlist pieces name hname hall
  exact ⟨names, hnames, by omega⟩

/-- Declarations one after the other. -/
theorem readAs_declarations {ts : List Token} (n : Nat)
    (h : (star (symbol .declaration)).Fits Readable (ts.map Token.kind)) :
    ∃ ss m, Reads .declarations n ts (.stmts ss) m := by
  obtain ⟨pieces, rfl, -, hall⟩ := fits_many.mp h
  clear h
  induction pieces generalizing n with
  | nil => exact ⟨[], n, .declarationsNone⟩
  | cons piece pieces ih =>
    obtain ⟨s, isOpen, m, hs⟩ := hall piece List.mem_cons_self piece rfl n
    obtain ⟨ss, k, hss⟩ := ih m fun _ hmem => hall _ (List.mem_cons_of_mem _ hmem)
    exact ⟨s :: ss, k, .declarationsMore hs hss⟩

/-- Methods one after the other. -/
theorem readAs_methods {ts : List Token} (n : Nat)
    (h : (star (symbol .function)).Fits Readable (ts.map Token.kind)) :
    ∃ rs m, Reads .methods n ts (.routines rs) m := by
  obtain ⟨pieces, rfl, -, hall⟩ := fits_many.mp h
  clear h
  induction pieces generalizing n with
  | nil => exact ⟨[], n, .methodsNone⟩
  | cons piece pieces ih =>
    obtain ⟨r, m, hr⟩ := hall piece List.mem_cons_self piece rfl n
    obtain ⟨rs, k, hrs⟩ := ih m fun _ hmem => hall _ (List.mem_cons_of_mem _ hmem)
    exact ⟨r :: rs, k, .methodsMore hr hrs⟩

/-- A clause. -/
theorem readAs_clause {ts : List Token} (n : Nat)
    (h : (Phrase.optional (symbol .expression)).Fits Readable (ts.map Token.kind)) :
    ∃ e m, Reads .clause n ts (.clause e) m := by
  rcases h with h | h
  · obtain ⟨e, m, he⟩ := h ts rfl n
    exact ⟨some e, m, .clausePresent he⟩
  · rw [fits_nothing.mp h]
    exact ⟨none, n, .clauseAbsent⟩

/-- Functions and methods. -/
theorem obeysRule_function : ObeysRule .function := by
  intro ts n h
  obtain ⟨name, us, rfl, hname, h⟩ := fits_cons.mp h
  obtain ⟨left, us, rfl, hleft, h⟩ := fits_cons.mp h
  obtain ⟨us, vs, rfl, hgiven, h⟩ := fits_pair.mp h
  obtain ⟨right, vs, rfl, hright, hbody⟩ := fits_cons.mp h
  obtain ⟨opening, ws, body, closing, m, rfl, hopening, hclosing, hread⟩ := hbody vs rfl n
  rcases hgiven with hgiven | hnone
  · obtain ⟨names, hnames, hfew⟩ := hgiven us rfl n
    exact ⟨_, _, .routineWith hname hleft hnames hfew hright hopening hread hclosing⟩
  · rw [fits_nothing.mp hnone]
    exact ⟨_, _, .routineEmpty hname hleft hright hopening hread hclosing⟩

/-- Classes. -/
theorem obeysRule_classDecl : ObeysRule .classDecl := by
  intro ts n h
  obtain ⟨keyword, us, rfl, hkeyword, h⟩ := fits_cons.mp h
  obtain ⟨name, us, rfl, hname, h⟩ := fits_cons.mp h
  obtain ⟨opening, us, rfl, hopening, h⟩ := fits_cons.mp h
  obtain ⟨us, vs, rfl, hmethods, h⟩ := fits_pair.mp h
  obtain ⟨closing, rfl, hclosing⟩ := fits_token.mp h
  obtain ⟨rs, m, hrs⟩ := readAs_methods n hmethods
  exact ⟨_, _, .declarationClass hkeyword hname hopening hrs hclosing⟩

/-- Variables. -/
theorem obeysRule_varDecl : ObeysRule .varDecl := by
  intro ts n h
  obtain ⟨keyword, us, rfl, hkeyword, h⟩ := fits_cons.mp h
  obtain ⟨name, us, rfl, hname, h⟩ := fits_cons.mp h
  obtain ⟨us, vs, rfl, hvalue, h⟩ := fits_pair.mp h
  obtain ⟨stop, rfl, hstop⟩ := fits_token.mp h
  rcases hvalue with hvalue | hnone
  · obtain ⟨sign, ws, rfl, hsign, hvalue⟩ := fits_cons.mp hvalue
    obtain ⟨e, m, he⟩ := hvalue ws rfl n
    exact ⟨keyword, _, _, m, rfl, hkeyword, .varWith hname hsign he hstop⟩
  · rw [fits_nothing.mp hnone]
    exact ⟨keyword, _, _, n, rfl, hkeyword, .varBare hname hstop⟩

/-- Loops with clauses. -/
theorem obeysRule_forStmt : ObeysRule .forStmt := by
  intro ts n h
  obtain ⟨keyword, us, rfl, hkeyword, h⟩ := fits_cons.mp h
  obtain ⟨left, us, rfl, hleft, h⟩ := fits_cons.mp h
  obtain ⟨us, vs, rfl, hinitial, h⟩ := fits_pair.mp h
  obtain ⟨cs, vs, rfl, hcondition, h⟩ := fits_pair.mp h
  obtain ⟨stop, vs, rfl, hstop, h⟩ := fits_cons.mp h
  obtain ⟨ss, vs, rfl, hstep, h⟩ := fits_pair.mp h
  obtain ⟨right, vs, rfl, hright, hbody⟩ := fits_cons.mp h
  obtain ⟨first, m, hfirst⟩ : ∃ first m, Reads .forInitial n us (.initial first) m := by
    rcases hinitial with hvar | hexpr | hnone
    · obtain ⟨keyword, ws, s, m, rfl, hkeyword, hs⟩ := hvar us rfl n
      exact ⟨_, _, .initialVar hkeyword hs⟩
    · obtain ⟨s, m, hs⟩ := hexpr us rfl n
      exact ⟨_, _, .initialExpr hs⟩
    · obtain ⟨stop, rfl, hstop⟩ := fits_token.mp hnone
      exact ⟨_, _, .initialAbsent hstop⟩
  obtain ⟨condition, k, hc⟩ := readAs_clause m hcondition
  obtain ⟨step, j, hstep⟩ := readAs_clause k hstep
  obtain ⟨s, isOpen, i, hs⟩ := hbody vs rfl j
  cases hc with
  | clauseAbsent =>
    exact ⟨_, _, _, .statementForever hkeyword hleft hfirst hstop hstep hright hs⟩
  | clausePresent hc =>
    exact ⟨_, _, _, .statementFor hkeyword hleft hfirst hc hstop hstep hright hs⟩

/-- Conditionals: an `else` belongs to the innermost one that is open. -/
theorem obeysRule_ifStmt : ObeysRule .ifStmt := by
  intro ts n h
  obtain ⟨keyword, us, rfl, hkeyword, h⟩ := fits_cons.mp h
  obtain ⟨left, us, rfl, hleft, h⟩ := fits_cons.mp h
  obtain ⟨us, vs, rfl, hcondition, h⟩ := fits_pair.mp h
  obtain ⟨right, vs, rfl, hright, h⟩ := fits_cons.mp h
  obtain ⟨vs, ws, rfl, hyes, hother⟩ := fits_pair.mp h
  obtain ⟨c, m, hc⟩ := hcondition us rfl n
  obtain ⟨s, isOpen, k, hs⟩ := hyes vs rfl m
  rcases hother with hother | hnone
  · obtain ⟨middle, ws, rfl, hmiddle, hno⟩ := fits_cons.mp hother
    have hbehind : ∀ k, ∃ s isOpen j, Reads .statement k ws (.stmt s isOpen) j :=
      fun k => hno ws rfl k
    cases isOpen with
    | false =>
      obtain ⟨s', isOpen', j, hs'⟩ := hbehind k
      exact ⟨_, _, _, .statementElse hkeyword hleft hc hright hs hmiddle hs'⟩
    | true =>
      obtain ⟨s', isOpen', j, hs'⟩ := hs.attach hmiddle hbehind
      exact ⟨_, _, _, .statementIf hkeyword hleft hc hright hs'⟩
  · rw [fits_nothing.mp hnone, List.append_nil]
    exact ⟨_, _, _, .statementIf hkeyword hleft hc hright hs⟩

/-- Loops. -/
theorem obeysRule_whileStmt : ObeysRule .whileStmt := by
  intro ts n h
  obtain ⟨keyword, us, rfl, hkeyword, h⟩ := fits_cons.mp h
  obtain ⟨left, us, rfl, hleft, h⟩ := fits_cons.mp h
  obtain ⟨us, vs, rfl, hcondition, h⟩ := fits_pair.mp h
  obtain ⟨right, vs, rfl, hright, hbody⟩ := fits_cons.mp h
  obtain ⟨c, m, hc⟩ := hcondition us rfl n
  obtain ⟨s, isOpen, k, hs⟩ := hbody vs rfl m
  exact ⟨_, _, _, .statementWhile hkeyword hleft hc hright hs⟩

/-- The remaining statements. -/
theorem obeysRule_statement : ObeysRule .statement := by
  intro ts n h
  rcases h with h | h | h | h | h | h | h
  · obtain ⟨s, m, hs⟩ := h ts rfl n
    exact ⟨s, false, m, .statementExpr hs⟩
  · exact h ts rfl n
  · exact h ts rfl n
  · exact h ts rfl n
  · exact h ts rfl n
  · exact h ts rfl n
  · obtain ⟨opening, us, ss, closing, m, rfl, hopening, hclosing, hss⟩ := h ts rfl n
    exact ⟨_, _, _, .statementBlock hopening hss hclosing⟩

/-- Being readable obeys every rule. -/
theorem readable_obeyed : Obeyed Readable := by
  intro s kinds h ts hts n
  rw [← hts] at h
  cases s with
  | program => exact readAs_declarations n h
  | declaration =>
    rcases h with h | h | h | h
    · obtain ⟨s, m, hs⟩ := h ts rfl n
      exact ⟨s, false, m, hs⟩
    · obtain ⟨s, m, hs⟩ := h ts rfl n
      exact ⟨s, false, m, hs⟩
    · obtain ⟨keyword, us, s, m, rfl, hkeyword, hs⟩ := h ts rfl n
      exact ⟨s, false, m, .declarationVar hkeyword hs⟩
    · obtain ⟨s, isOpen, m, hs⟩ := h ts rfl n
      exact ⟨s, isOpen, m, .declarationStatement hs⟩
  | classDecl => exact obeysRule_classDecl ts n h
  | funcDecl =>
    obtain ⟨keyword, us, rfl, hkeyword, hroutine⟩ := fits_cons.mp h
    obtain ⟨r, m, hr⟩ := hroutine us rfl n
    exact ⟨_, _, .declarationFunction hkeyword hr⟩
  | function => exact obeysRule_function ts n h
  | varDecl => exact obeysRule_varDecl ts n h
  | statement => exact obeysRule_statement ts n h
  | exprStmt =>
    obtain ⟨us, vs, rfl, hvalue, hend⟩ := fits_pair.mp h
    obtain ⟨stop, rfl, hstop⟩ := fits_token.mp hend
    obtain ⟨e, m, he⟩ := hvalue us rfl n
    exact ⟨_, _, .exprStmt he hstop⟩
  | forStmt => exact obeysRule_forStmt ts n h
  | ifStmt => exact obeysRule_ifStmt ts n h
  | printStmt =>
    obtain ⟨keyword, us, rfl, hkeyword, hrest⟩ := fits_cons.mp h
    obtain ⟨us, vs, rfl, hvalue, hend⟩ := fits_pair.mp hrest
    obtain ⟨stop, rfl, hstop⟩ := fits_token.mp hend
    obtain ⟨e, m, he⟩ := hvalue us rfl n
    exact ⟨_, _, _, .statementPrint hkeyword he hstop⟩
  | returnStmt =>
    obtain ⟨keyword, us, rfl, hkeyword, hrest⟩ := fits_cons.mp h
    obtain ⟨us, vs, rfl, hvalue, hend⟩ := fits_pair.mp hrest
    obtain ⟨stop, rfl, hstop⟩ := fits_token.mp hend
    obtain ⟨e, m, he⟩ := readAs_clause n hvalue
    exact ⟨_, _, _, .statementReturn hkeyword he hstop⟩
  | whileStmt => exact obeysRule_whileStmt ts n h
  | block =>
    obtain ⟨opening, us, rfl, hopening, hrest⟩ := fits_cons.mp h
    obtain ⟨us, vs, rfl, hbody, hend⟩ := fits_pair.mp hrest
    obtain ⟨closing, rfl, hclosing⟩ := fits_token.mp hend
    obtain ⟨ss, m, hss⟩ := readAs_declarations n hbody
    exact ⟨opening, us, ss, closing, m, rfl, hopening, hclosing, hss⟩
  | expression =>
    obtain ⟨e, m, he⟩ := h ts rfl n
    exact ⟨e, m, .expression he⟩
  | assignment => exact obeysRule_assignment ts n h
  | logicOr => exact readAs_level .disjunction n h
  | logicAnd => exact readAs_level .conjunction n h
  | equality => exact readAs_level .equality n h
  | comparison => exact readAs_level .comparison n h
  | term => exact readAs_level .term n h
  | factor => exact readAs_level .factor n h
  | unary => exact obeysRule_unary ts n h
  | call => exact obeysRule_call ts n h
  | primary => exact obeysRule_primary ts n h
  | arguments => exact obeysRule_arguments ts n h
  | parameters => exact obeysRule_parameters ts n h

/-- Tokens can be read as a program exactly when their kinds are derivable. -/
theorem exists_reads_iff_derivable (ts : List Token) (n : Nat) :
    (∃ p m, Reads .declarations n ts (.stmts p) m) ↔ Derivable .program (ts.map Token.kind) := by
  constructor
  · rintro ⟨p, m, h⟩
    exact .of_fits h.fits
  · intro h
    exact h Readable readable_obeyed ts rfl n

end Scriptlet.Grammar
