import Scriptlet.Proofs.Grammar.SoundExpr

/-!
# What the readers of statements have read

A statement that is open for an `else` is never followed by one, because the
reader would have taken it. A declaration that cannot be read is noted, so that
a clean run has read all of them; it also passes a token, so that the loops over
declarations come to an end.
-/

namespace Scriptlet.Grammar

/-- Tokens that say a statement, with no `else` behind them that it could take. -/
abbrev Part.SaysStmt (p : Part) : Meaning Stmt := fun n used rest s m =>
  ∃ isOpen, Reads p n used (.stmt s isOpen) m ∧
    (isOpen = true → ∀ t ∈ rest.head?, t.kind ≠ .kwElse)

/-- Tokens that say a declaration that could be read. -/
abbrev SaysDeclared : Meaning (Option Stmt) := fun n used rest found m =>
  ∃ s, found = some s ∧ Part.SaysStmt .declaration n used rest s m

/-- Before unread tokens a declaration is read or noted, and passes a token. -/
abbrev Declares (fuel : Nat) (declaration : Reader (Option Stmt)) : Prop :=
  ∀ c, c.rest ≠ [] → Yields fuel 1 SaysDeclared c (declaration c)

variable {fuel : Nat} {declared : Reader (Option Stmt)} {nested : Reader Stmt}

/-- Declarations up to a closing brace or the end. -/
theorem declarations_obeys (h : Declares fuel declared) (steps : Nat) :
    Obeys (min steps fuel) 0 (declarations declared steps) (Part.Says .declarations .stmts) := by
  induction steps with
  | zero => exact .exhausted
  | succ steps ih =>
    intro c
    have hdone : Yields (min (steps + 1) fuel) 0 (Part.Says .declarations .stmts) c
        (.ok [] c) := ⟨[], [], .refl c, Nat.le_refl 0, fun _ => .declarationsNone⟩
    have hmore : c.rest ≠ [] → Yields (min (steps + 1) fuel) 0 (Part.Says .declarations .stmts) c
        ((do
          let first ← declared
          let others ← declarations declared steps
          return first.toList ++ others) c) := by
      intro hrest
      refine (h c hrest).bind (Nat.min_le_right _ _) fun first => ?_
      refine .bind ih (by omega) (fun others => .pure ?_) 
      rintro k rest m us hothers n used ⟨s, rfl, isOpen, hfirst, -⟩
      rw [List.append_nil]
      exact .declarationsMore hfirst hothers
    unfold declarations
    rw [bind_of_ok (nextIs_eq _ c), bind_of_ok (atEnd_eq c)]
    split
    · exact hdone
    · refine hmore fun hrest => ?_
      simp_all

/-- Where reading goes on is a later part of the unread tokens, behind one at least. -/
theorem boundary_suffix (ts : List Token) :
    ∃ skipped, ts = skipped ++ boundary ts ∧ (ts ≠ [] → 1 ≤ skipped.length) := by
  have hafter : ∀ (previous : Token) (ts : List Token),
      ∃ skipped, ts = skipped ++ skipAfter previous ts := by
    intro previous ts
    induction ts generalizing previous with
    | nil => exact ⟨[], rfl⟩
    | cons t rest ih =>
      unfold skipAfter
      split
      · exact ⟨[], rfl⟩
      · obtain ⟨skipped, hskipped⟩ := ih t
        exact ⟨t :: skipped, congrArg (t :: ·) hskipped⟩
  cases ts with
  | nil => exact ⟨[], rfl, fun h => absurd rfl h⟩
  | cons t rest =>
    obtain ⟨skipped, hskipped⟩ := hafter t rest
    exact ⟨t :: skipped, congrArg (t :: ·) hskipped, fun _ => by simp⟩

/-- A statement that cannot be read is noted, and reading goes on behind a token. -/
theorem recovering_declares {reader : Reader Stmt}
    (h : Obeys fuel 1 reader (Part.SaysStmt .declaration)) : Declares fuel (recovering reader) := by
  intro c hrest
  have hc := h c
  unfold recovering
  revert hc
  cases reader c with
  | ok s after =>
    rintro ⟨used, found, passes, hused, hs⟩
    exact ⟨used, found, passes, hused, fun clean => ⟨s, rfl, hs clean⟩⟩
  | error halt after =>
    cases halt with
    | exhausted => exact id
    | failed e =>
      rintro ⟨used, found, passes⟩
      obtain ⟨skipped, hskipped, hone⟩ := boundary_suffix after.rest
      have passes' : after.Passes skipped [e] (after.note e).recover :=
        ⟨hskipped, rfl, rfl, Nat.le_refl _⟩
      refine ⟨used ++ skipped, found ++ [e], passes.trans passes', ?_, fun clean => by simp at clean⟩
      rw [List.length_append]
      by_cases hempty : after.rest = []
      · have hlength := congrArg List.length passes.rest
        rw [hempty, List.append_nil] at hlength
        have := List.length_pos_iff.mpr hrest
        omega
      · have := hone hempty
        omega

/-- The body of a block after its opening brace. -/
theorem block_obeys (h : Declares fuel declared) :
    Obeys fuel 1 (block declared (fuel + 1))
      (fun n used _ body m => ∃ ts closing, used = ts ++ [closing] ∧
        closing.kind = .rightBrace ∧ Reads .declarations n ts (.stmts body) m) := by
  refine .bind (declarations_obeys h (fuel + 1)) (by omega) fun body => .expect fun closing =>
    .pure ?_
  exact fun m rest hclosing n used hbody => ⟨used, closing, rfl, hclosing, hbody⟩

/-- Parameters behind `count` earlier ones; with at most 255 of them nothing is noted. -/
theorem parameters_obeys (steps count : Nat) :
    Obeys steps 1 (parameters steps count)
      (fun n used _ names m =>
        Reads .parameters n used (.names names) m ∧ m = n ∧ count + names.length ≤ 255) := by
  induction steps generalizing count with
  | zero => exact .exhausted
  | succ steps ih =>
    rw [parameters]
    by_cases hmany : maxCount ≤ count
    · rw [if_pos hmany]
      exact .noted (fun c => ⟨c.here, rfl⟩) (.expect fun first => .accept
        (fun comma => .bind (ih (count + 1)) (by omega) fun others => .pure (by intros; trivial))
        (.pure (by intros; trivial)))
    · rw [if_neg hmany]
      refine .expect fun first => .accept
        (fun comma => .bind (ih (count + 1)) (by omega) fun others => .pure ?more) (.pure ?last)
      case more =>
        rintro k rest n us ⟨hothers, rfl, hcount⟩ hcomma hfirst
        rw [List.append_nil]
        refine ⟨.parametersMore hfirst hcomma hothers, rfl, ?_⟩
        rw [List.length_cons]
        omega
      case last =>
        exact fun n rest _ hfirst => ⟨.parametersLast hfirst, rfl, Nat.lt_of_not_le hmany⟩

/-- A function or method from its name on. -/
theorem routine_obeys (kind : RoutineKind) (h : Declares fuel declared) :
    Obeys fuel 1 (routine kind declared (fuel + 1)) (Part.Says .routine .routine) := by
  have hbody : ∀ name names, Obeys (fuel - 1 - 1) 0
      (do
        let _ ← expect .rightParen .parametersClose
        let _ ← expect .leftBrace (.bodyOpen kind)
        let body ← block declared (fuel + 1)
        return Routine.mk name names body)
      (fun n used _ r m => ∃ right opening ts closing body,
        used = right :: opening :: (ts ++ [closing]) ∧ right.kind = .rightParen ∧
        opening.kind = .leftBrace ∧ closing.kind = .rightBrace ∧ r = .mk name names body ∧
        Reads .declarations n ts (.stmts body) m) := by
    intro name names
    refine .expect fun right => .expect fun opening => .bind (block_obeys h) (by omega)
      (fun body => .pure ?_)
    rintro k rest n used ⟨ts, closing, rfl, hclosing, hbody⟩ hopening hright
    rw [List.append_nil]
    exact ⟨right, opening, ts, closing, body, rfl, hright, hopening, hclosing, rfl, hbody⟩
  refine .expect fun name => .expect fun left => .nextIs fun closes => ?_
  cases closes with
  | true =>
    refine (hbody name []).mono (Nat.le_refl _) (by omega) ?_
    rintro n used rest r m
      ⟨right, opening, ts, closing, body, rfl, hright, hopening, hclosing, rfl, hbody⟩ - hleft hname
    exact .routineEmpty hname hleft hright hopening hbody hclosing
  | false =>
    refine .bind (parameters_obeys (fuel + 1) 0) (by omega) fun names =>
      (hbody name names).mono (by omega) (by omega) ?_
    rintro n used rest r m
      ⟨right, opening, ts, closing, body, rfl, hright, hopening, hclosing, rfl, hbody⟩
      k us ⟨hnames, rfl, hfew⟩ - hleft hname
    exact .routineWith hname hleft hnames (by omega) hright hopening hbody hclosing

/-- Methods up to a closing brace or the end. -/
theorem methods_obeys {method : Reader Routine}
    (h : Obeys fuel 1 method (Part.Says .routine .routine)) (steps : Nat) :
    Obeys (min steps fuel) 0 (methods method steps) (Part.Says .methods .routines) := by
  induction steps with
  | zero => exact .exhausted
  | succ steps ih =>
    refine .nextIs fun closes => .atEnd fun ends => ?_
    split
    · exact .pure fun n rest _ _ => .methodsNone
    · refine .bind h (by omega) (fun first => .bind ih (by omega) (fun others => .pure ?_))
      intro k rest m us hothers n ts hfirst _ _
      rw [List.append_nil]
      exact .methodsMore hfirst hothers

/-- A class after its keyword. -/
theorem classDeclaration_obeys (h : Declares fuel declared) :
    Obeys fuel 1 (classDeclaration declared (fuel + 1))
      (fun n used rest s m => ∀ keyword : Token, keyword.kind = .kwClass →
        Part.SaysStmt .declaration n (keyword :: used) rest s m) := by
  refine .expect fun name => .expect fun opening =>
    .bind (methods_obeys (routine_obeys .method h) (fuel + 1)) (by omega) (fun members =>
      .expect fun closing => .pure ?_)
  intro m rest hclosing n ts hmembers hopening hname keyword hkeyword
  exact ⟨false, .declarationClass hkeyword hname hopening hmembers hclosing, by simp⟩

/-- A variable after its keyword. -/
theorem varDeclaration_obeys (fuel : Nat) :
    Obeys fuel 1 (varDeclaration fuel)
      (fun n used _ s m => Reads .varDecl n used (.stmt s false) m) := by
  refine .expect fun name => .accept (fun sign => ?_) (.expect fun stop => .pure ?bare)
  · dsimp only
    rw [map_eq_pure_bind, bind_assoc]
    refine .bind (expression_obeys fuel) (by omega) fun value => ?_
    rw [pure_bind]
    refine .expect fun stop => .pure ?_
    intro m rest hstop n used hvalue hsign hname
    exact .varWith hname hsign hvalue hstop
  case bare => exact fun n rest hstop _ hname => .varBare hname hstop

/-- An expression with its semicolon. -/
theorem expressionStatement_obeys (fuel : Nat) :
    Obeys fuel 1 (expressionStatement fuel)
      (fun n used _ s m => Reads .exprStmt n used (.stmt s false) m) := by
  refine .bind (expression_obeys fuel) (by omega) fun value => .expect fun stop => .pure ?_
  exact fun m rest hstop n used hvalue => .exprStmt hvalue hstop

/-- An expression that may be absent. -/
theorem expressionUnless_obeys (kind : Kind) (fuel : Nat) :
    Obeys fuel 0 (expressionUnless kind fuel) (Part.Says .clause .clause) := by
  refine .nextIs fun stops => ?_
  cases stops with
  | true => exact .pure fun n rest _ => .clauseAbsent
  | false =>
    rw [if_neg Bool.false_ne_true, map_eq_pure_bind]
    refine .bind (expression_obeys fuel) (by omega) fun value => .pure ?_
    intro m rest n used hvalue _
    rw [List.append_nil]
    exact .clausePresent hvalue

/-- The first clause of a `for`. -/
theorem forInitial_obeys (fuel : Nat) :
    Obeys fuel 1 (forInitial fuel) (Part.Says .forInitial .initial) := by
  refine .accept (fun stop => .pure ?absent) (.accept
    (fun keyword => .bind (varDeclaration_obeys fuel) (by omega) fun s => .pure ?declared)
    (.bind (expressionStatement_obeys fuel) (by omega) fun s => .pure ?plain))
  case absent => exact fun n rest hstop => .initialAbsent hstop
  case declared =>
    intro m rest n used hs hkeyword _
    rw [List.append_nil]
    exact .initialVar hkeyword hs
  case plain =>
    intro m rest n used hs _ _
    rw [List.append_nil]
    exact .initialExpr hs

/-- The tokens of a statement behind its keyword. -/
abbrev SaysBehind (kind : Kind) : Meaning Stmt := fun n used rest s m =>
  ∀ keyword : Token, keyword.kind = kind →
    Part.SaysStmt .statement n (keyword :: used) rest s m

/-- A `for` after its keyword. -/
theorem forStatement_obeys (h : Obeys fuel 1 nested (Part.SaysStmt .statement)) :
    Obeys fuel 1 (forStatement nested (fuel + 1)) (SaysBehind .kwFor) := by
  refine .expect fun left => .bind (forInitial_obeys _) (by omega) fun initial =>
    .bind (expressionUnless_obeys _ _) (by omega) fun condition => .expect fun stop =>
      .bind (expressionUnless_obeys _ _) (by omega) fun step => .expect fun right =>
        .bind h (by omega) fun body => ?_
  cases condition with
  | some condition =>
    refine .pure ?_
    rintro i rest j us ⟨isOpen, hbody, hopen⟩ hright k ss hstep hstop m cs hcondition n is hinitial
      hleft keyword hkeyword
    cases hcondition with
    | clausePresent hcondition =>
      rw [List.append_nil, forLoop_eq_desugared]
      exact ⟨isOpen, .statementFor hkeyword hleft hinitial hcondition hstop hstep hright hbody, hopen⟩
  | none =>
    refine .node fun condition => .pure ?_
    rintro m' rest i ⟨rfl, rfl⟩ j us ⟨isOpen, hbody, hopen⟩ hright k ss hstep hstop m cs hcondition n
      is hinitial hleft keyword hkeyword
    cases hcondition with
    | clauseAbsent =>
      rw [List.append_nil, forLoop_eq_desugared]
      exact ⟨isOpen, .statementForever hkeyword hleft hinitial hstop hstep hright hbody, hopen⟩

/-- An `if` after its keyword. -/
theorem ifStatement_obeys (h : Obeys fuel 1 nested (Part.SaysStmt .statement)) :
    Obeys fuel 1 (ifStatement nested (fuel + 1)) (SaysBehind .kwIf) := by
  refine .expect fun left => .bind (expression_obeys _) (by omega) fun condition => .expect fun right =>
    .bind h (by omega) fun yes => .accept
      (fun middle => .bind h (by omega) fun no => .pure ?both) (.pure ?one)
  case both =>
    rintro j rest k vs ⟨isOpen, hno, hopen⟩ hmiddle m us ⟨waiting, hyes, hclosed⟩ hright n ts
      hcondition hleft keyword hkeyword
    have hfalse : waiting = false := by
      cases waiting with
      | false => rfl
      | true => exact absurd hmiddle (hclosed rfl middle rfl)
    rw [hfalse] at hyes
    rw [List.append_nil]
    exact ⟨isOpen, .statementElse hkeyword hleft hcondition hright hyes hmiddle hno, hopen⟩
  case one =>
    rintro k rest hnext m us ⟨isOpen, hyes, -⟩ hright n ts hcondition hleft keyword hkeyword
    rw [List.append_nil]
    exact ⟨true, .statementIf hkeyword hleft hcondition hright hyes, fun _ => hnext⟩

/-- A `while` after its keyword. -/
theorem whileStatement_obeys (h : Obeys fuel 1 nested (Part.SaysStmt .statement)) :
    Obeys fuel 1 (whileStatement nested (fuel + 1)) (SaysBehind .kwWhile) := by
  refine .expect fun left => .bind (expression_obeys _) (by omega) fun condition => .expect fun right =>
    .bind h (by omega) fun body => .pure ?_
  rintro k rest m us ⟨isOpen, hbody, hopen⟩ hright n ts hcondition hleft keyword hkeyword
  rw [List.append_nil]
  exact ⟨isOpen, .statementWhile hkeyword hleft hcondition hright hbody, hopen⟩

/-- A `print` after its keyword. -/
theorem printStatement_obeys (fuel : Nat) :
    Obeys fuel 1 (printStatement fuel) (SaysBehind .kwPrint) := by
  refine .bind (expression_obeys fuel) (by omega) fun value => .expect fun stop => .pure ?_
  intro m rest hstop n used hvalue keyword hkeyword
  exact ⟨false, .statementPrint hkeyword hvalue hstop, by simp⟩

/-- A `return` after its keyword. -/
theorem returnStatement_obeys (keyword : Token) (fuel : Nat) :
    Obeys fuel 1 (returnStatement keyword fuel) (fun n used rest s m => keyword.kind = .kwReturn →
      Part.SaysStmt .statement n (keyword :: used) rest s m) := by
  refine .bind (expressionUnless_obeys _ _) (by omega) fun value => .expect fun stop => .pure ?_
  intro m rest hstop n used hvalue hkeyword
  exact ⟨false, .statementReturn hkeyword hvalue hstop, by simp⟩

/-- A statement, from readers of the declarations and statements inside it. -/
theorem statementRule_obeys (hd : Declares fuel declared)
    (hs : Obeys fuel 1 nested (Part.SaysStmt .statement)) :
    Obeys (fuel + 1) 1 (statementRule declared nested (fuel + 1)) (Part.SaysStmt .statement) := by
  refine .accept (fun keyword => (forStatement_obeys hs).mono (by omega) (by omega) ?afterFor)
    (.accept (fun keyword => (ifStatement_obeys hs).mono (by omega) (by omega) ?afterIf)
    (.accept (fun keyword => (printStatement_obeys _).mono (by omega) (by omega) ?afterPrint)
    (.accept (fun keyword => (returnStatement_obeys keyword _).mono (by omega) (by omega) ?afterReturn)
    (.accept (fun keyword => (whileStatement_obeys hs).mono (by omega) (by omega) ?afterWhile)
    (.accept (fun opening => .bind (block_obeys hd) (by omega) fun body => .pure ?afterBrace)
    ((expressionStatement_obeys _).mono (by omega) (by omega) ?otherwise))))))
  case afterFor => exact fun n used rest s m hsays hkind => hsays keyword hkind
  case afterIf => exact fun n used rest s m hsays hkind _ => hsays keyword hkind
  case afterPrint => exact fun n used rest s m hsays hkind _ _ => hsays keyword hkind
  case afterReturn => exact fun n used rest s m hsays hkind _ _ _ => hsays hkind
  case afterWhile => exact fun n used rest s m hsays hkind _ _ _ _ => hsays keyword hkind
  case afterBrace =>
    rintro m rest n used ⟨ts, closing, rfl, hclosing, hbody⟩ hopening _ _ _ _ _
    rw [List.append_nil]
    exact ⟨false, .statementBlock hopening hbody hclosing, by simp⟩
  case otherwise =>
    exact fun n used rest s m hreads _ _ _ _ _ _ => ⟨false, .statementExpr hreads, by simp⟩

/-- A declaration or statement, from readers of those inside it. -/
theorem declarationRule_obeys (hd : Declares fuel declared)
    (hs : Obeys fuel 1 nested (Part.SaysStmt .statement)) :
    Obeys (fuel + 1) 1 (declarationRule declared nested (fuel + 1))
      (Part.SaysStmt .declaration) := by
  refine .accept (fun keyword => (classDeclaration_obeys hd).mono (by omega) (by omega) ?afterClass)
    (.accept (fun keyword => .bind (routine_obeys .function hd) (by omega) fun r => .pure ?afterFunc)
    (.accept (fun keyword => (varDeclaration_obeys _).mono (by omega) (by omega) ?afterVar)
    ((statementRule_obeys hd hs).mono (by omega) (by omega) ?otherwise)))
  case afterClass => exact fun n used rest s m hsays hkind => hsays keyword hkind
  case afterFunc =>
    intro m rest n used hr hkind _
    rw [List.append_nil]
    exact ⟨false, .declarationFunction hkind hr, by simp⟩
  case afterVar =>
    exact fun n used rest s m hreads hkind _ _ => ⟨false, .declarationVar hkind hreads, by simp⟩
  case otherwise =>
    rintro n used rest s m ⟨isOpen, hreads, hopen⟩ - - -
    exact ⟨isOpen, .declarationStatement hreads, hopen⟩

/-- Declarations and statements. -/
theorem declaration_statement_obey (fuel : Nat) :
    Declares fuel (declaration fuel) ∧
      Obeys fuel 1 (statement fuel) (Part.SaysStmt .statement) := by
  induction fuel with
  | zero => exact ⟨fun c _ => Nat.zero_le _, .exhausted⟩
  | succ fuel ih =>
    rw [declaration, statement]
    exact ⟨recovering_declares (declarationRule_obeys ih.1 ih.2), statementRule_obeys ih.1 ih.2⟩

/-- Declarations up to the end leave no token unread. -/
theorem programFrom_obeys (h : Declares fuel declared) (steps : Nat) :
    Obeys (min steps fuel) 0 (programFrom declared steps)
      (fun n used rest p m => rest = [] ∧ Reads .declarations n used (.stmts p) m) := by
  induction steps with
  | zero => exact .exhausted
  | succ steps ih =>
    intro c
    unfold programFrom
    rw [bind_of_ok (atEnd_eq c)]
    cases hrest : c.rest with
    | nil => exact ⟨[], [], .refl c, Nat.le_refl 0, fun _ => ⟨hrest, .declarationsNone⟩⟩
    | cons t ts =>
      refine (h c (by simp [hrest])).bind (Nat.min_le_right _ _) fun first =>
        .bind ih (by omega) fun others => .pure ?_
      rintro k rest m us ⟨hdone, hothers⟩ n used ⟨s, rfl, isOpen, hfirst, -⟩
      rw [List.append_nil]
      exact ⟨hdone, .declarationsMore hfirst hothers⟩

/-- A declaration never gives up at a violation: it is skipped instead. -/
theorem declaration_ne_failed (fuel : Nat) (c after : Cursor) (e : SyntaxError) :
    declaration fuel c ≠ .error (.failed e) after := by
  cases fuel with
  | zero =>
    rw [declaration]
    exact fun h => by cases h
  | succ fuel =>
    rw [declaration]
    unfold recovering
    split <;> exact fun h => by cases h

/-- A program as a whole never gives up at a violation: declarations are skipped instead. -/
theorem programFrom_ne_failed (fuel steps : Nat) (c after : Cursor) (e : SyntaxError) :
    programFrom (declaration fuel) steps c ≠ .error (.failed e) after := by
  induction steps generalizing c with
  | zero => exact fun h => by cases h
  | succ steps ih =>
    unfold programFrom
    rw [bind_of_ok (atEnd_eq c)]
    split
    · exact fun h => by cases h
    · change EStateM.bind (declaration fuel) _ c ≠ _
      unfold EStateM.bind
      split
      · rename_i first middle _
        change EStateM.bind (programFrom (declaration fuel) steps) _ middle ≠ _
        unfold EStateM.bind
        split
        · exact fun h => by cases h
        · rename_i halt reached hothers
          intro h
          cases h
          exact ih middle hothers
      · rename_i halt reached hfirst
        intro h
        cases h
        exact declaration_ne_failed fuel c after e hfirst

/-- With fuel for every token the readers come to the end of a program, and
without a violation they have read what its tokens say. -/
theorem program_reads (tokens : List Token) (stop : Token) (n : Nat) :
    ∃ p after, program (tokens.length + 1) ⟨tokens, stop, n, []⟩ = .ok p after ∧
      n ≤ after.nextId ∧ (after.errors = [] → Reads .declarations n tokens (.stmts p) after.nextId) := by
  have hobeys := programFrom_obeys (declaration_statement_obey (tokens.length + 1)).1
    (tokens.length + 1) ⟨tokens, stop, n, []⟩
  have hfailed := programFrom_ne_failed (tokens.length + 1) (tokens.length + 1)
    ⟨tokens, stop, n, []⟩
  unfold program
  revert hobeys hfailed
  cases programFrom (declaration (tokens.length + 1)) (tokens.length + 1)
    ⟨tokens, stop, n, []⟩ with
  | error halt after =>
    intro hobeys hfailed
    cases halt with
    | failed e => exact absurd rfl (hfailed after e)
    | exhausted =>
      change min (tokens.length + 1) (tokens.length + 1) ≤ tokens.length at hobeys
      omega
  | ok p after =>
    rintro ⟨used, found, passes, -, hreads⟩ -
    refine ⟨p, after, rfl, passes.numbers, fun clean => ?_⟩
    have herrors := passes.errors
    rw [clean, List.nil_append] at herrors
    obtain ⟨hdone, hp⟩ := hreads herrors.symm
    have hrest : tokens = used ++ after.rest := passes.rest
    rw [hdone, List.append_nil] at hrest
    rw [hrest]
    exact hp

end Scriptlet.Grammar
