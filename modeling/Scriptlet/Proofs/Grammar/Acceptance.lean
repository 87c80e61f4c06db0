import Scriptlet.Proofs.Grammar.CompleteStmt
import Scriptlet.Proofs.Grammar.Readable
import Scriptlet.Proofs.Grammar.SoundStmt

/-!
# Reading accepts exactly the grammar

Tokens that can be read are accepted as what they are read as: there is one lemma
for each way to read something, and here they are put together. So a text has at
most one reading, and a parse without errors gives the reading. Nothing is
said here of the trees that a parse with errors leaves.
-/

namespace Scriptlet.Grammar

/-- What it is for the tokens of a part to be accepted as what was read. -/
def Completes : Part → Nat → List Token → Node → Nat → Prop
  | .primary, n, ts, .expr e, m => CompletesPrimary n ts e m
  | .call, n, ts, .expr e, m => CompletesCall n ts e m
  | .unary, n, ts, .expr e, m => CompletesUnary n ts e m
  | .level l, n, ts, .expr e, m => CompletesLevel l n ts e m
  | .assignment, n, ts, .expr e, m => CompletesAssignment n ts e m
  | .expression, n, ts, .expr e, m => CompletesExpression n ts e m
  | .arguments, n, ts, .exprs es, m => CompletesArguments n ts es m
  | .clause, n, ts, .clause e, m => CompletesClause n ts e m
  | .parameters, n, ts, .names names, _ => CompletesParameters n ts names
  | .routine, n, ts, .routine r, m => CompletesRoutine n ts r m
  | .methods, n, ts, .routines rs, m => CompletesMethods n ts rs m
  | .varDecl, n, ts, .stmt s _, m => CompletesWith varDeclaration n ts s m
  | .exprStmt, n, ts, .stmt s _, m => CompletesWith expressionStatement n ts s m
  | .forInitial, n, ts, .initial s, m => CompletesWith forInitial n ts s m
  | .statement, n, ts, .stmt s isOpen, m => CompletesStatement n ts s isOpen m
  | .declaration, n, ts, .stmt s isOpen, m => CompletesDeclaration n ts s isOpen m
  | .declarations, n, ts, .stmts ss, m => CompletesDeclarations n ts ss m
  | _, _, _, _, _ => True

/-- Operands of a level are accepted as such. -/
theorem Completes.operand (l : Level) {n m : Nat} {ts : List Token} {e : Expr}
    (h : Completes l.operand n ts (.expr e) m) : CompletesOperand l n ts e m := by
  cases l
  case factor => exact CompletesUnary.operand h
  all_goals exact CompletesLevel.operand rfl h

/-- What is read is accepted. -/
theorem Reads.completes {p : Part} {n m : Nat} {ts : List Token} {x : Node}
    (h : Reads p n ts x m) : Completes p n ts x m := by
  induction h with
  | constant h => exact .constant h
  | receiver h => exact .receiver h
  | name h => exact .name h
  | group hleft _ hright ih => exact .group hleft ih hright
  | callPrimary _ ih => exact CompletesPrimary.call ih
  | callEmpty _ hleft hright ih => exact CompletesCall.empty ih hleft hright
  | callWith _ hleft given few hright ih ihgiven =>
    exact CompletesCall.withArguments ih hleft ihgiven (given.beginsWith rfl) few hright
  | callGet _ hdot hname ih => exact CompletesCall.get ih hdot hname
  | argumentsLast _ ih => exact CompletesExpression.argumentsLast ih
  | argumentsMore _ hcomma _ ih ihothers =>
    exact CompletesExpression.argumentsMore ih hcomma ihothers
  | unaryCall operand ih => exact CompletesCall.unary ih (operand.beginsWith rfl)
  | unarySign h _ ih => exact CompletesUnary.sign ih h
  | levelOperand l _ ih => exact (Completes.operand l ih).level
  | levelJoin l _ h _ ih ihright => exact CompletesLevel.join ih h (Completes.operand l ihright)
  | assignmentPlain _ ih => exact CompletesLevel.assignment ih
  | assignmentVar hname hsign _ ih => exact .var hname hsign ih
  | assignmentSet object hdot hname hsign _ ih ihvalue =>
    exact .set ih (object.beginsWith rfl) hdot hname hsign ihvalue
  | expression _ ih => exact CompletesAssignment.expression ih
  | clauseAbsent => exact .absent
  | clausePresent value ih => exact CompletesExpression.clause ih (value.beginsWith rfl)
  | parametersLast h => exact .last h
  | parametersMore h hcomma _ ih => exact .more h hcomma ih
  | routineEmpty hname hleft hright hopening _ hclosing ih =>
    exact CompletesDeclarations.routineEmpty hname hleft hright hopening ih hclosing
  | routineWith hname hleft given few hright hopening _ hclosing ihgiven ih =>
    exact CompletesDeclarations.routineWith hname hleft ihgiven (given.beginsWith rfl) few hright
      hopening ih hclosing
  | methodsNone => exact .none
  | methodsMore first _ ih ihothers => exact CompletesRoutine.more ih (first.beginsWith rfl) ihothers
  | varBare hname hstop => exact completes_varBare hname hstop
  | varWith hname hsign _ hstop ih => exact CompletesExpression.varWith hname hsign ih hstop
  | exprStmt _ hstop ih => exact CompletesExpression.exprStmt ih hstop
  | initialAbsent hstop => exact completes_initialAbsent hstop
  | initialVar h _ ih => exact CompletesWith.initialVar h ih
  | initialExpr inside ih => exact CompletesWith.initialExpr ih (inside.beginsWith rfl)
  | statementExpr inside ih => exact CompletesWith.statement ih (inside.beginsWith rfl)
  | statementPrint h _ hstop ih => exact CompletesExpression.print h ih hstop
  | statementReturn h _ hstop ih => exact CompletesClause.ret h ih hstop
  | statementWhile h hleft _ hright _ ih ihbody => exact CompletesStatement.loop h hleft ih hright ihbody
  | statementIf h hleft _ hright _ ih ihyes => exact CompletesStatement.ifThen h hleft ih hright ihyes
  | statementElse h hleft _ hright _ hmiddle _ ih ihyes ihno =>
    exact CompletesStatement.ifElse h hleft ih hright ihyes hmiddle ihno
  | statementFor h hleft _ condition hstop _ hright _ ihinitial ihcondition ihincrement ih =>
    exact CompletesWith.loop h hleft ihinitial
      (CompletesExpression.clause ihcondition (condition.beginsWith rfl)) hstop ihincrement hright ih
      ⟨rfl, rfl⟩
  | statementForever h hleft _ hstop _ hright _ ihinitial ihincrement ih =>
    exact CompletesWith.loop h hleft ihinitial .absent hstop ihincrement hright ih ⟨rfl, rfl⟩
  | statementBlock hopening _ hclosing ih => exact CompletesDeclarations.statement hopening ih hclosing
  | declarationStatement inside ih => exact CompletesStatement.declaration ih (inside.beginsWith rfl)
  | declarationClass h hname hopening _ hclosing ih =>
    exact CompletesMethods.classDecl h hname hopening ih hclosing
  | declarationFunction h _ ih => exact CompletesRoutine.function h ih
  | declarationVar h _ ih => exact CompletesWith.declaration h ih
  | declarationsNone => exact .none
  | declarationsMore first others ih ihothers =>
    refine CompletesDeclaration.more ih (first.beginsWith rfl) ihothers ?_
    rcases others.begins with hbegins | ⟨rfl, -⟩
    · exact Or.inl hbegins
    · exact Or.inr rfl

/-- A program that can be read is accepted as what it is read as. -/
theorem Reads.program {n m : Nat} {ts : List Token} {p : Program}
    (h : Reads .declarations n ts (.stmts p) m) (stop : Token) :
    program (ts.length + 1) ⟨ts, stop, n, []⟩ = .ok p ⟨[], stop, m, []⟩ := by
  have hall : CompletesDeclarations n ts p m := h.completes
  have hend := hall.toEnd (ts.length + 1) (ts.length + 1) (Nat.lt_succ_self _) (Nat.lt_succ_self _)
    stop []
  rw [List.append_nil] at hend
  exact hend

/-- Reading starts with the tokens before the first end token and is blind to those
behind it. -/
theorem Cursor.start_append_cons {ts : List Token} {stop : Token} (others : List Token) (n : Nat)
    (hts : ∀ t ∈ ts, t.isEnd = false) (hstop : stop.isEnd = true) :
    Cursor.start (ts ++ stop :: others) n = ⟨ts, stop, n, []⟩ := by
  have hinside : ∀ t ∈ ts, (!t.isEnd) = true := by
    intro t hmem
    rw [hts t hmem]
    rfl
  have htake : (ts ++ stop :: others).takeWhile (fun t => !t.isEnd) = ts := by
    rw [List.takeWhile_append_of_pos hinside]
    simp [hstop]
  have hfind : (ts ++ stop :: others).find? Token.isEnd = some stop := by
    rw [List.find?_append, List.find?_eq_none.mpr (by simpa using hinside)]
    simp [hstop]
  unfold Cursor.start
  rw [htake, hfind]
  rfl

/-- Before an end token behind tokens none of which is one, reading starts with all of them. -/
theorem Cursor.start_append {ts : List Token} {stop : Token} (n : Nat)
    (hts : ∀ t ∈ ts, t.kind ≠ .endOfFile) (hstop : stop.kind = .endOfFile) :
    Cursor.start (ts ++ [stop]) n = ⟨ts, stop, n, []⟩ := by
  refine Cursor.start_append_cons [] n (fun t hmem => ?_) (by simp [Token.isEnd, hstop])
  simpa [Token.isEnd] using hts t hmem

variable {ts : List Token} {stop : Token}

/-- A parse is what reading to the first end token gives. -/
theorem parse_of_start {tokens : List Token} {n : Nat} {p : Program} {after : Cursor}
    (h : Grammar.program ((Cursor.start tokens n).rest.length + 1) (Cursor.start tokens n) =
      .ok p after) :
    parse tokens n = ⟨p, after.errors, after.nextId⟩ := by
  unfold parse
  dsimp only
  rw [h]

/-- With an end token at the end only, a parse is what reading all the others gives. -/
theorem parse_of_program {n : Nat} {p : Program} {after : Cursor}
    (hts : ∀ t ∈ ts, t.kind ≠ .endOfFile) (hstop : stop.kind = .endOfFile)
    (h : Grammar.program (ts.length + 1) ⟨ts, stop, n, []⟩ = .ok p after) :
    parse (ts ++ [stop]) n = ⟨p, after.errors, after.nextId⟩ := by
  apply parse_of_start
  rw [Cursor.start_append n hts hstop]
  exact h

/-- A program that can be read is parsed without errors as what it is read as. -/
theorem Reads.parse {n m : Nat} {p : Program} (h : Reads .declarations n ts (.stmts p) m)
    (hts : ∀ t ∈ ts, t.kind ≠ .endOfFile) (hstop : stop.kind = .endOfFile) :
    parse (ts ++ [stop]) n = ⟨p, [], m⟩ :=
  parse_of_program hts hstop (h.program stop)

/-- A parse without errors is a reading of its tokens. -/
theorem reads_of_parse {n : Nat} (hts : ∀ t ∈ ts, t.kind ≠ .endOfFile)
    (hstop : stop.kind = .endOfFile) (clean : (parse (ts ++ [stop]) n).errors = []) :
    Reads .declarations n ts (.stmts (parse (ts ++ [stop]) n).program)
      (parse (ts ++ [stop]) n).nextId := by
  obtain ⟨p, after, hp, -, hreads⟩ := program_reads ts stop n
  rw [parse_of_program hts hstop hp] at clean ⊢
  exact hreads clean

/-- Parsing never takes numbers back, with or without errors. -/
theorem le_parse_nextId (n : Nat) (hts : ∀ t ∈ ts, t.kind ≠ .endOfFile)
    (hstop : stop.kind = .endOfFile) : n ≤ (parse (ts ++ [stop]) n).nextId := by
  obtain ⟨p, after, hp, hle, -⟩ := program_reads ts stop n
  rw [parse_of_program hts hstop hp]
  exact hle

/-- A list of tokens that ends where its end token stands is parsed without errors
exactly when its kinds are derivable from the rules; the tree is then the only
reading of the tokens, and so is the number of expressions. -/
theorem parse_clean_iff_derivable (ts : List Token) (stop : Token) (n : Nat)
    (hts : ∀ t ∈ ts, t.kind ≠ .endOfFile) (hstop : stop.kind = .endOfFile) :
    ((parse (ts ++ [stop]) n).errors = [] ↔ Derivable .program (ts.map Token.kind)) ∧
      ((parse (ts ++ [stop]) n).errors = [] → ∀ p m,
        Reads .declarations n ts (.stmts p) m ↔
          p = (parse (ts ++ [stop]) n).program ∧ m = (parse (ts ++ [stop]) n).nextId) := by
  constructor
  · rw [← exists_reads_iff_derivable ts n]
    constructor
    · intro clean
      exact ⟨_, _, reads_of_parse hts hstop clean⟩
    · rintro ⟨p, m, h⟩
      rw [h.parse hts hstop]
  · intro clean p m
    constructor
    · intro h
      rw [h.parse hts hstop]
      exact ⟨rfl, rfl⟩
    · rintro ⟨rfl, rfl⟩
      exact reads_of_parse hts hstop clean

/-- The tokens of `if (a) if (b) print c; else d.e = f = nil;`, all on one line. -/
def danglingElse : List Token :=
  [⟨.kwIf, "if", none, 1⟩, ⟨.leftParen, "(", none, 1⟩, ⟨.identifier, "a", none, 1⟩,
    ⟨.rightParen, ")", none, 1⟩, ⟨.kwIf, "if", none, 1⟩, ⟨.leftParen, "(", none, 1⟩,
    ⟨.identifier, "b", none, 1⟩, ⟨.rightParen, ")", none, 1⟩, ⟨.kwPrint, "print", none, 1⟩,
    ⟨.identifier, "c", none, 1⟩, ⟨.semicolon, ";", none, 1⟩, ⟨.kwElse, "else", none, 1⟩,
    ⟨.identifier, "d", none, 1⟩, ⟨.dot, ".", none, 1⟩, ⟨.identifier, "e", none, 1⟩,
    ⟨.equal, "=", none, 1⟩, ⟨.identifier, "f", none, 1⟩, ⟨.equal, "=", none, 1⟩,
    ⟨.kwNil, "nil", none, 1⟩, ⟨.semicolon, ";", none, 1⟩]

/-- The `else` belongs to the inner conditional, and assignment groups to the right. -/
theorem parse_danglingElse :
    ((∀ t ∈ danglingElse, t.kind ≠ .endOfFile) ∧ (Token.endAt 1).kind = .endOfFile) ∧
      Derivable .program (danglingElse.map Token.kind) ∧
      ∀ p m, Reads .declarations 0 danglingElse (.stmts p) m ↔
        p = [.ifThen (.var 0 ⟨.identifier, "a", none, 1⟩)
          (.ifElse (.var 1 ⟨.identifier, "b", none, 1⟩)
            (.print (.var 2 ⟨.identifier, "c", none, 1⟩))
            (.expr (.set 8 (.var 3 ⟨.identifier, "d", none, 1⟩) ⟨.identifier, "e", none, 1⟩
              (.assign 7 ⟨.identifier, "f", none, 1⟩ (.literal 6 .nil)))))] ∧ m = 9 := by
  have hts : ∀ t ∈ danglingElse, t.kind ≠ .endOfFile := by decide
  have hstop : (Token.endAt 1).kind = .endOfFile := rfl
  have hparse : parse (danglingElse ++ [Token.endAt 1]) 0 =
      ⟨[.ifThen (.var 0 ⟨.identifier, "a", none, 1⟩)
          (.ifElse (.var 1 ⟨.identifier, "b", none, 1⟩)
            (.print (.var 2 ⟨.identifier, "c", none, 1⟩))
            (.expr (.set 8 (.var 3 ⟨.identifier, "d", none, 1⟩) ⟨.identifier, "e", none, 1⟩
              (.assign 7 ⟨.identifier, "f", none, 1⟩ (.literal 6 .nil)))))], [], 9⟩ := by
    cbv
  obtain ⟨hiff, hread⟩ := parse_clean_iff_derivable danglingElse (Token.endAt 1) 0 hts hstop
  rw [hparse] at hiff hread
  exact ⟨⟨hts, hstop⟩, hiff.mp rfl, hread rfl⟩

end Scriptlet.Grammar
