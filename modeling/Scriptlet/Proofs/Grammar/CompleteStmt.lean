import Scriptlet.Proofs.Grammar.CompleteExpr

/-!
# Statements and declarations are accepted

As for expressions. A statement that is open for an `else` is accepted where
none follows; in a block or a program none does, because no declaration begins
with one.
-/

namespace Scriptlet.Grammar

/-- Tokens accepted as a clause that ends before a token of the given kind. -/
def CompletesClause (n : Nat) (ts : List Token) (e : Option Expr) (m : Nat) : Prop :=
  ∀ kind ∈ [Kind.semicolon, .rightParen], ∀ fuel stop rest, stop.kind = kind →
    ts.length + rest.length + 1 < fuel →
      Accepts (expressionUnless kind fuel) n ts (stop :: rest) e m

/-- Tokens accepted as parameters behind `count` earlier ones. -/
def CompletesParameters (n : Nat) (ts : List Token) (names : List Token) : Prop :=
  ∀ steps count rest, ts.length + rest.length < steps → count + names.length ≤ 255 →
    Stops [.comma] rest → Accepts (parameters steps count) n ts rest names n

/-- Tokens accepted as a function or method from its name on. -/
def CompletesRoutine (n : Nat) (ts : List Token) (r : Routine) (m : Nat) : Prop :=
  ∀ kind fuel rest, ts.length + rest.length ≤ fuel →
    Accepts (routine kind (declaration fuel) (fuel + 1)) n ts rest r m

/-- Tokens accepted as methods up to a closing brace. -/
def CompletesMethods (n : Nat) (ts : List Token) (rs : List Routine) (m : Nat) : Prop :=
  ∀ fuel steps closing rest, closing.kind = .rightBrace → ts.length + rest.length + 1 ≤ fuel →
    ts.length + rest.length + 1 < steps →
      Accepts (methods (routine .method (declaration fuel) (fuel + 1)) steps) n ts
        (closing :: rest) rs m

/-- Tokens accepted by one of the readers that need fuel for every token only. -/
def CompletesWith {α : Type} (reader : Nat → Reader α) (n : Nat) (ts : List Token) (v : α)
    (m : Nat) : Prop :=
  ∀ fuel rest, ts.length + rest.length < fuel → Accepts (reader fuel) n ts rest v m

/-- Tokens accepted as a statement; an open one is not followed by an `else`. -/
def CompletesStatement (n : Nat) (ts : List Token) (s : Stmt) (isOpen : Bool) (m : Nat) : Prop :=
  ∀ fuel rest, ts.length + rest.length ≤ fuel → (isOpen = true → Stops [.kwElse] rest) →
    Accepts (statementRule (declaration fuel) (statement fuel) (fuel + 1)) n ts rest s m

/-- Tokens accepted as a declaration; an open one is not followed by an `else`. -/
def CompletesDeclaration (n : Nat) (ts : List Token) (s : Stmt) (isOpen : Bool) (m : Nat) : Prop :=
  ∀ fuel rest, ts.length + rest.length ≤ fuel → (isOpen = true → Stops [.kwElse] rest) →
    Accepts (declarationRule (declaration fuel) (statement fuel) (fuel + 1)) n ts rest s m

/-- Tokens accepted as declarations. -/
structure CompletesDeclarations (n : Nat) (ts : List Token) (ss : List Stmt) (m : Nat) : Prop where
  /-- Up to a closing brace. -/
  inBlock : ∀ fuel steps closing rest, closing.kind = .rightBrace →
    ts.length + rest.length + 1 < fuel → ts.length + rest.length + 1 < steps →
      Accepts (declarations (declaration fuel) steps) n ts (closing :: rest) ss m
  /-- Up to the end. -/
  toEnd : ∀ fuel steps, ts.length < fuel → ts.length < steps →
    Accepts (programFrom (declaration fuel) steps) n ts [] ss m

variable {n m k : Nat} {ts us : List Token} {e : Expr} {s : Stmt}

/-- An absent clause is accepted. -/
theorem CompletesClause.absent : CompletesClause n [] none n := by
  intro kind _ fuel stop rest hstop _
  refine .nextIs (b := true) ?_ (.refl _)
  simp [hstop]

/-- A clause that is there is accepted. -/
theorem CompletesExpression.clause (h : CompletesExpression n ts e m)
    (begins : BeginsWith exprStarters ts) : CompletesClause n ts (some e) m := by
  intro kind hkind fuel stop rest hstop hfuel
  have hends : ∀ kind ∈ [Kind.semicolon, .rightParen], kind ∉ exprGoesOn := by decide
  have hvalue : Accepts (expression fuel) n ts (stop :: rest) e m := by
    refine h fuel _ ?_ (.cons ?_)
    · rw [List.length_cons]
      omega
    · rw [hstop]
      exact hends kind hkind
  refine .nextIs (b := false) ?_ hvalue.map
  obtain ⟨t, us, rfl, ht⟩ := begins
  have happart : ∀ kind ∈ [Kind.semicolon, .rightParen], kind ∉ exprStarters := by decide
  have hne : t.kind ≠ kind := fun heq => happart kind hkind (heq ▸ ht)
  simp [hne]

/-- A last parameter is accepted. -/
theorem CompletesParameters.last {name : Token} (hname : name.kind = .identifier) :
    CompletesParameters n [name] [name] := by
  intro steps count rest hsteps hcount hstops
  obtain ⟨before, rfl⟩ : ∃ before, steps = before + 1 := ⟨steps - 1, by omega⟩
  have hfew : ¬maxCount ≤ count := by
    rw [List.length_singleton] at hcount
    exact Nat.not_le.mpr hcount
  rw [parameters, if_neg hfew]
  exact .expect hname (.skip hstops (.refl _))

/-- A parameter with others behind it is accepted. -/
theorem CompletesParameters.more {names : List Token} {name comma : Token}
    (hname : name.kind = .identifier) (hcomma : comma.kind = .comma)
    (others : CompletesParameters n us names) :
    CompletesParameters n (name :: comma :: us) (name :: names) := by
  intro steps count rest hsteps hcount hstops
  simp only [List.length_cons] at hsteps hcount
  obtain ⟨before, rfl⟩ : ∃ before, steps = before + 1 := ⟨steps - 1, by omega⟩
  have hfew : ¬maxCount ≤ count := Nat.not_le.mpr (show count < 255 by omega)
  have hothers := others before (count + 1) rest (by omega) (by omega) hstops
  rw [parameters, if_neg hfew]
  exact .expect hname (.accept hcomma (.bindLast hothers (.refl _)))

/-- A block is accepted behind its opening brace. -/
theorem CompletesDeclarations.block {ss : List Stmt} (h : CompletesDeclarations n ts ss m)
    {closing : Token} (hclosing : closing.kind = .rightBrace) {fuel : Nat} {rest : List Token}
    (hfuel : ts.length + rest.length + 1 < fuel) :
    Accepts (Grammar.block (declaration fuel) (fuel + 1)) n (ts ++ [closing]) rest ss m := by
  have hbody := h.inBlock fuel (fuel + 1) closing rest hclosing hfuel (by omega)
  exact .bind hbody (.expect hclosing (.refl _))

/-- A routine without parameters is accepted. -/
theorem CompletesDeclarations.routineEmpty {name left right opening closing : Token}
    {body : List Stmt} (hname : name.kind = .identifier) (hleft : left.kind = .leftParen)
    (hright : right.kind = .rightParen) (hopening : opening.kind = .leftBrace)
    (h : CompletesDeclarations n us body m) (hclosing : closing.kind = .rightBrace) :
    CompletesRoutine n (name :: left :: right :: opening :: (us ++ [closing]))
      (.mk name [] body) m := by
  intro kind fuel rest hfuel
  simp only [List.length_cons, List.length_append, List.length_nil] at hfuel
  have hbody : Accepts (Grammar.block (declaration fuel) (fuel + 1)) n (us ++ [closing]) rest
      body m :=
    h.block hclosing (by omega)
  refine .expect hname (.expect hleft (.nextIs (b := true) ?_ ?_))
  · simp [hright]
  · exact .expect hright (.expect hopening (.bindLast hbody (.refl _)))

/-- A routine with at most 255 parameters is accepted. -/
theorem CompletesDeclarations.routineWith {name left right opening closing : Token}
    {names : List Token} {body : List Stmt} (hname : name.kind = .identifier)
    (hleft : left.kind = .leftParen) (given : CompletesParameters n ts names)
    (begins : BeginsWith [.identifier] ts) (few : names.length ≤ 255)
    (hright : right.kind = .rightParen) (hopening : opening.kind = .leftBrace)
    (h : CompletesDeclarations n us body m) (hclosing : closing.kind = .rightBrace) :
    CompletesRoutine n (name :: left :: (ts ++ right :: opening :: (us ++ [closing])))
      (.mk name names body) m := by
  intro kind fuel rest hfuel
  simp only [List.length_cons, List.length_append, List.length_nil] at hfuel
  have hbody : Accepts (Grammar.block (declaration fuel) (fuel + 1)) n (us ++ [closing]) rest
      body m :=
    h.block hclosing (by omega)
  have hnames : Accepts (parameters (fuel + 1) 0) n ts
      (right :: opening :: (us ++ [closing]) ++ rest) names n := by
    refine given (fuel + 1) 0 _ ?_ (by omega) (.cons (by rw [hright]; decide))
    simp only [List.length_cons, List.length_append, List.length_nil]
    omega
  refine .expect hname (.expect hleft (.nextIs (b := false) ?_ ?_))
  · obtain ⟨t, vs, rfl, ht⟩ := begins
    rw [List.mem_singleton] at ht
    simp [ht]
  · exact .bind hnames (.expect hright (.expect hopening (.bindLast hbody (.refl _))))

/-- No more methods. -/
theorem CompletesMethods.none : CompletesMethods n [] [] n := by
  intro fuel steps closing rest hclosing _ hsteps
  obtain ⟨before, rfl⟩ : ∃ before, steps = before + 1 := ⟨steps - 1, by omega⟩
  rw [methods]
  refine .nextIs (b := true) ?_ (.atEnd (b := false) rfl (.refl _))
  simp [hclosing]

/-- A method with others behind it is accepted. -/
theorem CompletesRoutine.more {r : Routine} {rs : List Routine} (first : CompletesRoutine n ts r m)
    (begins : BeginsWith [.identifier] ts) (others : CompletesMethods m us rs k) :
    CompletesMethods n (ts ++ us) (r :: rs) k := by
  intro fuel steps closing rest hclosing hfuel hsteps
  rw [List.length_append] at hfuel hsteps
  obtain ⟨t, vs, hts, ht⟩ := begins
  have hpositive : 0 < ts.length := by
    rw [hts]
    exact Nat.zero_lt_succ _
  obtain ⟨before, rfl⟩ : ∃ before, steps = before + 1 := ⟨steps - 1, by omega⟩
  have hfirst : Accepts (routine .method (declaration fuel) (fuel + 1)) n ts
      (us ++ closing :: rest) r m := by
    refine first .method fuel _ ?_
    rw [List.length_append, List.length_cons]
    omega
  have hothers := others fuel before closing rest hclosing (by omega) (by omega)
  rw [methods]
  refine .nextIs (b := false) ?_ (.atEnd (b := false) ?_ (.bind hfirst (.bindLast hothers
    (.refl _))))
  · rw [List.mem_singleton] at ht
    simp [hts, ht]
  · simp

/-- A variable without a value is accepted. -/
theorem completes_varBare {name stop : Token} (hname : name.kind = .identifier)
    (hstop : stop.kind = .semicolon) :
    CompletesWith varDeclaration n [name, stop] (.var name none) n := by
  intro fuel rest _
  exact .expect hname (.skip (.cons (by rw [hstop]; decide)) (.expect hstop (.refl _)))

/-- A variable with a value is accepted. -/
theorem CompletesExpression.varWith {name sign stop : Token} (hname : name.kind = .identifier)
    (hsign : sign.kind = .equal) (value : CompletesExpression n us e m)
    (hstop : stop.kind = .semicolon) :
    CompletesWith varDeclaration n (name :: sign :: (us ++ [stop])) (.var name (some e)) m := by
  intro fuel rest hfuel
  simp only [List.length_cons, List.length_append, List.length_nil] at hfuel
  have hvalue : Accepts (expression fuel) n us (stop :: rest) e m := by
    refine value fuel _ ?_ (.cons (by rw [hstop]; decide))
    rw [List.length_cons]
    omega
  exact .expect hname (.accept hsign (.bind hvalue.map (.expect hstop (.refl _))))

/-- An expression with its semicolon is accepted. -/
theorem CompletesExpression.exprStmt {stop : Token} (value : CompletesExpression n ts e m)
    (hstop : stop.kind = .semicolon) :
    CompletesWith expressionStatement n (ts ++ [stop]) (.expr e) m := by
  intro fuel rest hfuel
  rw [List.length_append, List.length_singleton] at hfuel
  have hvalue : Accepts (expression fuel) n ts (stop :: rest) e m := by
    refine value fuel _ ?_ (.cons (by rw [hstop]; decide))
    rw [List.length_cons]
    omega
  exact .bind hvalue (.expect hstop (.refl _))

/-- An absent first clause is accepted. -/
theorem completes_initialAbsent {stop : Token} (hstop : stop.kind = .semicolon) :
    CompletesWith forInitial n [stop] none n := by
  intro fuel rest _
  exact .accept hstop (.refl _)

/-- A variable as a first clause is accepted. -/
theorem CompletesWith.initialVar {keyword : Token} (h : keyword.kind = .kwVar)
    (inside : CompletesWith varDeclaration n ts s m) :
    CompletesWith forInitial n (keyword :: ts) (some s) m := by
  intro fuel rest hfuel
  rw [List.length_cons] at hfuel
  have hinside := inside fuel rest (by omega)
  exact .skip (.cons (by rw [h]; decide)) (.accept h (.bindLast hinside (.refl _)))

/-- An expression as a first clause is accepted. -/
theorem CompletesWith.initialExpr (inside : CompletesWith expressionStatement n ts s m)
    (begins : BeginsWith exprStarters ts) : CompletesWith forInitial n ts (some s) m := by
  intro fuel rest hfuel
  have hinside := inside fuel rest hfuel
  exact .skip (begins.stops (by decide) rest) (.skip (begins.stops (by decide) rest)
    (.bindLast hinside (.refl _)))

/-- A statement nested in another one is accepted. -/
theorem CompletesStatement.nested {isOpen : Bool} (h : CompletesStatement n ts s isOpen m)
    {fuel : Nat} {rest : List Token} (hfuel : ts.length + rest.length < fuel)
    (hopen : isOpen = true → Stops [.kwElse] rest) : Accepts (statement fuel) n ts rest s m := by
  obtain ⟨before, rfl⟩ : ∃ before, fuel = before + 1 := ⟨fuel - 1, by omega⟩
  rw [statement]
  exact h before rest (by omega) hopen

/-- An expression alone is accepted as a statement. -/
theorem CompletesWith.statement (inside : CompletesWith expressionStatement n ts s m)
    (begins : BeginsWith exprStarters ts) : CompletesStatement n ts s false m := by
  intro fuel rest hfuel _
  have hinside := inside (fuel + 1) rest (by omega)
  exact .skip (begins.stops (by decide) rest) (.skip (begins.stops (by decide) rest)
    (.skip (begins.stops (by decide) rest) (.skip (begins.stops (by decide) rest)
    (.skip (begins.stops (by decide) rest) (.skip (begins.stops (by decide) rest) hinside)))))

/-- A `print` is accepted. -/
theorem CompletesExpression.print {keyword stop : Token} (h : keyword.kind = .kwPrint)
    (value : CompletesExpression n ts e m) (hstop : stop.kind = .semicolon) :
    CompletesStatement n (keyword :: (ts ++ [stop])) (.print e) false m := by
  intro fuel rest hfuel _
  simp only [List.length_cons, List.length_append, List.length_nil] at hfuel
  have hvalue : Accepts (expression (fuel + 1)) n ts (stop :: rest) e m := by
    refine value (fuel + 1) _ ?_ (.cons (by rw [hstop]; decide))
    rw [List.length_cons]
    omega
  have hprint : Accepts (printStatement (fuel + 1)) n (ts ++ [stop]) rest (.print e) m :=
    .bind hvalue (.expect hstop (.refl _))
  exact .skip (.cons (by rw [h]; decide)) (.skip (.cons (by rw [h]; decide))
    (.accept h hprint))

/-- A `return` is accepted. -/
theorem CompletesClause.ret {value : Option Expr} {keyword stop : Token}
    (h : keyword.kind = .kwReturn) (clause : CompletesClause n ts value m)
    (hstop : stop.kind = .semicolon) :
    CompletesStatement n (keyword :: (ts ++ [stop])) (.ret keyword value) false m := by
  intro fuel rest hfuel _
  simp only [List.length_cons, List.length_append, List.length_nil] at hfuel
  have hvalue := clause .semicolon (by decide) (fuel + 1) stop rest hstop (by omega)
  have hreturn : Accepts (returnStatement keyword (fuel + 1)) n (ts ++ [stop]) rest
      (.ret keyword value) m := .bind hvalue (.expect hstop (.refl _))
  exact .skip (.cons (by rw [h]; decide)) (.skip (.cons (by rw [h]; decide))
    (.skip (.cons (by rw [h]; decide)) (.accept h hreturn)))

/-- A condition in parentheses is accepted before a statement. -/
theorem CompletesExpression.condition {right : Token} (h : CompletesExpression n ts e m)
    (hright : right.kind = .rightParen) {fuel : Nat} {rest : List Token}
    (hfuel : ts.length + rest.length + 1 < fuel) :
    Accepts (expression fuel) n ts (right :: rest) e m := by
  refine h fuel _ ?_ (.cons (by rw [hright]; decide))
  rw [List.length_cons]
  omega

/-- A `while` is accepted. -/
theorem CompletesStatement.loop {keyword left right : Token} {isOpen : Bool}
    (h : keyword.kind = .kwWhile) (hleft : left.kind = .leftParen)
    (condition : CompletesExpression n ts e m) (hright : right.kind = .rightParen)
    (body : CompletesStatement m us s isOpen k) :
    CompletesStatement n (keyword :: left :: (ts ++ right :: us)) (.loop e s) isOpen k := by
  intro fuel rest hfuel hopen
  simp only [List.length_cons, List.length_append] at hfuel
  have hcondition : Accepts (expression (fuel + 1)) n ts (right :: (us ++ rest)) e m := by
    refine condition.condition hright ?_
    rw [List.length_append]
    omega
  have hbody : Accepts (statement fuel) m us rest s k := body.nested (by omega) hopen
  have hwhile : Accepts (whileStatement (statement fuel) (fuel + 1)) n
      (left :: (ts ++ right :: us)) rest (.loop e s) k :=
    .expect hleft (.bind hcondition (.expect hright (.bindLast hbody (.refl _))))
  exact .skip (.cons (by rw [h]; decide)) (.skip (.cons (by rw [h]; decide))
    (.skip (.cons (by rw [h]; decide)) (.skip (.cons (by rw [h]; decide))
    (.accept h hwhile))))

/-- An `if` alone is accepted; no `else` follows it. -/
theorem CompletesStatement.ifThen {keyword left right : Token} {isOpen : Bool}
    (h : keyword.kind = .kwIf) (hleft : left.kind = .leftParen)
    (condition : CompletesExpression n ts e m) (hright : right.kind = .rightParen)
    (yes : CompletesStatement m us s isOpen k) :
    CompletesStatement n (keyword :: left :: (ts ++ right :: us)) (.ifThen e s) true k := by
  intro fuel rest hfuel hopen
  simp only [List.length_cons, List.length_append] at hfuel
  have hcondition : Accepts (expression (fuel + 1)) n ts (right :: (us ++ rest)) e m := by
    refine condition.condition hright ?_
    rw [List.length_append]
    omega
  have hyes : Accepts (statement fuel) m us rest s k :=
    yes.nested (by omega) fun _ => hopen rfl
  have hif : Accepts (ifStatement (statement fuel) (fuel + 1)) n (left :: (ts ++ right :: us)) rest
      (.ifThen e s) k :=
    .expect hleft (.bind hcondition (.expect hright (.bindLast hyes (.skip (hopen rfl) (.refl _)))))
  exact .skip (.cons (by rw [h]; decide)) (.accept h hif)

/-- An `if` with an `else` is accepted; the branch before it is not open. -/
theorem CompletesStatement.ifElse {keyword left right middle : Token} {vs : List Token}
    {other : Stmt} {isOpen : Bool} {j : Nat} (h : keyword.kind = .kwIf)
    (hleft : left.kind = .leftParen) (condition : CompletesExpression n ts e m)
    (hright : right.kind = .rightParen) (yes : CompletesStatement m us s false k)
    (hmiddle : middle.kind = .kwElse) (no : CompletesStatement k vs other isOpen j) :
    CompletesStatement n (keyword :: left :: (ts ++ right :: (us ++ middle :: vs)))
      (.ifElse e s other) isOpen j := by
  intro fuel rest hfuel hopen
  simp only [List.length_cons, List.length_append] at hfuel
  have hcondition : Accepts (expression (fuel + 1)) n ts
      (right :: ((us ++ middle :: vs) ++ rest)) e m := by
    refine condition.condition hright ?_
    simp only [List.length_cons, List.length_append]
    omega
  have hyes : Accepts (statement fuel) m us (middle :: vs ++ rest) s k := by
    refine yes.nested ?_ (fun hfalse => by cases hfalse)
    simp only [List.length_cons, List.length_append]
    omega
  have hno : Accepts (statement fuel) k vs rest other j := no.nested (by omega) hopen
  have hif : Accepts (ifStatement (statement fuel) (fuel + 1)) n
      (left :: (ts ++ right :: (us ++ middle :: vs))) rest (.ifElse e s other) j :=
    .expect hleft (.bind hcondition (.expect hright (.bind hyes (.accept hmiddle
      (.bindLast hno (.refl _))))))
  exact .skip (.cons (by rw [h]; decide)) (.accept h hif)

/-- A block is accepted. -/
theorem CompletesDeclarations.statement {opening closing : Token} {ss : List Stmt}
    (hopening : opening.kind = .leftBrace) (inside : CompletesDeclarations n ts ss m)
    (hclosing : closing.kind = .rightBrace) :
    CompletesStatement n (opening :: (ts ++ [closing])) (.block ss) false m := by
  intro fuel rest hfuel _
  simp only [List.length_cons, List.length_append, List.length_nil] at hfuel
  have hblock : Accepts (Grammar.block (declaration fuel) (fuel + 1)) n (ts ++ [closing]) rest
      ss m := inside.block hclosing (by omega)
  exact .skip (.cons (by rw [hopening]; decide)) (.skip (.cons (by rw [hopening]; decide))
    (.skip (.cons (by rw [hopening]; decide)) (.skip (.cons (by rw [hopening]; decide))
    (.skip (.cons (by rw [hopening]; decide)) (.accept hopening (.bindLast hblock (.refl _)))))))

/-- A `for` is accepted; an absent condition is completed behind the body. -/
theorem CompletesWith.loop {keyword left stop right : Token} {is ss : List Token}
    {first : Option Stmt} {condition : Option Expr} {step : Option Expr} {isOpen : Bool}
    {j i i' : Nat} {c : Expr} (h : keyword.kind = .kwFor) (hleft : left.kind = .leftParen)
    (initial : CompletesWith forInitial n is first m) (clause : CompletesClause m ts condition k)
    (hstop : stop.kind = .semicolon) (increment : CompletesClause k ss step j)
    (hright : right.kind = .rightParen) (body : CompletesStatement j us s isOpen i)
    (hc : match condition with
      | some e => c = e ∧ i' = i
      | none => c = .literal i (.bool true) ∧ i' = i + 1) :
    CompletesStatement n (keyword :: left :: (is ++ (ts ++ stop :: (ss ++ right :: us))))
      (desugared first c step s) isOpen i' := by
  intro fuel rest hfuel hopen
  simp only [List.length_cons, List.length_append] at hfuel
  have hinitial : Accepts (forInitial (fuel + 1)) n is
      (ts ++ stop :: (ss ++ right :: us) ++ rest) first m := by
    refine initial (fuel + 1) _ ?_
    simp only [List.length_cons, List.length_append]
    omega
  have hcondition : Accepts (expressionUnless .semicolon (fuel + 1)) m ts
      (stop :: (ss ++ right :: us ++ rest)) condition k := by
    refine clause .semicolon (by decide) (fuel + 1) stop _ hstop ?_
    simp only [List.length_cons, List.length_append]
    omega
  have hincrement : Accepts (expressionUnless .rightParen (fuel + 1)) k ss
      (right :: (us ++ rest)) step j := by
    refine increment .rightParen (by decide) (fuel + 1) right _ hright ?_
    simp only [List.length_append]
    omega
  have hbody : Accepts (Grammar.statement fuel) j us rest s i := body.nested (by omega) hopen
  have hfor : Accepts (forStatement (Grammar.statement fuel) (fuel + 1)) n
      (left :: (is ++ (ts ++ stop :: (ss ++ right :: us)))) rest (desugared first c step s) i' := by
    refine .expect hleft (.bind hinitial (.bind hcondition (.expect hstop (.bind hincrement
      (.expect hright (.bindLast hbody ?_))))))
    cases condition with
    | some e =>
      rw [hc.1, hc.2, ← forLoop_eq_desugared]
      exact .refl _
    | none =>
      rw [hc.1, hc.2, ← forLoop_eq_desugared]
      exact .node (.refl _)
  exact .accept h hfor

/-- A statement is accepted as a declaration. -/
theorem CompletesStatement.declaration {isOpen : Bool} (h : CompletesStatement n ts s isOpen m)
    (begins : BeginsWith stmtStarters ts) : CompletesDeclaration n ts s isOpen m := by
  intro fuel rest hfuel hopen
  have hstatement := h fuel rest hfuel hopen
  exact .skip (begins.stops (by decide) rest) (.skip (begins.stops (by decide) rest)
    (.skip (begins.stops (by decide) rest) hstatement))

/-- A class is accepted. -/
theorem CompletesMethods.classDecl {keyword name opening closing : Token} {rs : List Routine}
    (h : keyword.kind = .kwClass) (hname : name.kind = .identifier)
    (hopening : opening.kind = .leftBrace) (inside : CompletesMethods n ts rs m)
    (hclosing : closing.kind = .rightBrace) :
    CompletesDeclaration n (keyword :: name :: opening :: (ts ++ [closing])) (.classDecl name rs)
      false m := by
  intro fuel rest hfuel _
  simp only [List.length_cons, List.length_append, List.length_nil] at hfuel
  have hmethods := inside fuel (fuel + 1) closing rest hclosing (by omega) (by omega)
  have hclass : Accepts (classDeclaration (Grammar.declaration fuel) (fuel + 1)) n
      (name :: opening :: (ts ++ [closing])) rest (.classDecl name rs) m :=
    .expect hname (.expect hopening (.bind hmethods (.expect hclosing (.refl _))))
  exact .accept h hclass

/-- A function is accepted. -/
theorem CompletesRoutine.function {keyword : Token} {r : Routine} (h : keyword.kind = .kwFunc)
    (inside : CompletesRoutine n ts r m) :
    CompletesDeclaration n (keyword :: ts) (.function r) false m := by
  intro fuel rest hfuel _
  rw [List.length_cons] at hfuel
  have hroutine := inside .function fuel rest (by omega)
  exact .skip (.cons (by rw [h]; decide)) (.accept h (.bindLast hroutine (.refl _)))

/-- A variable is accepted. -/
theorem CompletesWith.declaration {keyword : Token} (h : keyword.kind = .kwVar)
    (inside : CompletesWith varDeclaration n ts s m) :
    CompletesDeclaration n (keyword :: ts) s false m := by
  intro fuel rest hfuel _
  rw [List.length_cons] at hfuel
  have hvar := inside (fuel + 1) rest (by omega)
  exact .skip (.cons (by rw [h]; decide)) (.skip (.cons (by rw [h]; decide)) (.accept h hvar))

/-- A declaration nested in another one is accepted. -/
theorem CompletesDeclaration.nested {isOpen : Bool} (h : CompletesDeclaration n ts s isOpen m)
    {fuel : Nat} {rest : List Token} (hfuel : ts.length + rest.length < fuel)
    (hopen : isOpen = true → Stops [.kwElse] rest) :
    Accepts (declaration fuel) n ts rest (some s) m := by
  obtain ⟨before, rfl⟩ : ∃ before, fuel = before + 1 := ⟨fuel - 1, by omega⟩
  have hrule := h before rest (by omega) hopen
  intro stop errors
  rw [declaration, recovering, hrule stop errors]
  rfl

/-- No more declarations. -/
theorem CompletesDeclarations.none : CompletesDeclarations n [] [] n where
  inBlock := by
    intro fuel steps closing rest hclosing _ hsteps
    obtain ⟨before, rfl⟩ : ∃ before, steps = before + 1 := ⟨steps - 1, by omega⟩
    rw [declarations]
    refine .nextIs (b := true) ?_ (.atEnd (b := false) rfl (.refl _))
    simp [hclosing]
  toEnd := by
    intro fuel steps _ hsteps
    obtain ⟨before, rfl⟩ : ∃ before, steps = before + 1 := ⟨steps - 1, by omega⟩
    exact .atEnd (b := true) rfl (.refl _)

/-- A declaration with others behind it is accepted. -/
theorem CompletesDeclaration.more {isOpen : Bool} {ss : List Stmt}
    (first : CompletesDeclaration n ts s isOpen m) (begins : BeginsWith declStarters ts)
    (others : CompletesDeclarations m us ss k) (behind : BeginsWith declStarters us ∨ us = []) :
    CompletesDeclarations n (ts ++ us) (s :: ss) k := by
  have hpositive : 0 < ts.length := by
    obtain ⟨t, vs, rfl, -⟩ := begins
    exact Nat.zero_lt_succ _
  constructor
  · intro fuel steps closing rest hclosing hfuel hsteps
    rw [List.length_append] at hfuel hsteps
    obtain ⟨before, rfl⟩ : ∃ before, steps = before + 1 := ⟨steps - 1, by omega⟩
    have helse : Stops [.kwElse] (us ++ closing :: rest) := by
      rcases behind with behind | rfl
      · exact behind.stops (by decide) _
      · exact .cons (by rw [hclosing]; decide)
    have hfirst : Accepts (declaration fuel) n ts (us ++ closing :: rest) (some s) m := by
      refine first.nested ?_ fun _ => helse
      rw [List.length_append, List.length_cons]
      omega
    have hothers := others.inBlock fuel before closing rest hclosing (by omega) (by omega)
    rw [declarations]
    refine .nextIs (b := false) ?_ (.atEnd (b := false) ?_ (.bind hfirst (.bindLast hothers
      (.refl _))))
    · obtain ⟨t, vs, rfl, ht⟩ := begins
      have hne : t.kind ≠ .rightBrace := by
        intro heq
        rw [heq] at ht
        revert ht
        decide
      simp [hne]
    · simp
  · intro fuel steps hfuel hsteps
    rw [List.length_append] at hfuel hsteps
    obtain ⟨before, rfl⟩ : ∃ before, steps = before + 1 := ⟨steps - 1, by omega⟩
    have helse : Stops [.kwElse] us := by
      rcases behind with behind | rfl
      · have hstops := behind.stops (by decide : ∀ kind ∈ declStarters, kind ∉ [Kind.kwElse]) []
        rwa [List.append_nil] at hstops
      · exact .nil _
    have hfirst : Accepts (declaration fuel) n ts (us ++ []) (some s) m := by
      rw [List.append_nil]
      exact first.nested (by omega) fun _ => helse
    have hothers := others.toEnd fuel before (by omega) (by omega)
    refine .atEnd (b := false) ?_ (.bind hfirst (.bindLast hothers (.refl _)))
    obtain ⟨t, vs, rfl, ht⟩ := begins
    rfl

end Scriptlet.Grammar
