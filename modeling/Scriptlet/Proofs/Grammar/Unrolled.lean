import Scriptlet.Proofs.Grammar.ForStatement

/-!
# Loops with clauses anywhere in a program

Only a statement begins with `for`, so wherever the word stands in what can be read, a
loop with clauses begins there. Its tokens can be replaced by those of the plain loop, in
whatever it is nested: the whole is then read as something alike. One rule for each way
to put tokens together carries this from the loop outward.
-/

namespace Scriptlet.Grammar

/-- Whether a part has no statements in it. -/
def Part.plain : Part → Bool
  | routine | methods | statement | declaration | declarations => false
  | _ => true

/-- None of the tokens is of this kind. -/
def Lacks (kind : Kind) (ts : List Token) : Prop := ∀ t ∈ ts, t.kind ≠ kind

namespace Lacks

variable {missing kind : Kind} {ts us : List Token} {t : Token}

/-- No tokens. -/
theorem nil : Lacks missing [] := fun _ h => absurd h List.not_mem_nil

/-- A token of another kind in front. -/
theorem cons (h : Lacks missing ts) (ht : t.kind = kind) (hkind : kind ≠ missing) :
    Lacks missing (t :: ts) :=
  List.forall_mem_cons.mpr ⟨ht ▸ hkind, h⟩

/-- A token of one of several other kinds in front. -/
theorem consAny {kinds : List Kind} (h : Lacks missing ts) (ht : t.kind ∈ kinds)
    (hkinds : missing ∉ kinds) : Lacks missing (t :: ts) :=
  List.forall_mem_cons.mpr ⟨fun hmissing => hkinds (hmissing ▸ ht), h⟩

/-- More tokens behind. -/
theorem append (h : Lacks missing ts) (h' : Lacks missing us) : Lacks missing (ts ++ us) :=
  List.forall_mem_append.mpr ⟨h, h'⟩

/-- A token of another kind behind. -/
theorem snoc (h : Lacks missing ts) (ht : t.kind = kind) (hkind : kind ≠ missing) :
    Lacks missing (ts ++ [t]) :=
  h.append (nil.cons ht hkind)

end Lacks

/-- Expressions, clauses and variables have no loops in them. -/
theorem Reads.noLoops {p : Part} {n m : Nat} {ts : List Token} {x : Node} (h : Reads p n ts x m)
    (hp : p.plain = true) : Lacks .kwFor ts := by
  induction h with
  | constant h => exact Lacks.nil.consAny (kind_of_constant h) (by decide)
  | receiver h => exact Lacks.nil.cons h (by decide)
  | name h => exact Lacks.nil.cons h (by decide)
  | group hleft _ hright ih =>
    exact ((ih rfl).snoc hright (by decide)).cons hleft (by decide)
  | callPrimary _ ih => exact ih rfl
  | callEmpty _ hleft hright ih =>
    exact (ih rfl).append ((Lacks.nil.cons hright (by decide)).cons hleft (by decide))
  | callWith _ hleft _ _ hright ih ihgiven =>
    exact (ih rfl).append (((ihgiven rfl).snoc hright (by decide)).cons hleft (by decide))
  | callGet _ hdot hname ih =>
    exact (ih rfl).append ((Lacks.nil.cons hname (by decide)).cons hdot (by decide))
  | argumentsLast _ ih => exact ih rfl
  | argumentsMore _ hcomma _ ih ihothers =>
    exact (ih rfl).append ((ihothers rfl).cons hcomma (by decide))
  | unaryCall _ ih => exact ih rfl
  | unarySign h _ ih => exact (ih rfl).consAny h (by decide)
  | levelOperand l _ ih => exact ih (by cases l <;> rfl)
  | levelJoin l _ h _ ih ihright =>
    exact (ih rfl).append ((ihright (by cases l <;> rfl)).consAny h (by cases l <;> decide))
  | assignmentPlain _ ih => exact ih rfl
  | assignmentVar hname hsign _ ih =>
    exact ((ih rfl).cons hsign (by decide)).cons hname (by decide)
  | assignmentSet _ hdot hname hsign _ ih ihvalue =>
    exact (ih rfl).append ((((ihvalue rfl).cons hsign (by decide)).cons hname (by decide)).cons
      hdot (by decide))
  | expression _ ih => exact ih rfl
  | clauseAbsent => exact .nil
  | clausePresent _ ih => exact ih rfl
  | parametersLast h => exact Lacks.nil.cons h (by decide)
  | parametersMore h hcomma _ ih => exact ((ih rfl).cons hcomma (by decide)).cons h (by decide)
  | varBare hname hstop => exact (Lacks.nil.cons hstop (by decide)).cons hname (by decide)
  | varWith hname hsign _ hstop ih =>
    exact (((ih rfl).snoc hstop (by decide)).cons hsign (by decide)).cons hname (by decide)
  | exprStmt _ hstop ih => exact (ih rfl).snoc hstop (by decide)
  | initialAbsent hstop => exact Lacks.nil.cons hstop (by decide)
  | initialVar h _ ih => exact (ih rfl).cons h (by decide)
  | initialExpr _ ih => exact ih rfl
  | _ => cases hp

/-- The tokens begin with a loop with clauses. Its body is whole before whatever may follow the
tokens, where nothing that is open is followed by an `else`. When the loop is replaced by the
plain one, what comes out satisfies `R`. -/
def BeginsLoop (isOpen : Bool) (ts : List Token) (R : List Token → Prop) : Prop :=
  ∃ (f : ForStatement) (behind : List Token), ts = f.tokens ++ behind ∧
    (∀ others, (isOpen = true → Stops [.kwElse] others) → f.TakesBody (behind ++ others)) ∧
    ∀ w, R (f.unrolled w ++ behind)

/-- Wherever the word `for` stands in the tokens, a loop with clauses begins that can be replaced. -/
def Unrollable (isOpen : Bool) (ts : List Token) (R : List Token → Prop) : Prop :=
  ∀ before keyword rest, ts = before ++ keyword :: rest → keyword.kind = .kwFor →
    BeginsLoop isOpen (keyword :: rest) fun us => R (before ++ us)

namespace Unrollable

variable {isOpen isOpen' : Bool} {ts us : List Token} {R Q : List Token → Prop} {t : Token}
  {kind : Kind}

/-- Without loops there is nothing to replace. -/
theorem free (h : Lacks .kwFor ts) : Unrollable isOpen ts R := by
  rintro before keyword rest rfl hkeyword
  exact absurd hkeyword (h keyword (List.mem_append_right _ List.mem_cons_self))

/-- More may come out, and more may be open. -/
theorem mono (h : Unrollable isOpen ts R) (hopen : isOpen = true → isOpen' = true)
    (himp : ∀ ts', R ts' → Q ts') : Unrollable isOpen' ts Q := by
  intro before keyword rest hts hkeyword
  obtain ⟨f, behind, heq, hbody, hR⟩ := h before keyword rest hts hkeyword
  exact ⟨f, behind, heq, fun others hothers => hbody others fun ho => hothers (hopen ho),
    fun w => himp _ (hR w)⟩

/-- A loop may begin with the first token, or stand behind it. -/
theorem first (h : Unrollable isOpen ts fun ts' => Q (t :: ts'))
    (hfirst : t.kind = .kwFor → BeginsLoop isOpen (t :: ts) Q) :
    Unrollable isOpen (t :: ts) Q := by
  intro before keyword rest hts hkeyword
  cases before with
  | nil =>
    cases hts
    exact hfirst hkeyword
  | cons t' before =>
    cases hts
    exact h before keyword rest rfl hkeyword

/-- A token of another kind in front. -/
theorem cons (h : Unrollable isOpen ts fun ts' => Q (t :: ts')) (ht : t.kind = kind)
    (hkind : kind ≠ .kwFor) : Unrollable isOpen (t :: ts) Q :=
  h.first fun hfor => absurd (ht.symm.trans hfor) hkind

/-- More tokens behind: if what is open at the end of the first ones, no `else` follows it. -/
theorem append (h : Unrollable isOpen ts fun ts' => Q (ts' ++ us))
    (h' : Unrollable isOpen' us fun us' => Q (ts ++ us'))
    (hopen : isOpen = true → ∀ others, (isOpen' = true → Stops [.kwElse] others) →
      Stops [.kwElse] (us ++ others)) : Unrollable isOpen' (ts ++ us) Q := by
  intro before keyword rest hts hkeyword
  -- The word stands in the second part, or in the first one with `inside` behind it there.
  rcases List.append_eq_append_iff.mp hts with ⟨inside, rfl, hus⟩ | ⟨inside, rfl, hrest⟩
  · obtain ⟨f, behind, heq, hbody, hQ⟩ := h' inside keyword rest hus hkeyword
    refine ⟨f, behind, heq, hbody, fun w => ?_⟩
    have hQw : Q (ts ++ (inside ++ (f.unrolled w ++ behind))) := hQ w
    rwa [← List.append_assoc] at hQw
  · cases inside with
    | nil =>
      obtain ⟨f, behind, heq, hbody, hQ⟩ := h' [] keyword rest hrest.symm hkeyword
      refine ⟨f, behind, heq, hbody, fun w => ?_⟩
      rw [List.append_nil] at hQ
      exact hQ w
    | cons _ inside =>
      cases hrest
      obtain ⟨f, behind, heq, hbody, hQ⟩ := h before keyword inside rfl hkeyword
      refine ⟨f, behind ++ us, ?_, fun others hothers => ?_, fun w => ?_⟩
      · rw [← List.append_assoc, ← heq]
        rfl
      · rw [List.append_assoc]
        exact hbody _ fun ho => hopen ho others hothers
      · have hQw : Q (before ++ (f.unrolled w ++ behind) ++ us) := hQ w
        rwa [List.append_assoc, List.append_assoc] at hQw

/-- Tokens without loops in front. -/
theorem behind (h : Unrollable isOpen us fun us' => Q (ts ++ us')) (hts : Lacks .kwFor ts) :
    Unrollable isOpen (ts ++ us) Q := by
  have hnone : Unrollable false ts fun ts' => Q (ts' ++ us) := free hts
  exact hnone.append h fun himpossible => by cases himpossible

/-- A token behind that closes what stands before it. -/
theorem snoc (h : Unrollable isOpen ts fun ts' => Q (ts' ++ [t])) (ht : t.kind = .rightBrace) :
    Unrollable false (ts ++ [t]) Q := by
  refine h.append (.free (Lacks.nil.cons ht (by decide))) fun _ others _ => ?_
  refine Stops.cons ?_
  rw [ht]
  decide

/-- What is guarded by a condition. -/
theorem guarded {keyword left right : Token}
    (h : Unrollable isOpen us fun us' => Q (keyword :: left :: (ts ++ right :: us')))
    (hkeyword : keyword.kind = kind) (hkind : kind ≠ .kwFor) (hleft : left.kind = .leftParen)
    (hts : Lacks .kwFor ts) (hright : right.kind = .rightParen) :
    Unrollable isOpen (keyword :: left :: (ts ++ right :: us)) Q :=
  .cons (.cons (.behind (.cons h hright (by decide)) hts) hleft (by decide)) hkeyword hkind

/-- A loop with clauses, in whose body others may stand. -/
theorem clauses {keyword left stop right : Token} {is cs ss : List Token}
    (h : Unrollable isOpen us fun us' =>
      Q (keyword :: left :: (is ++ (cs ++ stop :: (ss ++ right :: us')))))
    (hloop : BeginsLoop isOpen (keyword :: left :: (is ++ (cs ++ stop :: (ss ++ right :: us)))) Q)
    (hleft : left.kind = .leftParen) (his : Lacks .kwFor is) (hcs : Lacks .kwFor cs)
    (hstop : stop.kind = .semicolon) (hss : Lacks .kwFor ss) (hright : right.kind = .rightParen) :
    Unrollable isOpen (keyword :: left :: (is ++ (cs ++ stop :: (ss ++ right :: us)))) Q :=
  .first (.cons (.behind (.behind (.cons (.behind (.cons h hright (by decide)) hss) hstop
    (by decide)) hcs) his) hleft (by decide)) fun _ => hloop

end Unrollable

/-- Whether an `else` right behind what was read would belong to it; no declaration begins with one. -/
def Node.isOpen : Node → Bool
  | stmt _ isOpen => isOpen
  | stmts _ => true
  | _ => false

/-- Declarations are not followed by an `else`, if what follows them is not one. -/
theorem Reads.declarations_stops {n m : Nat} {ts others : List Token} {x : Node}
    (h : Reads .declarations n ts x m) (hothers : Stops [.kwElse] others) :
    Stops [.kwElse] (ts ++ others) := by
  rcases h.begins with hbegins | ⟨rfl, -⟩
  · exact hbegins.stops (by decide) others
  · exact hothers

/-- A loop with clauses can be replaced. -/
theorem beginsLoop {n m k j i : Nat} {keyword left stop right : Token} {is cs ss us : List Token}
    {first : Option Stmt} {e step : Option Expr} {s : Stmt} {isOpen : Bool}
    (h : keyword.kind = .kwFor) (hleft : left.kind = .leftParen)
    (initial : Reads .forInitial n is (.initial first) m)
    (condition : Reads .clause m cs (.clause e) k) (hstop : stop.kind = .semicolon)
    (increment : Reads .clause k ss (.clause step) j) (hright : right.kind = .rightParen)
    (body : Reads .statement j us (.stmt s isOpen) i) :
    BeginsLoop isOpen (keyword :: left :: (is ++ (cs ++ stop :: (ss ++ right :: us))))
      (Rereads .statement · (.stmt (desugared first (e.getD (.literal i (.bool true))) step s)
        isOpen)) := by
  obtain ⟨is, initialStop, first, rfl, hx, -⟩ := initial.exists_initial
  cases hx
  let f : ForStatement := ⟨keyword, left, is, initialStop, cs, stop, ss, right, us, h, hleft,
    ⟨n, _, m, initial⟩, ⟨m, _, k, condition⟩, hstop, ⟨k, _, j, increment⟩, hright⟩
  refine ⟨f, [], (List.append_nil _).symm, fun others hothers => ?_, fun w => ?_⟩
  · exact ⟨j, s, isOpen, i, body, hothers⟩
  · rw [List.append_nil]
    exact f.unrolled_rereads initial.rereads (f.plainCondition_rereads condition.rereads i)
      increment.rereads body.rereads

/-- Wherever a loop with clauses stands in what is read, it can be replaced by the plain one. -/
theorem Reads.unrollable {p : Part} {n m : Nat} {ts : List Token} {x : Node} (h : Reads p n ts x m)
    (hp : p.plain = false) : Unrollable x.isOpen ts (Rereads p · x) := by
  have hclosed : ∀ {P : Prop}, false = true → P := fun himpossible => by cases himpossible
  induction h with
  | routineEmpty hname hleft hright hopening _ hclosing ih =>
    have hbody := (ih rfl).mono id fun us hinside =>
      Rereads.routineEmpty hname hleft hright hopening hinside hclosing
    exact .cons (.cons (.cons (.cons (.snoc hbody hclosing) hopening (by decide)) hright (by decide))
      hleft (by decide)) hname (by decide)
  | routineWith hname hleft given few hright hopening _ hclosing _ ih =>
    have hbody := (ih rfl).mono id fun us hinside =>
      Rereads.routineWith hname hleft given.parameters_from few hright hopening hinside hclosing
    exact .guarded (.cons (.snoc hbody hclosing) hopening (by decide)) hname (by decide) hleft
      (given.noLoops rfl) hright
  | methodsNone => exact .free .nil
  | methodsMore first others ih ihothers =>
    exact ((ih rfl).mono id fun ts hfirst => hfirst.methodsMore others.rereads).append
      ((ihothers rfl).mono id fun us hothers => first.rereads.methodsMore hothers) hclosed
  | statementExpr inside => exact .free (inside.noLoops rfl)
  | statementPrint h value hstop =>
    exact .free (((value.noLoops rfl).snoc hstop (by decide)).cons h (by decide))
  | statementReturn h value hstop =>
    exact .free (((value.noLoops rfl).snoc hstop (by decide)).cons h (by decide))
  | statementWhile h hleft condition hright _ _ ih =>
    have hall := (ih rfl).mono id fun us hbody =>
      Rereads.statementWhile h hleft condition.rereads hright hbody
    exact .guarded hall h (by decide) hleft (condition.noLoops rfl) hright
  | statementIf h hleft condition hright _ _ ih =>
    have hall := (ih rfl).mono (fun _ => rfl) fun us hyes =>
      Rereads.statementIf h hleft condition.rereads hright hyes
    exact .guarded hall h (by decide) hleft (condition.noLoops rfl) hright
  | statementElse h hleft condition hright yes hmiddle no _ ihyes ihno =>
    have hno := (ihno rfl).mono id fun vs hno =>
      Rereads.statementElse h hleft condition.rereads hright yes.rereads hmiddle hno
    have hyes := (ihyes rfl).mono id fun us hyes =>
      Rereads.statementElse h hleft condition.rereads hright hyes hmiddle no.rereads
    exact .guarded (.append hyes (.cons hno hmiddle (by decide)) hclosed) h (by decide) hleft
      (condition.noLoops rfl) hright
  -- Here the word itself stands in front, and behind it are the loops in the body.
  | statementFor h hleft initial condition hstop increment hright body _ _ _ ih =>
    refine .clauses ((ih rfl).mono id fun us hbody => ?_) ?_ hleft (initial.noLoops rfl)
      (condition.noLoops rfl) hstop (increment.noLoops rfl) hright
    · exact .statementFor h hleft initial.rereads condition.rereads hstop increment.rereads hright
        hbody
    · exact beginsLoop h hleft initial (.clausePresent condition) hstop increment hright body
  | statementForever h hleft initial hstop increment hright body _ _ ih =>
    refine .clauses ((ih rfl).mono id fun us hbody => ?_) ?_ hleft (initial.noLoops rfl) .nil hstop
      (increment.noLoops rfl) hright
    · exact .statementForever h hleft initial.rereads hstop increment.rereads hright hbody
    · exact beginsLoop h hleft initial .clauseAbsent hstop increment hright body
  | statementBlock hopening _ hclosing ih =>
    have hall := (ih rfl).mono id fun us hinside =>
      Rereads.statementBlock hopening hinside hclosing
    exact .cons (.snoc hall hclosing) hopening (by decide)
  | declarationStatement _ ih => exact (ih rfl).mono id fun _ hs => hs.declarationStatement
  | declarationClass h hname hopening _ hclosing ih =>
    have hall := (ih rfl).mono id fun us hinside =>
      Rereads.declarationClass h hname hopening hinside hclosing
    exact .cons (.cons (.cons (.snoc hall hclosing) hopening (by decide)) hname (by decide)) h
      (by decide)
  | declarationFunction h _ ih =>
    have hall := (ih rfl).mono id fun us hinside => Rereads.declarationFunction h hinside
    exact .cons hall h (by decide)
  | declarationVar h inside => exact .free ((inside.noLoops rfl).cons h (by decide))
  | declarationsNone => exact .free .nil
  -- The first declaration may be open: then none of the others begins with an `else`.
  | declarationsMore first others ih ihothers =>
    exact ((ih rfl).mono id fun ts hfirst => hfirst.declarationsMore others.rereads).append
      ((ihothers rfl).mono id fun us hothers => first.rereads.declarationsMore hothers)
      fun _ _ hstops => others.declarations_stops (hstops rfl)
  | _ => cases hp

section Parse

variable {tokens before rest : List Token} {keyword : Token} {n : Nat}

/-- The tokens of the plain loop do not end the source, if those of the loop with clauses do not. -/
theorem ForStatement.unrolled_lacks {f : ForStatement} (h : Lacks .endOfFile f.tokens)
    (w : LoopTokens) : Lacks .endOfFile (f.unrolled w) := by
  unfold Lacks ForStatement.tokens at h
  simp only [List.forall_mem_cons, List.forall_mem_append] at h
  obtain ⟨-, -, ⟨hinitial, hstop, -⟩, hcondition, -, hstep, -, hbody⟩ := h
  have hguard : Lacks .endOfFile (f.plainCondition w) := by
    unfold ForStatement.plainCondition
    split
    · exact Lacks.nil.cons w.constant_kind (by decide)
    · exact hcondition
  have hinside : Lacks .endOfFile (f.plainBody w) := by
    unfold ForStatement.plainBody
    split
    · exact hbody
    · have hstepped := Lacks.append hbody (Lacks.snoc hstep w.stepStop_kind (by decide))
      exact (hstepped.snoc w.bodyClosing_kind (by decide)).cons w.bodyOpening_kind (by decide)
  have hloop : Lacks .endOfFile (f.plainLoop w) :=
    ((hguard.append (hinside.cons w.right_kind (by decide))).cons w.left_kind (by decide)).cons
      w.keyword_kind (by decide)
  unfold ForStatement.unrolled
  split
  · exact hloop
  · have hfirst : Lacks .endOfFile (f.initial ++ [f.initialStop]) :=
      List.forall_mem_append.mpr ⟨hinitial, List.forall_mem_singleton.mpr hstop⟩
    exact ((hfirst.append hloop).snoc w.closing_kind (by decide)).cons w.opening_kind (by decide)

/-- The tokens before the first end token. -/
abbrev beforeEnd (tokens : List Token) : List Token := tokens.takeWhile fun t => !t.isEnd

/-- The first end token and what follows it. -/
abbrev fromEnd (tokens : List Token) : List Token := tokens.dropWhile fun t => !t.isEnd

/-- A parse without errors is a reading of the tokens before the end. -/
theorem reads_beforeEnd (clean : (parse tokens n).errors = []) :
    Reads .declarations n (beforeEnd tokens) (.stmts (parse tokens n).program)
      (parse tokens n).nextId := by
  obtain ⟨p, after, hp, -, hreads⟩ := program_reads (beforeEnd tokens) (Cursor.start tokens n).stop n
  rw [parse_of_start hp] at clean ⊢
  exact hreads clean

/-- What the tokens before the end are read as is parsed without errors. -/
theorem Reads.parse_beforeEnd {m : Nat} {p : Program}
    (h : Reads .declarations n (beforeEnd tokens) (.stmts p) m) :
    Scriptlet.parse tokens n = ⟨p, [], m⟩ :=
  parse_of_start (h.program (Cursor.start tokens n).stop)

/-- Tokens that are parsed without errors are so from every number on. -/
theorem clean_from (clean : (parse tokens n).errors = []) (n' : Nat) :
    (parse tokens n').errors = [] := by
  obtain ⟨p, m, h, -⟩ := (reads_beforeEnd clean).rereads.stmts n'
  rw [h.parse_beforeEnd]

/-- Tokens that do not end the source are before its end. -/
theorem beforeEnd_append (h : Lacks .endOfFile before) (rest : List Token) :
    beforeEnd (before ++ rest) = before ++ beforeEnd rest := by
  refine List.takeWhile_append_of_pos fun t ht => ?_
  simpa [Token.isEnd] using h t ht

/-- What stands before the end does not end the source. -/
theorem beforeEnd_lacks (tokens : List Token) : Lacks .endOfFile (beforeEnd tokens) := by
  intro t ht
  simpa [Token.isEnd] using List.all_eq_true.mp List.all_takeWhile t ht

/-- From the end on nothing stands before it. -/
theorem beforeEnd_fromEnd (tokens : List Token) : beforeEnd (fromEnd tokens) = [] := by
  have hend := List.head?_dropWhile_not (fun t : Token => !t.isEnd) tokens
  unfold beforeEnd fromEnd
  revert hend
  cases tokens.dropWhile fun t => !t.isEnd with
  | nil => exact fun _ => rfl
  | cons t ts => exact fun hend => List.takeWhile_cons_of_neg (by simpa using hend)

/-- No `else` stands at the end. -/
theorem fromEnd_stops (tokens : List Token) : Stops [.kwElse] (fromEnd tokens) := by
  intro t ht helse
  have hend := List.head?_dropWhile_not (fun t : Token => !t.isEnd) tokens
  rw [Option.mem_def.mp ht] at hend
  simp [Token.isEnd, List.mem_singleton.mp helse] at hend

/-- Where the word `for` stands in tokens that are parsed without errors, a loop with clauses begins
whose body is whole there. When the loop is replaced by the plain one, the tokens are parsed
without errors to a program alike, from whatever number on. -/
theorem parse_unrolled (clean : (parse (before ++ keyword :: rest) n).errors = [])
    (hkeyword : keyword.kind = .kwFor) (hbefore : Lacks .endOfFile before) :
    (∃ (f : ForStatement) (behind : List Token), keyword :: rest = f.tokens ++ behind ∧
      f.TakesBody behind) ∧
    ∀ (f : ForStatement) (behind : List Token), keyword :: rest = f.tokens ++ behind →
      f.TakesBody behind → ∀ w n',
        let parsed := parse (before ++ keyword :: rest) n
        let parsed' := parse (before ++ (f.unrolled w ++ behind)) n'
        parsed'.errors = [] ∧ Stmt.AllAlike exceptNumbers parsed.program parsed'.program := by
  have hreads := reads_beforeEnd clean
  have hinside : beforeEnd (keyword :: rest) = keyword :: beforeEnd rest :=
    List.takeWhile_cons_of_pos (by simp [Token.isEnd, hkeyword])
  rw [beforeEnd_append hbefore, hinside] at hreads
  obtain ⟨f, behind, heq, hbody, hreplaced⟩ :=
    hreads.unrollable rfl before keyword (beforeEnd rest) rfl hkeyword
  have hwhole := hbody (fromEnd rest) fun _ => fromEnd_stops rest
  have hall : keyword :: rest = f.tokens ++ (behind ++ fromEnd rest) := by
    rw [← List.append_assoc, ← heq, List.cons_append, List.takeWhile_append_dropWhile]
  refine ⟨⟨f, _, hall, hwhole⟩, fun f' behind' hall' hwhole' w n' => ?_⟩
  obtain ⟨rfl, rfl⟩ := hwhole.unique hwhole' (hall.symm.trans hall')
  have hlacks : Lacks .endOfFile (f.tokens ++ behind) := by
    rw [← heq, ← hinside]
    exact beforeEnd_lacks _
  obtain ⟨htokens, hbehind⟩ := List.forall_mem_append.mp hlacks
  have hbefore' : beforeEnd (before ++ (f.unrolled w ++ (behind ++ fromEnd rest))) =
      before ++ (f.unrolled w ++ behind) := by
    rw [beforeEnd_append hbefore, beforeEnd_append (f.unrolled_lacks htokens w),
      beforeEnd_append hbehind, beforeEnd_fromEnd, List.append_nil]
  obtain ⟨p, m, hread, halike⟩ := (hreplaced w).stmts n'
  rw [← hbefore'] at hread
  rw [hread.parse_beforeEnd]
  exact ⟨rfl, halike⟩

end Parse

end Scriptlet.Grammar
