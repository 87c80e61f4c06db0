import Scriptlet.Proofs.Alike.Sessions
import Scriptlet.Proofs.Grammar.Stretch

/-!
# Recovery is local

Behind statements that can be read stands a stretch that ends in a semicolon, and
behind it further statements that can be read. Whatever the stretch holds, apart from
words that begin a statement further inside, the statements before it are read as if
they stood alone, the stretch makes one statement or none, and those behind it are
read as if they stood alone, but for the numbers of their expressions.
-/

namespace Scriptlet

/-- All lines correspond to themselves, and every number to the one so much greater. -/
def Likeness.shifted (distance : Nat) : Likeness := ⟨fun i i' => i + distance = i', Eq⟩

/-- Tokens are alike to themselves where only numbers differ. -/
theorem Token.AllAlike.refl_shifted (distance : Nat) (ts : List Token) :
    Token.AllAlike (.shifted distance) ts ts :=
  List.forall₂_same.mpr fun _ _ => ⟨rfl, rfl, rfl, rfl⟩

namespace Grammar

variable {n m : Nat} {ts rest : List Token} {ss : List Stmt}

/-- What goes on behind a reader goes on behind the one that it goes on as. -/
theorem Continues.carry {α β : Type} {first after : Reader β} {next : β → Reader α}
    (h : Continues first after n ts rest m) :
    Continues (first >>= next) (after >>= next) n ts rest m := by
  intro stop errors
  change EStateM.bind first next _ = EStateM.bind after next _
  unfold EStateM.bind
  rw [h stop errors]

/-- Declarations that can be read are read before anything but an `else`, and the
reading goes on behind them. -/
theorem Reads.continues (h : Reads .declarations n ts (.stmts ss) m) (hrest : Stops [.kwElse] rest)
    {fuel steps : Nat} (hfuel : ts.length + rest.length < fuel)
    (hsteps : ts.length + rest.length < steps) :
    ∃ left, rest.length < left ∧
      Continues (programFrom (declaration fuel) steps)
        ((ss ++ ·) <$> programFrom (declaration fuel) left) n ts rest m := by
  induction ss generalizing n ts steps with
  | nil =>
    cases h
    refine ⟨steps, by simpa using hsteps, fun stop errors => ?_⟩
    simp
  | cons s ss ih =>
    cases h with
    | @declarationsMore _ k _ vs us _ isOpen _ first others =>
      have hbegins : BeginsWith declStarters vs := first.beginsWith rfl
      obtain ⟨t, vs', hvs, ht⟩ := hbegins
      have hpositive : 0 < vs.length := by
        rw [hvs]
        exact Nat.zero_lt_succ _
      rw [List.length_append] at hfuel hsteps
      obtain ⟨before, rfl⟩ : ∃ before, steps = before + 1 := ⟨steps - 1, by omega⟩
      have helse : Stops [.kwElse] (us ++ rest) := by
        rcases others.begins with hbegins | ⟨rfl, -⟩
        · exact hbegins.stops (by decide) rest
        · exact hrest
      have hcomplete : CompletesDeclaration n vs s isOpen k := first.completes
      have hfirst : Accepts (declaration fuel) n vs (us ++ rest) (some s) k := by
        refine hcomplete.nested ?_ fun _ => helse
        rw [List.length_append]
        omega
      obtain ⟨left, hleft, hothers⟩ := ih others (by omega) (by omega : _ < before)
      refine ⟨left, hleft, .atEnd (b := false) (by simp [hvs]) (.bind hfirst ?_)⟩
      have hboth : ((s :: ss ++ ·) <$> programFrom (declaration fuel) left : Reader Program) =
          ((ss ++ ·) <$> programFrom (declaration fuel) left) >>= fun others =>
            pure ((some s).toList ++ others) := by
        simp only [map_eq_pure_bind, bind_assoc, pure_bind]
        rfl
      rw [hboth]
      exact hothers.carry

namespace Stretch

/-- What may stand before a stretch: a word that begins a simple statement, or nothing
where the stretch opens no block. -/
inductive Led (S : Stretch) : List Token → Prop where
  | plain (h : ∀ t ∈ S.inner.head?, t.kind ≠ .leftBrace) : S.Led []
  | word {t : Token} (h : t.kind ∈ [Kind.kwVar, .kwPrint, .kwReturn]) : S.Led [t]

variable {S : Stretch} {lead : List Token}

/-- What leads a stretch does not end the source. -/
theorem Led.ne_end (h : S.Led lead) : ∀ t ∈ lead, t.kind ≠ .endOfFile := by
  have hword : ∀ kind ∈ [Kind.kwVar, .kwPrint, .kwReturn], kind ≠ .endOfFile := by decide
  intro t ht
  cases h with
  | plain _ => exact absurd ht List.not_mem_nil
  | word hkind =>
    rw [List.mem_singleton.mp ht]
    exact hword _ hkind

/-- Where a stretch does not begin with an `else` itself, there is none at its head. -/
theorem Led.stops_else (h : S.Led lead)
    (hfirst : lead = [] → ∀ t ∈ S.inner.head?, t.kind ≠ .kwElse) :
    Stops [.kwElse] (lead ++ (S.inner ++ S.last :: S.behind)) := by
  cases h with
  | plain _ =>
    have hfirst := hfirst rfl
    revert hfirst
    cases S.inner with
    | nil => exact fun _ => .cons (by rw [S.last_kind]; decide)
    | cons t others =>
      exact fun hfirst => .cons fun hkind => hfirst t rfl (List.mem_singleton.mp hkind)
  | word hkind =>
    refine .cons fun helse => ?_
    rw [List.mem_singleton.mp helse] at hkind
    revert hkind
    decide

/-- Where a stretch opens no block, it begins with nothing that leads a statement. -/
theorem stops_of_plain (hbrace : ∀ t ∈ S.inner.head?, t.kind ≠ .leftBrace) {kind : Kind}
    (hkind : beginsStatement kind = true ∨ kind = .leftBrace) :
    Stops [kind] (S.inner ++ S.last :: S.behind) := by
  have hfirst : ∀ t ∈ (S.inner ++ S.last :: S.behind).head?,
      beginsStatement t.kind = false ∧ t.kind ≠ .leftBrace := by
    have hkinds := S.inner_kind
    revert hbrace hkinds
    cases S.inner with
    | nil =>
      intro _ _ t ht
      cases ht
      rw [S.last_kind]
      decide
    | cons first others =>
      intro hbrace hkinds t ht
      cases ht
      exact ⟨(hkinds first List.mem_cons_self).2, hbrace first rfl⟩
  intro t ht hmem
  obtain ⟨hbegins, hne⟩ := hfirst t ht
  have ht := List.mem_singleton.mp hmem
  rcases hkind with hkind | hkind
  · rw [ht, hkind] at hbegins
    cases hbegins
  · exact hne (ht.trans hkind)

/-- Behind what may lead a stretch, a declaration goes on as a simple statement does, which
goes behind the stretch or is given up inside it. -/
theorem Led.simple (h : S.Led lead) (fuel n : Nat) :
    ∃ simple, S.Ends simple ∧
      Continues (declarationRule (Grammar.declaration fuel) (statement fuel) (fuel + 1)) simple n
        lead (S.inner ++ S.last :: S.behind) n := by
  cases h with
  | plain hbrace =>
    have hword : ∀ kind, beginsStatement kind = true →
        Stops [kind] ([] ++ (S.inner ++ S.last :: S.behind)) :=
      fun kind hkind => stops_of_plain hbrace (.inl hkind)
    refine ⟨_, expressionStatement_ends (fuel + 1), ?_⟩
    exact .skip (hword _ rfl) (.skip (hword _ rfl) (.skip (hword _ rfl) (.skip (hword _ rfl)
      (.skip (hword _ rfl) (.skip (hword _ rfl) (.skip (hword _ rfl) (.skip (hword _ rfl)
      (.skip (stops_of_plain hbrace (.inr rfl)) (.refl _)))))))))
  | @word t ht =>
    have hother : ∀ kind, t.kind ≠ kind → Stops [kind] ([t] ++ (S.inner ++ S.last :: S.behind)) :=
      fun kind hne => .cons (by simpa using hne)
    simp only [List.mem_cons, List.not_mem_nil, or_false] at ht
    rcases ht with ht | ht | ht
    · refine ⟨_, varDeclaration_ends (fuel + 1), ?_⟩
      exact .skip (hother _ (by rw [ht]; decide)) (.skip (hother _ (by rw [ht]; decide))
        (.accept ht (.refl _)))
    · refine ⟨_, printStatement_ends (fuel + 1), ?_⟩
      exact .skip (hother _ (by rw [ht]; decide)) (.skip (hother _ (by rw [ht]; decide))
        (.skip (hother _ (by rw [ht]; decide)) (.skip (hother _ (by rw [ht]; decide))
        (.skip (hother _ (by rw [ht]; decide)) (.accept ht (.refl _))))))
    · refine ⟨_, returnStatement_ends t (fuel + 1), ?_⟩
      exact .skip (hother _ (by rw [ht]; decide)) (.skip (hother _ (by rw [ht]; decide))
        (.skip (hother _ (by rw [ht]; decide)) (.skip (hother _ (by rw [ht]; decide))
        (.skip (hother _ (by rw [ht]; decide)) (.skip (hother _ (by rw [ht]; decide))
        (.accept ht (.refl _)))))))

/-- So a declaration is read there or noted, and either way the reading goes on just
behind the semicolon. -/
theorem Led.declaration (h : S.Led lead) {fuel : Nat} (n : Nat) (stop : Token)
    (errors : List SyntaxError) (hfuel : (lead ++ (S.inner ++ S.last :: S.behind)).length < fuel) :
    ∃ found k notes,
      Grammar.declaration fuel ⟨lead ++ (S.inner ++ S.last :: S.behind), stop, n, errors⟩ =
        .ok found ⟨S.behind, stop, k, errors ++ notes⟩ ∧
      n ≤ k ∧ (∀ e ∈ notes, e.place ∈ S.tokens) ∧
      (found = none ↔ notes.countP (fun e => e.fault.abandons) = 1) := by
  obtain ⟨before, rfl⟩ : ∃ before, fuel = before + 1 := ⟨fuel - 1, by omega⟩
  have hne : lead ++ (S.inner ++ S.last :: S.behind) ≠ [] := by simp
  have hyields := (declaration_statement_obey (before + 1)).1
    ⟨lead ++ (S.inner ++ S.last :: S.behind), stop, n, errors⟩ hne
  have hleaves : S.Leaves ⟨lead ++ (S.inner ++ S.last :: S.behind), stop, n, errors⟩
      (fun _ after => after.rest = S.behind)
      (declarationRule (Grammar.declaration before) (statement before) (before + 1)
        ⟨lead ++ (S.inner ++ S.last :: S.behind), stop, n, errors⟩) := by
    obtain ⟨simple, hends, hcontinues⟩ := h.simple before n
    rw [hcontinues stop errors]
    exact .behind (.none rfl) (hends ⟨_, stop, n, errors⟩ ⟨S.inner, rfl, List.suffix_refl _⟩)
  have hmild : ∀ found : List SyntaxError,
      (∀ e ∈ found, e.place ∈ S.tokens ∧ e.fault.abandons = false) →
        found.countP (fun e => e.fault.abandons) = 0 := by
    intro found hfound
    rw [List.countP_eq_zero]
    intro e he
    rw [(hfound e he).2]
    exact Bool.false_ne_true
  rw [Grammar.declaration] at hyields ⊢
  unfold recovering at hyields ⊢
  revert hyields
  revert hleaves
  cases declarationRule (Grammar.declaration before) (statement before) (before + 1)
    ⟨lead ++ (S.inner ++ S.last :: S.behind), stop, n, errors⟩ with
  | ok s after =>
    obtain ⟨rest, stop', k, errors'⟩ := after
    rintro ⟨hrest, found, herrors, hfound⟩ ⟨used, _, passes, -, -⟩
    obtain rfl : rest = S.behind := hrest
    obtain rfl : stop' = stop := passes.stop
    obtain rfl : errors' = errors ++ found := herrors
    refine ⟨some s, k, found, rfl, passes.numbers, fun e he => (hfound e he).1, ?_⟩
    rw [hmild found hfound]
    simp
  | error halt after =>
    cases halt with
    | exhausted =>
      rintro - hdry
      exact absurd hfuel (Nat.not_lt.mpr hdry)
    | failed e =>
      obtain ⟨rest, stop', k, errors'⟩ := after
      rintro ⟨hwithin, ⟨found, herrors, hfound⟩, hplace, habandons⟩ ⟨used, _, passes, -, -⟩
      obtain rfl : stop' = stop := passes.stop
      obtain rfl : errors' = errors ++ found := herrors
      refine ⟨none, k, found ++ [e], ?_, passes.numbers, ?_, ?_⟩
      · have hrest : boundary rest = S.behind := hwithin.boundary
        simp [Cursor.recover, Cursor.note, hrest]
      · intro e' he'
        rcases List.mem_append.mp he' with he' | he'
        · exact (hfound e' he').1
        · rw [List.mem_singleton.mp he']
          exact hplace
      · rw [List.countP_append, hmild found hfound]
        simp [habandons]

/-- A program that goes on with a stretch and with declarations that can be read behind it
is read to its end: those declarations are there as they are read alone. -/
theorem Led.programFrom (h : S.Led lead) {fuel steps : Nat} (n : Nat) (stop : Token)
    (hfuel : (lead ++ (S.inner ++ S.last :: S.behind)).length < fuel)
    (hsteps : (lead ++ (S.inner ++ S.last :: S.behind)).length < steps) :
    ∃ found k notes, n ≤ k ∧ (∀ e ∈ notes, e.place ∈ S.tokens) ∧
      (found = none ↔ notes.countP (fun e => e.fault.abandons) = 1) ∧
      ∀ ss m, Reads .declarations k S.behind (.stmts ss) m →
        Grammar.programFrom (Grammar.declaration fuel) steps
          ⟨lead ++ (S.inner ++ S.last :: S.behind), stop, n, []⟩ =
            .ok (found.toList ++ ss) ⟨[], stop, m, notes⟩ := by
  obtain ⟨before, rfl⟩ : ∃ before, steps = before + 1 := ⟨steps - 1, by omega⟩
  obtain ⟨found, k, notes, hfound, hk, hplaces, hmissing⟩ :=
    h.declaration n stop [] hfuel
  refine ⟨found, k, notes, hk, hplaces, hmissing, fun ss m hreads => ?_⟩
  have hcomplete : CompletesDeclarations k S.behind ss m := hreads.completes
  simp only [List.length_append, List.length_cons] at hfuel hsteps
  have hbehind := hcomplete.toEnd fuel before (by omega) (by omega) stop notes
  rw [List.append_nil] at hbehind
  have hsome : (lead ++ (S.inner ++ S.last :: S.behind)).isEmpty = false := by simp
  unfold Grammar.programFrom
  rw [bind_of_ok (atEnd_eq _)]
  dsimp only
  rw [hsome, if_neg Bool.false_ne_true, bind_of_ok hfound, List.nil_append, bind_of_ok hbehind]
  rfl

/-- Declarations that can be read, a stretch and further declarations that can be read make
a program: the declarations are there as they are read alone. -/
theorem Led.program (h : S.Led lead) (hfirst : lead = [] → ∀ t ∈ S.inner.head?, t.kind ≠ .kwElse)
    {as : List Token} {a : Program} (hbefore : Reads .declarations n as (.stmts a) m)
    (stop : Token) :
    ∃ found k notes, m ≤ k ∧ (∀ e ∈ notes, e.place ∈ S.tokens) ∧
      (found = none ↔ notes.countP (fun e => e.fault.abandons) = 1) ∧
      ∀ ss j, Reads .declarations k S.behind (.stmts ss) j →
        Grammar.program ((as ++ (lead ++ (S.inner ++ S.last :: S.behind))).length + 1)
          ⟨as ++ (lead ++ (S.inner ++ S.last :: S.behind)), stop, n, []⟩ =
            .ok (a ++ (found.toList ++ ss)) ⟨[], stop, j, notes⟩ := by
  have henough : as.length + (lead ++ (S.inner ++ S.last :: S.behind)).length <
      (as ++ (lead ++ (S.inner ++ S.last :: S.behind))).length + 1 := by
    rw [@List.length_append _ as]
    exact Nat.lt_succ_self _
  obtain ⟨steps, hsteps, hcontinues⟩ :=
    hbefore.continues (h.stops_else hfirst) henough henough
  obtain ⟨found, k, notes, hk, hplaces, hmissing, hsettles⟩ :=
    h.programFrom m stop (Nat.lt_of_le_of_lt (Nat.le_add_left _ _) henough) hsteps
  refine ⟨found, k, notes, hk, hplaces, hmissing, fun ss j hreads => ?_⟩
  unfold Grammar.program
  rw [hcontinues stop []]
  change EStateM.map _ _ _ = _
  unfold EStateM.map
  rw [hsettles ss j hreads]

end Stretch

variable {as bs lead garbage : List Token} {semicolon stop stop' stop'' : Token}

/-- A program that is parsed without errors is read from any later number on, and only its
numbers change. -/
theorem reads_shifted {k : Nat} (hts : ∀ t ∈ ts, t.kind ≠ .endOfFile)
    (hstop : stop.kind = .endOfFile) (clean : (parse (ts ++ [stop]) n).errors = []) (hk : n ≤ k) :
    ∃ ss m, Reads .declarations k ts (.stmts ss) m ∧
      Stmt.AllAlike (.shifted (k - n)) (parse (ts ++ [stop]) n).program ss := by
  have halike : (parse (ts ++ [stop]) n).Alike (.shifted (k - n)) (parse (ts ++ [stop]) k) := by
    refine parse_alike (.refl_shifted _ _) ⟨stop, by simp, by simp [Token.isEnd, hstop]⟩ ?_
    intro j
    change n + j + (k - n) = k + j
    omega
  have herrors := halike.errors
  rw [clean] at herrors
  exact ⟨_, _, reads_of_parse hts hstop (List.forall₂_nil_left_iff.mp herrors), halike.program⟩

/-- Between two programs that are parsed without errors stands a stretch of tokens up to
a semicolon, which may begin with a word for a simple statement and holds no further word
that begins a statement. The statements before it stay, those behind it stay but for
their numbers, it makes at most one itself, and every violation shows inside it; it makes
none exactly when one of them gives a statement up. -/
theorem parse_recovers (n : Nat)
    (has : ∀ t ∈ as, t.kind ≠ .endOfFile) (hbs : ∀ t ∈ bs, t.kind ≠ .endOfFile)
    (hstop : stop.kind = .endOfFile) (hstop' : stop'.kind = .endOfFile)
    (hstop'' : stop''.kind = .endOfFile)
    (cleanBefore : (parse (as ++ [stop]) n).errors = [])
    (cleanBehind : (parse (bs ++ [stop']) n).errors = [])
    (hlead : lead = [] ∨ ∃ t, lead = [t] ∧ t.kind ∈ [Kind.kwVar, .kwPrint, .kwReturn])
    (hgarbage : ∀ t ∈ garbage, t.kind ∉ [Kind.semicolon, .endOfFile, .kwClass, .kwFunc, .kwVar,
      .kwFor, .kwIf, .kwWhile, .kwPrint, .kwReturn])
    (hfirst : lead = [] → ∀ t ∈ garbage.head?, t.kind ∉ [Kind.leftBrace, .kwElse])
    (hsemicolon : semicolon.kind = .semicolon) :
    let whole := parse (as ++ lead ++ garbage ++ [semicolon] ++ bs ++ [stop'']) n
    (∃ middle : Option Stmt, ∃ behind distance,
      whole.program = (parse (as ++ [stop]) n).program ++ middle.toList ++ behind ∧
      Stmt.AllAlike (.shifted distance) (parse (bs ++ [stop']) n).program behind ∧
      (middle = none ↔ whole.errors.countP (fun e => e.fault.abandons) = 1)) ∧
    ∀ e ∈ whole.errors, e.place ∈ lead ++ garbage ++ [semicolon] := by
  have hkinds : ∀ kind : Kind, kind ∉ [Kind.semicolon, .endOfFile, .kwClass, .kwFunc, .kwVar,
      .kwFor, .kwIf, .kwWhile, .kwPrint, .kwReturn] →
      kind ≠ .semicolon ∧ beginsStatement kind = false := by
    intro kind
    cases kind <;> decide
  let S : Stretch := ⟨garbage, semicolon, bs, fun t ht => hkinds t.kind (hgarbage t ht), hsemicolon⟩
  have hled : S.Led lead := by
    rcases hlead with rfl | ⟨word, rfl, hkind⟩
    · exact .plain fun t ht hkind => hfirst rfl t ht (by rw [hkind]; decide)
    · exact .word hkind
  have hends : ∀ t ∈ as ++ (lead ++ (garbage ++ semicolon :: bs)), t.kind ≠ .endOfFile := by
    intro t ht
    simp only [List.mem_append, List.mem_cons] at ht
    rcases ht with ht | ht | ht | rfl | ht
    · exact has t ht
    · exact hled.ne_end t ht
    · exact fun hkind => hgarbage t ht (by rw [hkind]; decide)
    · rw [hsemicolon]
      decide
    · exact hbs t ht
  have hbefore := reads_of_parse has hstop cleanBefore
  obtain ⟨found, k, notes, hk, hplaces, hmissing, hprogram⟩ :=
    hled.program (fun hnil t ht hkind => hfirst hnil t ht (by rw [hkind]; decide)) hbefore stop''
  obtain ⟨b, j, hbehind, halike⟩ :=
    reads_shifted hbs hstop' cleanBehind (Nat.le_trans (le_parse_nextId n has hstop) hk)
  have hwhole := parse_of_program hends hstop'' (hprogram b j hbehind)
  have hjoined : as ++ lead ++ garbage ++ [semicolon] ++ bs ++ [stop''] =
      as ++ (lead ++ (garbage ++ semicolon :: bs)) ++ [stop''] := by
    simp
  rw [hjoined, hwhole]
  refine ⟨⟨found, b, k - n, (List.append_assoc _ _ _).symm, halike, hmissing⟩, ?_⟩
  intro e he
  rw [List.append_assoc]
  exact List.mem_append_right _ (hplaces e he)

/-- The tokens of `if (a) b;`. -/
def openBranch : List Token :=
  [⟨.kwIf, "if", none, 1⟩, ⟨.leftParen, "(", none, 1⟩, ⟨.identifier, "a", none, 1⟩,
    ⟨.rightParen, ")", none, 1⟩, ⟨.identifier, "b", none, 1⟩, ⟨.semicolon, ";", none, 1⟩]

/-- The tokens of `x = nil = c else \x7b d`, which follow a `var`. -/
def brokenVariable : List Token :=
  [⟨.identifier, "x", none, 2⟩, ⟨.equal, "=", none, 2⟩, ⟨.kwNil, "nil", none, 2⟩,
    ⟨.equal, "=", none, 2⟩, ⟨.identifier, "c", none, 2⟩, ⟨.kwElse, "else", none, 2⟩,
    ⟨.leftBrace, "\x7b", none, 2⟩, ⟨.identifier, "d", none, 2⟩]

/-- The tokens of `e.f;`. -/
def properties : List Token :=
  [⟨.identifier, "e", none, 3⟩, ⟨.dot, ".", none, 3⟩, ⟨.identifier, "f", none, 3⟩,
    ⟨.semicolon, ";", none, 3⟩]

/-- The keyword before them. -/
def variableWord : Token := ⟨.kwVar, "var", none, 2⟩

/-- The semicolon behind them. -/
def variableEnd : Token := ⟨.semicolon, ";", none, 2⟩

/-- The target is noted first, then the variable is given up at the `else`; the branch
before it and the property behind it are read as they are alone. -/
theorem parse_brokenVariable :
    let whole := parse (openBranch ++ [variableWord] ++ brokenVariable ++ [variableEnd] ++
      properties ++ [Token.endAt 3]) 0
    (∀ t ∈ openBranch, t.kind ≠ .endOfFile) ∧ (∀ t ∈ properties, t.kind ≠ .endOfFile) ∧
      (parse (openBranch ++ [Token.endAt 1]) 0).errors = [] ∧
      (parse (properties ++ [Token.endAt 3]) 0).errors = [] ∧
      (∀ t ∈ brokenVariable, t.kind ∉ [Kind.semicolon, .endOfFile, .kwClass, .kwFunc, .kwVar,
        .kwFor, .kwIf, .kwWhile, .kwPrint, .kwReturn]) ∧
      whole.errors = [⟨⟨.equal, "=", none, 2⟩, .invalidTarget⟩,
        ⟨⟨.kwElse, "else", none, 2⟩, .missing .variableEnd⟩] ∧
      (∃ middle : Option Stmt, ∃ behind distance,
        whole.program = (parse (openBranch ++ [Token.endAt 1]) 0).program ++ middle.toList ++
          behind ∧
        Stmt.AllAlike (.shifted distance) (parse (properties ++ [Token.endAt 3]) 0).program
          behind ∧
        (middle = none ↔ whole.errors.countP (fun e => e.fault.abandons) = 1)) ∧
      ∀ e ∈ whole.errors, e.place ∈ [variableWord] ++ brokenVariable ++ [variableEnd] := by
  have has : ∀ t ∈ openBranch, t.kind ≠ .endOfFile := by decide
  have hbs : ∀ t ∈ properties, t.kind ≠ .endOfFile := by decide
  have hbefore : (parse (openBranch ++ [Token.endAt 1]) 0).errors = [] := by cbv
  have hbehind : (parse (properties ++ [Token.endAt 3]) 0).errors = [] := by cbv
  have hbroken : ∀ t ∈ brokenVariable, t.kind ∉ [Kind.semicolon, .endOfFile, .kwClass, .kwFunc,
      .kwVar, .kwFor, .kwIf, .kwWhile, .kwPrint, .kwReturn] := by decide
  have hled : [variableWord] = [] ∨ ∃ t, [variableWord] = [t] ∧
      t.kind ∈ [Kind.kwVar, .kwPrint, .kwReturn] := .inr ⟨_, rfl, by decide⟩
  have herrors : (parse (openBranch ++ [variableWord] ++ brokenVariable ++ [variableEnd] ++
      properties ++ [Token.endAt 3]) 0).errors = [⟨⟨.equal, "=", none, 2⟩, .invalidTarget⟩,
        ⟨⟨.kwElse, "else", none, 2⟩, .missing .variableEnd⟩] := by
    cbv
  have hrecovers := @parse_recovers openBranch properties [variableWord] brokenVariable variableEnd
    (Token.endAt 1) (Token.endAt 3) (Token.endAt 3) 0 has hbs rfl rfl rfl hbefore hbehind hled
    hbroken (fun hnil => by cases hnil) rfl
  exact ⟨has, hbs, hbefore, hbehind, hbroken, herrors, hrecovers⟩

end Grammar

end Scriptlet
