import Scriptlet.Grammar.Stmt
import Scriptlet.Proofs.Grammar.Accepts

/-!
# Reading inside a stretch that ends in a semicolon

Expressions hold no semicolon, so whatever stands between here and the next one, a
reader of expressions comes to its end before that semicolon, at it or not at all.
When the tokens in between begin no statement either, recovery goes on just behind
the semicolon, and so does every simple statement, whether it could be read or not.
-/

namespace Scriptlet.Grammar

variable {α β : Type}

/-- Tokens up to a semicolon, none of which is one or begins a statement, and those
behind it. -/
structure Stretch where
  /-- The tokens before the semicolon. -/
  inner : List Token
  /-- The semicolon. -/
  last : Token
  /-- The tokens behind it. -/
  behind : List Token
  inner_kind : ∀ t ∈ inner, t.kind ≠ .semicolon ∧ beginsStatement t.kind = false
  last_kind : last.kind = .semicolon

namespace Stretch

variable {S : Stretch} {c c' : Cursor}

/-- The tokens of a stretch with its semicolon. -/
def tokens (S : Stretch) : List Token := S.inner ++ [S.last]

/-- A cursor inside the stretch, at the semicolon at the latest. -/
def Within (S : Stretch) (c : Cursor) : Prop :=
  ∃ left, c.rest = left ++ S.last :: S.behind ∧ left <:+ S.inner

/-- Violations noted on the way, at tokens of the stretch; none gives a statement up. -/
def Notes (S : Stretch) (c c' : Cursor) : Prop :=
  ∃ found, c'.errors = c.errors ++ found ∧
    ∀ e ∈ found, e.place ∈ S.tokens ∧ e.fault.abandons = false

/-- Where nothing is noted. -/
theorem Notes.none (h : c'.errors = c.errors) : S.Notes c c' :=
  ⟨[], by rw [h, List.append_nil], fun _ he => absurd he List.not_mem_nil⟩

/-- Notes behind one another. -/
theorem Notes.trans {c'' : Cursor} (h : S.Notes c c') (h' : S.Notes c' c'') : S.Notes c c'' := by
  obtain ⟨found, hfound, hmild⟩ := h
  obtain ⟨later, hlater, hmild'⟩ := h'
  refine ⟨found ++ later, by rw [hlater, hfound, List.append_assoc], fun e he => ?_⟩
  rcases List.mem_append.mp he with he | he
  · exact hmild e he
  · exact hmild' e he

/-- One more note. -/
theorem Notes.one {place : Token} {fault : SyntaxFault} (hplace : place ∈ S.tokens)
    (hfault : fault.abandons = false) : S.Notes c (c.note ⟨place, fault⟩) := by
  refine ⟨[⟨place, fault⟩], rfl, fun e he => ?_⟩
  rw [List.mem_singleton.mp he]
  exact ⟨hplace, hfault⟩

/-- The next token of a cursor inside belongs to the stretch. -/
theorem Within.here (h : S.Within c) : c.here ∈ S.tokens := by
  obtain ⟨left, hrest, hleft⟩ := h
  unfold Cursor.here
  rw [hrest]
  cases left with
  | nil => exact List.mem_append_right _ List.mem_cons_self
  | cons t left => exact List.mem_append_left _ (hleft.subset List.mem_cons_self)

/-- Behind a token that is no semicolon one is still inside. -/
theorem Within.next {t : Token} {rest : List Token} (h : S.Within c) (hrest : c.rest = t :: rest)
    (ht : t.kind ≠ .semicolon) : S.Within { c with rest } ∧ t ∈ S.tokens := by
  have hhere := h.here
  unfold Cursor.here at hhere
  rw [hrest] at hhere
  refine ⟨?_, hhere⟩
  obtain ⟨left, hleft, hsuffix⟩ := h
  rw [hrest] at hleft
  cases left with
  | nil =>
    cases hleft
    exact absurd S.last_kind ht
  | cons t' left =>
    cases hleft
    exact ⟨left, rfl, (List.suffix_cons t left).trans hsuffix⟩

/-- Recovery inside a stretch goes on just behind its semicolon. -/
theorem Within.boundary (h : S.Within c) : boundary c.rest = S.behind := by
  have hafter : ∀ (left : List Token) (previous : Token), previous.kind ≠ .semicolon →
      (∀ t ∈ left, t.kind ≠ .semicolon ∧ beginsStatement t.kind = false) →
        skipAfter previous (left ++ S.last :: S.behind) = S.behind := by
    intro left
    induction left with
    | nil =>
      intro previous hprevious _
      have hlast : ¬(previous.kind = .semicolon ∨ beginsStatement S.last.kind = true) := by
        rw [S.last_kind]
        simp [hprevious, beginsStatement]
      rw [List.nil_append, skipAfter, if_neg hlast]
      cases hbehind : S.behind with
      | nil => rfl
      | cons t rest => rw [skipAfter, if_pos (Or.inl S.last_kind)]
    | cons t left ih =>
      intro previous hprevious hleft
      obtain ⟨ht, hbegins⟩ := hleft t List.mem_cons_self
      rw [List.cons_append, skipAfter, if_neg (by simp [hprevious, hbegins])]
      exact ih t ht fun t' ht' => hleft t' (List.mem_cons_of_mem t ht')
  obtain ⟨left, hrest, hleft⟩ := h
  rw [hrest]
  cases left with
  | nil =>
    change skipAfter S.last S.behind = S.behind
    cases hbehind : S.behind with
    | nil => rfl
    | cons t rest => rw [skipAfter, if_pos (Or.inl S.last_kind)]
  | cons t left =>
    have hkinds := fun t' ht' => S.inner_kind t' (hleft.subset ht')
    exact hafter left t (hkinds t List.mem_cons_self).1
      fun t' ht' => hkinds t' (List.mem_cons_of_mem t ht')

/-- What a result may be for a cursor inside: a violation inside, or a value with
the cursor it leaves. -/
def Leaves (S : Stretch) (c : Cursor) (holds : α → Cursor → Prop) :
    EStateM.Result Halt Cursor α → Prop
  | .ok v after => holds v after ∧ S.Notes c after
  | .error (.failed e) after =>
    S.Within after ∧ S.Notes c after ∧ e.place ∈ S.tokens ∧ e.fault.abandons = true
  | .error .exhausted _ => True

/-- A result behind further notes. -/
theorem Leaves.behind {holds : α → Cursor → Prop}
    {result : EStateM.Result Halt Cursor α} (notes : S.Notes c c')
    (h : S.Leaves c' holds result) : S.Leaves c holds result := by
  cases result with
  | ok v after => exact ⟨h.1, notes.trans h.2⟩
  | error halt after =>
    cases halt with
    | exhausted => trivial
    | failed e => exact ⟨h.1, notes.trans h.2.1, h.2.2⟩

/-- A reader that stays inside the stretch, whatever it comes to; its values are as
stated. -/
def Confines (S : Stretch) (values : α → Prop) (reader : Reader α) : Prop :=
  ∀ c, S.Within c → S.Leaves c (fun v after => values v ∧ S.Within after) (reader c)

/-- A reader that goes behind the stretch exactly when it gives a value. -/
def Ends (S : Stretch) (reader : Reader α) : Prop :=
  ∀ c, S.Within c → S.Leaves c (fun _ after => after.rest = S.behind) (reader c)

/-- One reader inside the stretch, and another one behind it. -/
theorem Confines.bindLeaves {first : Reader β} {next : β → Reader α} {values : β → Prop}
    {holds : α → Cursor → Prop} (h : S.Confines values first) (hc : S.Within c)
    (hnext : ∀ b, values b → ∀ c', S.Within c' → S.Leaves c' holds (next b c')) :
    S.Leaves c holds ((first >>= next) c) := by
  have hfirst := h c hc
  change S.Leaves c holds (EStateM.bind first next c)
  unfold EStateM.bind
  revert hfirst
  cases first c with
  | error halt after =>
    cases halt with
    | exhausted => exact id
    | failed e => exact id
  | ok b middle =>
    rintro ⟨⟨hb, hmiddle⟩, notes⟩
    exact .behind notes (hnext b hb middle hmiddle)

/-- A reader inside the stretch, and one that goes behind it. -/
theorem Confines.bindEnds {first : Reader β} {next : β → Reader α} {values : β → Prop}
    (h : S.Confines values first) (hnext : ∀ b, values b → S.Ends (next b)) :
    S.Ends (first >>= next) :=
  fun _ hc => h.bindLeaves hc hnext

namespace Confines

variable {values : α → Prop}

/-- One reader after another. -/
theorem bind {first : Reader β} {next : β → Reader α} {holds : β → Prop}
    (h : S.Confines holds first) (hnext : ∀ b, holds b → S.Confines values (next b)) :
    S.Confines values (first >>= next) :=
  fun _ hc => h.bindLeaves hc hnext

/-- Less may be said of the values. -/
theorem mono {reader : Reader α} {weaker : α → Prop} (h : S.Confines values reader)
    (hvalues : ∀ v, values v → weaker v) : S.Confines weaker reader := by
  intro c hc
  have hresult := h c hc
  revert hresult
  cases reader c with
  | ok v after => exact fun ⟨⟨hv, hafter⟩, notes⟩ => ⟨⟨hvalues v hv, hafter⟩, notes⟩
  | error halt after => cases halt <;> exact id

/-- A value given without reading. -/
theorem pure {v : α} (h : values v) : S.Confines values (Pure.pure v : Reader α) :=
  fun _ hc => ⟨⟨h, hc⟩, .none rfl⟩

/-- Giving up for lack of fuel. -/
theorem exhausted : S.Confines values (exhausted : Reader α) := fun _ _ => trivial

/-- Giving up at a violation. -/
theorem missing (what : Expectation) : S.Confines values (missing what : Reader α) :=
  fun _ hc => ⟨hc, .none rfl, hc.here, rfl⟩

/-- Completing an expression. -/
theorem node (make : Nat → Expr) : S.Confines (fun _ => True) (node make) :=
  fun _ hc => ⟨⟨trivial, hc⟩, .none rfl⟩

/-- Noting a violation at the next token. -/
theorem noteHere {fault : SyntaxFault} (h : fault.abandons = false) :
    S.Confines (fun _ => True) (noteHere fault) :=
  fun _ hc => ⟨⟨trivial, hc⟩, .one hc.here h⟩

/-- Noting a violation at a token of the stretch. -/
theorem noteAt {place : Token} {fault : SyntaxFault} (hplace : place ∈ S.tokens)
    (h : fault.abandons = false) : S.Confines (fun _ => True) (noteAt place fault) :=
  fun _ hc => ⟨⟨trivial, hc⟩, .one hplace h⟩

/-- Looking at the next token. -/
theorem nextIs (kind : Kind) : S.Confines (fun _ => True) (nextIs kind) := by
  intro c hc
  rw [nextIs_eq]
  exact ⟨⟨trivial, hc⟩, .none rfl⟩

/-- Reading the next token if a function has a value for it, and none for semicolons. -/
theorem acceptMap {f : Token → Option α} (hf : ∀ t, t.kind = .semicolon → f t = none) :
    S.Confines (fun found => ∀ v ∈ found, ∃ t ∈ S.tokens, f t = some v) (acceptMap? f) := by
  intro c hc
  have hnone : S.Leaves c (fun found after => (∀ v ∈ found, ∃ t ∈ S.tokens, f t = some v) ∧
      S.Within after) (.ok none c) :=
    ⟨⟨fun _ hv => absurd hv (Option.not_mem_none _), hc⟩, .none rfl⟩
  unfold acceptMap?
  cases hrest : c.rest with
  | nil => exact hnone
  | cons t rest =>
    dsimp only
    cases hv : f t with
    | none => exact hnone
    | some v =>
      obtain ⟨hnext, ht⟩ := hc.next hrest fun hkind => by
        rw [hf t hkind] at hv
        cases hv
      refine ⟨⟨?_, hnext⟩, .none rfl⟩
      rintro _ ⟨⟩
      exact ⟨t, ht, hv⟩

/-- Reading the next token if it is of one of several kinds other than a semicolon. -/
theorem acceptAny {kinds : List Kind} (h : .semicolon ∉ kinds) :
    S.Confines (fun found => ∀ t ∈ found, t ∈ S.tokens) (acceptAny? kinds) := by
  refine mono (acceptMap fun t ht => if_neg (ht ▸ h)) fun found hfound t ht => ?_
  obtain ⟨t', ht', heq⟩ := hfound t ht
  split at heq
  · cases heq
    exact ht'
  · cases heq

/-- Reading the next token if it is of a kind other than a semicolon. -/
theorem accept {kind : Kind} (h : kind ≠ .semicolon) :
    S.Confines (fun found => ∀ t ∈ found, t ∈ S.tokens) (accept? kind) :=
  acceptAny (by simpa using h.symm)

/-- What may be read, and what follows it in either case. -/
theorem choose {first : Reader (Option β)} {next : Option β → Reader α} {holds : β → Prop}
    (h : S.Confines (fun found => ∀ b ∈ found, holds b) first)
    (hsome : ∀ b, holds b → S.Confines values (next (some b)))
    (hnone : S.Confines values (next none)) : S.Confines values (first >>= next) := by
  refine h.bind fun found hfound => ?_
  cases found with
  | none => exact hnone
  | some b => exact hsome b (hfound b rfl)

/-- What is decided by looking, and what follows in either case. -/
theorem decided {kind : Kind} {next : Bool → Reader α} (htrue : S.Confines values (next true))
    (hfalse : S.Confines values (next false)) :
    S.Confines values (Grammar.nextIs kind >>= next) := by
  refine (nextIs kind).bind fun b _ => ?_
  cases b with
  | true => exact htrue
  | false => exact hfalse

/-- What follows a violation that is noted on some condition. -/
theorem noteIf {p : Prop} [Decidable p] {fault : SyntaxFault} {next : Reader α}
    (hfault : fault.abandons = false) (h : S.Confines values next) :
    S.Confines values (if p then Grammar.noteHere fault >>= fun _ => next else next) := by
  split
  · exact bind (noteHere hfault) fun _ _ => h
  · exact h

/-- Reading a required token other than a semicolon. -/
theorem expect {kind : Kind} (h : kind ≠ .semicolon) (what : Expectation) :
    S.Confines (fun _ => True) (expect kind what) :=
  choose (accept h) (fun _ _ => pure trivial) (missing what)

/-- The image of a value. -/
theorem map {f : β → α} {first : Reader β} {holds : β → Prop} (h : S.Confines holds first) :
    S.Confines (fun _ => True) (f <$> first) := by
  rw [map_eq_pure_bind]
  exact h.bind fun _ _ => pure trivial

end Confines

/-- A reader that stays inside the stretch, whatever its values are. -/
abbrev Holds (S : Stretch) (reader : Reader α) : Prop := S.Confines (fun _ => True) reader

variable {nested operand : Reader Expr}

/-- A constant, a name, the receiver or an expression in parentheses. -/
theorem primary_holds (h : S.Holds nested) : S.Holds (primary nested) := by
  have hconstant : ∀ t : Token, t.kind = .semicolon → constant? t = none := by
    intro t ht
    unfold constant?
    rw [ht]
  exact .choose (.acceptMap hconstant) (fun _ _ => .node _)
    (.choose (.accept (by decide)) (fun _ _ => .node _)
    (.choose (.accept (by decide)) (fun _ _ => .node _)
    (.choose (.accept (by decide))
      (fun _ _ => .bind h fun _ _ => .bind (.expect (by decide) _) fun _ _ => .node _)
    (.missing _))))

/-- Arguments separated by commas. -/
theorem arguments_holds (h : S.Holds nested) (steps count : Nat) :
    S.Holds (arguments nested steps count) := by
  induction steps generalizing count with
  | zero => exact .exhausted
  | succ steps ih =>
    rw [arguments]
    exact .noteIf rfl (.bind h fun _ _ => .choose (.accept (by decide))
      (fun _ _ => .bind (ih (count + 1)) fun _ _ => .pure trivial) (.pure trivial))

/-- Calls and properties behind an operand. -/
theorem postfixes_holds (h : S.Holds nested) (steps : Nat) (operand : Expr) :
    S.Holds (postfixes nested steps operand) := by
  induction steps generalizing operand with
  | zero => exact .exhausted
  | succ steps ih =>
    have hgiven : S.Holds (callArguments nested (steps + 1)) :=
      .decided (.pure trivial) (arguments_holds h _ _)
    exact .choose (.accept (by decide))
      (fun _ _ => .bind hgiven fun _ _ => .bind (.expect (by decide) _) fun _ _ =>
        .bind (.node _) fun _ _ => ih _)
      (.choose (.accept (by decide))
        (fun _ _ => .bind (.expect (by decide) _) fun _ _ => .bind (.node _) fun _ _ => ih _)
        (.pure trivial))

/-- Signs before an operand. -/
theorem signed_holds (h : S.Holds operand) (steps : Nat) : S.Holds (signed operand steps) := by
  induction steps with
  | zero => exact .exhausted
  | succ steps ih =>
    exact .choose (.acceptAny (by decide)) (fun _ _ => .bind ih fun _ _ => .node _) h

/-- Operands joined by operators other than a semicolon. -/
theorem chain_holds {make : Nat → Expr → Token → Expr → Expr} {operators : List Kind}
    (hoperators : .semicolon ∉ operators) (h : S.Holds operand) (fuel : Nat) :
    S.Holds (chain make operators operand fuel) := by
  have hfrom : ∀ steps left, S.Holds (chainFrom make operators operand steps left) := by
    intro steps
    induction steps with
    | zero => exact fun _ => .exhausted
    | succ steps ih =>
      exact fun left => .choose (.acceptAny hoperators)
        (fun _ _ => .bind h fun _ _ => .bind (.node _) fun _ _ => ih _) (.pure trivial)
  exact .bind h fun first _ => hfrom fuel first

/-- All levels of operators. -/
theorem disjunction_holds (h : S.Holds nested) (fuel : Nat) :
    S.Holds (disjunction nested fuel) := by
  have hcall : S.Holds (call nested fuel) :=
    .bind (primary_holds h) fun operand _ => postfixes_holds h fuel operand
  have hfactor : S.Holds (factor nested fuel) :=
    chain_holds (by decide) (signed_holds hcall fuel) fuel
  have hcomparison : S.Holds (comparison nested fuel) :=
    chain_holds (by decide) (chain_holds (by decide) hfactor fuel) fuel
  have hequality : S.Holds (equality nested fuel) := chain_holds (by decide) hcomparison fuel
  exact chain_holds (by decide) (chain_holds (by decide) hequality fuel) fuel

/-- An assignment, or what stands without one. -/
theorem assignment_holds (h : S.Holds nested) (fuel : Nat) : S.Holds (assignment nested fuel) := by
  refine .bind (disjunction_holds h fuel) fun target _ => .choose (.accept (by decide))
    (fun sign hsign => .bind h fun value _ => ?_) (.pure trivial)
  split
  · exact .node _
  · exact .node _
  · exact .bind (.noteAt hsign rfl) fun _ _ => .pure trivial

/-- An expression. -/
theorem expression_holds (fuel : Nat) : S.Holds (expression fuel) := by
  induction fuel with
  | zero => exact .exhausted
  | succ fuel ih => exact assignment_holds ih (fuel + 1)

/-- An expression that may be absent. -/
theorem expressionUnless_holds (kind : Kind) (fuel : Nat) : S.Holds (expressionUnless kind fuel) :=
  .decided (.pure trivial) (.map (expression_holds fuel))

/-- The semicolon that ends a statement. -/
theorem expect_ends (what : Expectation) (v : α) :
    S.Ends (expect .semicolon what >>= fun _ => Pure.pure v) := by
  rintro ⟨rest, stop, n, errors⟩ hc
  have hwithin := hc
  obtain ⟨left, rfl, hleft⟩ := hc
  cases left with
  | nil =>
    have hread : Accepts (expect .semicolon what >>= fun _ => Pure.pure v) n [S.last] S.behind v
        n := .expect S.last_kind (.refl _)
    rw [List.nil_append, ← List.singleton_append, hread]
    exact ⟨rfl, .none rfl⟩
  | cons t left =>
    have ht : t.kind ≠ .semicolon := (S.inner_kind t (hleft.subset List.mem_cons_self)).1
    have hstops : Stops [.semicolon] (t :: left ++ S.last :: S.behind) :=
      .cons (by simpa using ht)
    rw [bind_of_error (expect_of_stops what hstops)]
    exact ⟨hwithin, .none rfl, hwithin.here, rfl⟩

/-- A variable after its keyword. -/
theorem varDeclaration_ends (fuel : Nat) : S.Ends (varDeclaration fuel) := by
  refine (Confines.expect (by decide) _).bindEnds fun name _ =>
    (Confines.accept (by decide)).bindEnds fun sign _ => ?_
  cases sign with
  | some sign => exact (Confines.map (expression_holds fuel)).bindEnds fun _ _ => expect_ends _ _
  | none => exact expect_ends _ _

/-- An expression with its semicolon. -/
theorem expressionStatement_ends (fuel : Nat) : S.Ends (expressionStatement fuel) :=
  (expression_holds fuel).bindEnds fun _ _ => expect_ends _ _

/-- A `print` after its keyword. -/
theorem printStatement_ends (fuel : Nat) : S.Ends (printStatement fuel) :=
  (expression_holds fuel).bindEnds fun _ _ => expect_ends _ _

/-- A `return` after its keyword. -/
theorem returnStatement_ends (keyword : Token) (fuel : Nat) :
    S.Ends (returnStatement keyword fuel) :=
  (expressionUnless_holds _ fuel).bindEnds fun _ _ => expect_ends _ _

end Stretch

end Scriptlet.Grammar
