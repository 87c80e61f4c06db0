import Scriptlet.Proofs.Grammar.Reading

/-!
# First tokens

Which tokens can come first in a part, and which parts may be empty. The readers
choose by the next token, so this is what makes their choices right.
-/

namespace Scriptlet.Grammar

/-- The kinds of token with which an expression without a sign begins. -/
def operandStarters : List Kind :=
  [.number, .string, .kwTrue, .kwFalse, .kwNil, .kwThis, .identifier, .leftParen]

/-- The kinds of token with which an expression begins. -/
def exprStarters : List Kind := .bang :: .minus :: operandStarters

/-- The kinds of token with which a statement begins. -/
def stmtStarters : List Kind :=
  .kwFor :: .kwIf :: .kwPrint :: .kwReturn :: .kwWhile :: .leftBrace :: exprStarters

/-- The kinds of token with which a declaration begins. -/
def declStarters : List Kind := .kwClass :: .kwFunc :: .kwVar :: stmtStarters

/-- The kinds of token with which a part begins, unless it is empty. -/
def Part.starters : Part → List Kind
  | primary | call => operandStarters
  | unary | level _ | assignment | expression | arguments | clause | exprStmt => exprStarters
  | parameters | routine | methods | varDecl => [.identifier]
  | forInitial => .semicolon :: .kwVar :: exprStarters
  | statement => stmtStarters
  | declaration | declarations => declStarters

/-- Whether a part may be empty. -/
def Part.nullable : Part → Bool
  | clause | methods | declarations => true
  | _ => false

/-- Tokens that begin with a token of one of these kinds. -/
def BeginsWith (kinds : List Kind) (ts : List Token) : Prop := ∃ t us, ts = t :: us ∧ t.kind ∈ kinds

/-- What begins so still does with more behind it. -/
theorem BeginsWith.append {kinds : List Kind} {ts : List Token} (h : BeginsWith kinds ts)
    (us : List Token) : BeginsWith kinds (ts ++ us) := by
  obtain ⟨t, vs, rfl, ht⟩ := h
  exact ⟨t, vs ++ us, rfl, ht⟩

/-- More kinds are begun with as well. -/
theorem BeginsWith.mono {kinds more : List Kind} {ts : List Token} (h : BeginsWith kinds ts)
    (sub : ∀ k ∈ kinds, k ∈ more) : BeginsWith more ts := by
  obtain ⟨t, us, rfl, ht⟩ := h
  exact ⟨t, us, rfl, sub _ ht⟩

/-- A token comes first. -/
theorem BeginsWith.cons {kinds : List Kind} {t : Token} {us : List Token} (h : t.kind ∈ kinds) :
    BeginsWith kinds (t :: us) := ⟨t, us, rfl, h⟩

/-- A part begins with one of its starters, or it is empty and may be. -/
theorem Reads.begins {p : Part} {n m : Nat} {ts : List Token} {x : Node} (h : Reads p n ts x m) :
    BeginsWith p.starters ts ∨ (ts = [] ∧ p.nullable = true) := by
  have strip : ∀ {p : Part} {ts : List Token}, p.nullable = false →
      BeginsWith p.starters ts ∨ (ts = [] ∧ p.nullable = true) → BeginsWith p.starters ts := by
    rintro p ts hp (h | ⟨-, hnull⟩)
    · exact h
    · rw [hp] at hnull
      cases hnull
  induction h with
  | constant h => exact Or.inl ((BeginsWith.cons (kind_of_constant h)).mono (by decide))
  | receiver h => exact Or.inl (.cons (by rw [h]; decide))
  | name h => exact Or.inl (.cons (by rw [h]; decide))
  | group hleft => exact Or.inl (.cons (by rw [hleft]; decide))
  | callPrimary _ ih => exact ih
  | callEmpty _ _ _ ih => exact Or.inl ((strip rfl ih).append _)
  | callWith _ _ _ _ _ ih => exact Or.inl ((strip rfl ih).append _)
  | callGet _ _ _ ih => exact Or.inl ((strip rfl ih).append _)
  | argumentsLast _ ih => exact ih
  | argumentsMore _ _ _ ih => exact Or.inl ((strip rfl ih).append _)
  | unaryCall _ ih => exact Or.inl ((strip (p := .call) rfl ih).mono (by decide))
  | unarySign h =>
    refine Or.inl (.cons ?_)
    rcases List.mem_cons.mp h with h | h
    · rw [h]
      decide
    · rw [List.mem_singleton.mp h]
      decide
  | levelOperand l _ ih => cases l <;> exact ih
  | levelJoin l _ _ _ ih => exact Or.inl ((strip rfl ih).append _)
  | assignmentPlain _ ih => exact ih
  | assignmentVar hname => exact Or.inl (.cons (by rw [hname]; decide))
  | assignmentSet _ _ _ _ _ ih =>
    exact Or.inl (((strip (p := .call) rfl ih).mono (by decide)).append _)
  | expression _ ih => exact ih
  | clauseAbsent => exact Or.inr ⟨rfl, rfl⟩
  | clausePresent _ ih => exact Or.inl (strip (p := .expression) rfl ih)
  | parametersLast h => exact Or.inl (.cons (by rw [h]; decide))
  | parametersMore h => exact Or.inl (.cons (by rw [h]; decide))
  | routineEmpty hname => exact Or.inl (.cons (by rw [hname]; decide))
  | routineWith hname => exact Or.inl (.cons (by rw [hname]; decide))
  | methodsNone => exact Or.inr ⟨rfl, rfl⟩
  | methodsMore _ _ ih => exact Or.inl ((strip (p := .routine) rfl ih).append _)
  | varBare hname => exact Or.inl (.cons (by rw [hname]; decide))
  | varWith hname => exact Or.inl (.cons (by rw [hname]; decide))
  | exprStmt _ _ ih => exact Or.inl ((strip (p := .expression) rfl ih).append _)
  | initialAbsent hstop => exact Or.inl (.cons (by rw [hstop]; decide))
  | initialVar h => exact Or.inl (.cons (by rw [h]; decide))
  | initialExpr _ ih => exact Or.inl ((strip (p := .exprStmt) rfl ih).mono (by decide))
  | statementExpr _ ih => exact Or.inl ((strip (p := .exprStmt) rfl ih).mono (by decide))
  | statementPrint h => exact Or.inl (.cons (by rw [h]; decide))
  | statementReturn h => exact Or.inl (.cons (by rw [h]; decide))
  | statementWhile h => exact Or.inl (.cons (by rw [h]; decide))
  | statementIf h => exact Or.inl (.cons (by rw [h]; decide))
  | statementElse h => exact Or.inl (.cons (by rw [h]; decide))
  | statementFor h => exact Or.inl (.cons (by rw [h]; decide))
  | statementForever h => exact Or.inl (.cons (by rw [h]; decide))
  | statementBlock h => exact Or.inl (.cons (by rw [h]; decide))
  | declarationStatement _ ih => exact Or.inl ((strip (p := .statement) rfl ih).mono (by decide))
  | declarationClass h => exact Or.inl (.cons (by rw [h]; decide))
  | declarationFunction h => exact Or.inl (.cons (by rw [h]; decide))
  | declarationVar h => exact Or.inl (.cons (by rw [h]; decide))
  | declarationsNone => exact Or.inr ⟨rfl, rfl⟩
  | declarationsMore _ _ ih => exact Or.inl ((strip (p := .declaration) rfl ih).append _)

/-- A part that may not be empty begins with one of its starters. -/
theorem Reads.beginsWith {p : Part} {n m : Nat} {ts : List Token} {x : Node} (h : Reads p n ts x m)
    (hp : p.nullable = false) : BeginsWith p.starters ts := by
  rcases h.begins with h | ⟨-, hnull⟩
  · exact h
  · rw [hp] at hnull
    cases hnull

end Scriptlet.Grammar
