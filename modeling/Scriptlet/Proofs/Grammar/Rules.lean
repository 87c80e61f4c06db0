import Scriptlet.Token

/-!
# The rules of the grammar

The grammar is a table of rules over kinds of token, written with sequences,
choices, optional parts and repetitions. A list of kinds is derivable from a
symbol when every family of languages that obeys the rules has it; so the
derivable lists are the least such family. The rules leave open to which of
several conditionals an `else` belongs. Only two repetitions are limited, those
of arguments and of parameters.
-/

namespace Scriptlet.Grammar

/-- The symbols that have a rule. -/
inductive Symbol where
  | program
  | declaration
  | classDecl
  | funcDecl
  | function
  | varDecl
  | statement
  | exprStmt
  | forStmt
  | ifStmt
  | printStmt
  | returnStmt
  | whileStmt
  | block
  | expression
  | assignment
  | logicOr
  | logicAnd
  | equality
  | comparison
  | term
  | factor
  | unary
  | call
  | primary
  | arguments
  | parameters
deriving DecidableEq, Repr

/-- The right side of a rule. -/
inductive Phrase where
  /-- No token at all. -/
  | nothing
  /-- One token of a kind. -/
  | token (kind : Kind)
  /-- Whatever a symbol derives. -/
  | symbol (s : Symbol)
  /-- One phrase after the other. -/
  | pair (first second : Phrase)
  /-- One phrase or the other. -/
  | either (first second : Phrase)
  /-- A phrase repeated, at most so many times if there is a limit. -/
  | many (limit : Option Nat) (p : Phrase)

namespace Phrase

/-- Several phrases one after the other. -/
def row : List Phrase → Phrase
  | [] => nothing
  | [p] => p
  | p :: rest => pair p (row rest)

/-- One of several phrases. -/
def oneOf (p : Phrase) : List Phrase → Phrase
  | [] => p
  | q :: rest => either p (oneOf q rest)

/-- A token of one of several kinds. -/
def tokenOf (kind : Kind) (kinds : List Kind) : Phrase := oneOf (token kind) (kinds.map token)

/-- A phrase that may be absent. -/
def optional (p : Phrase) : Phrase := either p nothing

/-- A phrase repeated any number of times. -/
def star (p : Phrase) : Phrase := many none p

/-- Phrases of one form separated by commas, at least one and at most `limit + 1`. -/
def list (limit : Nat) (p : Phrase) : Phrase :=
  pair p (many (some limit) (pair (token .comma) p))

/-- Operands of one form joined by operators. -/
def joined (operand operator : Phrase) : Phrase := pair operand (star (pair operator operand))

/-- Whether the kinds fit the phrase when each symbol stands for a language. -/
def Fits (language : Symbol → List Kind → Prop) : Phrase → List Kind → Prop
  | nothing, kinds => kinds = []
  | token kind, kinds => kinds = [kind]
  | symbol s, kinds => language s kinds
  | pair p q, kinds =>
    ∃ before after, kinds = before ++ after ∧ p.Fits language before ∧ q.Fits language after
  | either p q, kinds => p.Fits language kinds ∨ q.Fits language kinds
  | many limit p, kinds =>
    ∃ pieces : List (List Kind), kinds = pieces.flatten ∧ (∀ bound ∈ limit, pieces.length ≤ bound) ∧
      ∀ piece ∈ pieces, p.Fits language piece

/-- Larger languages fit more. -/
theorem Fits.mono {smaller larger : Symbol → List Kind → Prop}
    (h : ∀ s kinds, smaller s kinds → larger s kinds) {p : Phrase} {kinds : List Kind}
    (fits : p.Fits smaller kinds) : p.Fits larger kinds := by
  induction p generalizing kinds with
  | nothing => exact fits
  | token kind => exact fits
  | symbol s => exact h s kinds fits
  | pair p q ihp ihq =>
    obtain ⟨before, after, hk, hp, hq⟩ := fits
    exact ⟨before, after, hk, ihp hp, ihq hq⟩
  | either p q ihp ihq =>
    rcases fits with hp | hq
    · exact Or.inl (ihp hp)
    · exact Or.inr (ihq hq)
  | many limit p ih =>
    obtain ⟨pieces, hk, hbound, hall⟩ := fits
    exact ⟨pieces, hk, hbound, fun piece hm => ih (hall piece hm)⟩

end Phrase

open Phrase Scriptlet.Grammar.Symbol in
/-- The rules. A call has at most 255 arguments and a function at most 255 parameters. -/
def rules : Symbol → Phrase
  | program => star (symbol declaration)
  | declaration =>
    oneOf (symbol classDecl) [symbol funcDecl, symbol varDecl, symbol statement]
  | classDecl =>
    row [token .kwClass, token .identifier, token .leftBrace, star (symbol function),
      token .rightBrace]
  | funcDecl => row [token .kwFunc, symbol function]
  | function =>
    row [token .identifier, token .leftParen, optional (symbol parameters), token .rightParen,
      symbol block]
  | varDecl =>
    row [token .kwVar, token .identifier, optional (row [token .equal, symbol expression]),
      token .semicolon]
  | statement =>
    oneOf (symbol exprStmt) [symbol forStmt, symbol ifStmt, symbol printStmt, symbol returnStmt,
      symbol whileStmt, symbol block]
  | exprStmt => row [symbol expression, token .semicolon]
  | forStmt =>
    row [token .kwFor, token .leftParen,
      oneOf (symbol varDecl) [symbol exprStmt, token .semicolon],
      optional (symbol expression), token .semicolon,
      optional (symbol expression), token .rightParen, symbol statement]
  | ifStmt =>
    row [token .kwIf, token .leftParen, symbol expression, token .rightParen, symbol statement,
      optional (row [token .kwElse, symbol statement])]
  | printStmt => row [token .kwPrint, symbol expression, token .semicolon]
  | returnStmt => row [token .kwReturn, optional (symbol expression), token .semicolon]
  | whileStmt =>
    row [token .kwWhile, token .leftParen, symbol expression, token .rightParen, symbol statement]
  | block => row [token .leftBrace, star (symbol declaration), token .rightBrace]
  | expression => symbol assignment
  | assignment =>
    oneOf
      (row [optional (row [symbol call, token .dot]), token .identifier, token .equal,
        symbol assignment])
      [symbol logicOr]
  | logicOr => joined (symbol logicAnd) (token .kwOr)
  | logicAnd => joined (symbol equality) (token .kwAnd)
  | equality => joined (symbol comparison) (tokenOf .bangEqual [.equalEqual])
  | comparison => joined (symbol term) (tokenOf .greater [.greaterEqual, .less, .lessEqual])
  | term => joined (symbol factor) (tokenOf .minus [.plus])
  | factor => joined (symbol unary) (tokenOf .slash [.star])
  | unary => oneOf (row [tokenOf .bang [.minus], symbol unary]) [symbol call]
  | call =>
    pair (symbol primary)
      (star (oneOf (row [token .leftParen, optional (symbol arguments), token .rightParen])
        [row [token .dot, token .identifier]]))
  | primary =>
    oneOf (tokenOf .number [.string, .kwTrue, .kwFalse, .kwNil, .kwThis, .identifier])
      [row [token .leftParen, symbol expression, token .rightParen]]
  | arguments => list 254 (symbol expression)
  | parameters => list 254 (token .identifier)

/-- A family of languages obeys the rules when each symbol has whatever fits its rule. -/
def Obeyed (language : Symbol → List Kind → Prop) : Prop :=
  ∀ s kinds, (rules s).Fits language kinds → language s kinds

/-- The kinds are derivable from the symbol: every family that obeys the rules has them. -/
def Derivable (s : Symbol) (kinds : List Kind) : Prop :=
  ∀ language, Obeyed language → language s kinds

/-- What fits the rule of a symbol is derivable from it. -/
theorem Derivable.of_fits {s : Symbol} {kinds : List Kind}
    (fits : (rules s).Fits Derivable kinds) : Derivable s kinds := by
  intro language obeyed
  exact obeyed s kinds (fits.mono fun _ _ derivable => derivable language obeyed)

/-- What is derivable from a symbol fits its rule. -/
theorem Derivable.fits {s : Symbol} {kinds : List Kind} (derivable : Derivable s kinds) :
    (rules s).Fits Derivable kinds :=
  derivable (fun s kinds => (rules s).Fits Derivable kinds)
    fun _ _ fits => fits.mono fun _ _ fits => Derivable.of_fits fits

end Scriptlet.Grammar
