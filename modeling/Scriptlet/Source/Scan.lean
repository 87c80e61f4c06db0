import Scriptlet.Source.Segment

/-!
# Reading tokens off a source text

The segments of a text are read in order with a running line number. A token
segment gives a token, a stray character or an unclosed string gives an error,
blanks and comments give nothing, and the end of the text gives one last token.
Every item has the line on which its segment ends. An error never stops the
reading.
-/

namespace Scriptlet

/-- Why a segment is no token. -/
inductive LexFault where
  | unexpectedCharacter
  | unterminatedString
deriving DecidableEq, Repr

/-- The wording of a lexical error. -/
def LexFault.message : LexFault → String
  | unexpectedCharacter => "Unexpected character."
  | unterminatedString => "Unterminated string."

/-- A lexical error and the line on which its segment ends. -/
structure LexError where
  /-- The line, counted from one. -/
  line : Nat
  /-- What went wrong. -/
  fault : LexFault
deriving DecidableEq, Repr

/-- What reading a source yields, one after the other. -/
inductive Item where
  | token (token : Token)
  | error (error : LexError)
deriving DecidableEq, Repr

/-- The natural written by decimal digits. -/
def digitsValue (digits : List Char) : Nat :=
  digits.foldl (fun n c => 10 * n + (c.toNat - '0'.toNat)) 0

/-- The number nearest to a decimal numeral with at most one point. -/
def numeral (lexeme : List Char) : Float :=
  let whole := lexeme.takeWhile Char.isDigit
  let places := (lexeme.dropWhile Char.isDigit).drop 1
  Float.ofScientific (digitsValue (whole ++ places)) true places.length

/-- The literal of a token: the number, or the text between the quotes. -/
def Literal.ofLexeme? : Kind → List Char → Option Literal
  | .number, lexeme => some (.number (numeral lexeme))
  | .string, lexeme => some (.text (String.ofList (lexeme.drop 1).dropLast))
  | _, _ => none

/-- What a segment that ends on a given line yields. -/
def Segment.item? (line : Nat) : Segment → Option Item
  | token kind lexeme =>
    some (.token ⟨kind, String.ofList lexeme, Literal.ofLexeme? kind lexeme, line⟩)
  | blank _ => none
  | comment _ => none
  | unexpected _ => some (.error ⟨line, .unexpectedCharacter⟩)
  | unterminated _ => some (.error ⟨line, .unterminatedString⟩)

/-- Read segments from a line on, and end with the end token. -/
def itemsFrom (line : Nat) : List Segment → List Item
  | [] => [.token (Token.endAt line)]
  | s :: rest =>
    match s.item? (line + s.newlines) with
    | some item => item :: itemsFrom (line + s.newlines) rest
    | none => itemsFrom (line + s.newlines) rest

/-- Everything that reading a source yields. -/
def items (source : String) : List Item := itemsFrom 1 (Segment.split source.toList)

/-- The tokens and the errors of a source, each in order. -/
structure Scan where
  /-- The tokens; the last one, and only that, ends the source. -/
  tokens : List Token
  /-- The lexical errors. -/
  errors : List LexError

/-- The token of an item. -/
def Item.token? : Item → Option Token
  | token t => some t
  | error _ => none

/-- The error of an item. -/
def Item.error? : Item → Option LexError
  | token _ => none
  | error e => some e

/-- Read a source, tokens apart from errors. -/
def scan (source : String) : Scan :=
  let found := items source
  ⟨found.filterMap Item.token?, found.filterMap Item.error?⟩

end Scriptlet
