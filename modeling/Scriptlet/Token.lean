/-!
# Tokens

A token is a kind, the text it was read from, the literal it carries and the
line it ends on. Nothing ties the four together: a token read from a source has
the literal and the kind of its text, a token built by hand may have any.
-/

namespace Scriptlet

/-- What a token is. -/
inductive Kind where
  | leftParen
  | rightParen
  | leftBrace
  | rightBrace
  | comma
  | dot
  | minus
  | plus
  | semicolon
  | slash
  | star
  | bang
  | bangEqual
  | equal
  | equalEqual
  | greater
  | greaterEqual
  | less
  | lessEqual
  | identifier
  | string
  | number
  | kwAnd
  | kwClass
  | kwElse
  | kwFalse
  | kwFunc
  | kwFor
  | kwIf
  | kwNil
  | kwOr
  | kwPrint
  | kwReturn
  | kwSuper
  | kwThis
  | kwTrue
  | kwVar
  | kwWhile
  | endOfFile
deriving DecidableEq, Repr, Inhabited

namespace Kind

/-- Every kind, in the order of declaration. -/
def all : List Kind :=
  [leftParen, rightParen, leftBrace, rightBrace, comma, dot, minus, plus, semicolon, slash, star,
    bang, bangEqual, equal, equalEqual, greater, greaterEqual, less, lessEqual, identifier, string,
    number, kwAnd, kwClass, kwElse, kwFalse, kwFunc, kwFor, kwIf, kwNil, kwOr, kwPrint, kwReturn,
    kwSuper, kwThis, kwTrue, kwVar, kwWhile, endOfFile]

/-- The upper-case name used in token listings. -/
def name : Kind → String
  | leftParen => "LEFT_PAREN"
  | rightParen => "RIGHT_PAREN"
  | leftBrace => "LEFT_BRACE"
  | rightBrace => "RIGHT_BRACE"
  | comma => "COMMA"
  | dot => "DOT"
  | minus => "MINUS"
  | plus => "PLUS"
  | semicolon => "SEMICOLON"
  | slash => "SLASH"
  | star => "STAR"
  | bang => "BANG"
  | bangEqual => "BANG_EQUAL"
  | equal => "EQUAL"
  | equalEqual => "EQUAL_EQUAL"
  | greater => "GREATER"
  | greaterEqual => "GREATER_EQUAL"
  | less => "LESS"
  | lessEqual => "LESS_EQUAL"
  | identifier => "IDENTIFIER"
  | string => "STRING"
  | number => "NUMBER"
  | kwAnd => "AND"
  | kwClass => "CLASS"
  | kwElse => "ELSE"
  | kwFalse => "FALSE"
  | kwFunc => "FUNC"
  | kwFor => "FOR"
  | kwIf => "IF"
  | kwNil => "NIL"
  | kwOr => "OR"
  | kwPrint => "PRINT"
  | kwReturn => "RETURN"
  | kwSuper => "SUPER"
  | kwThis => "THIS"
  | kwTrue => "TRUE"
  | kwVar => "VAR"
  | kwWhile => "WHILE"
  | endOfFile => "EOF"

/-- The kind with a given listing name. -/
def ofName? (s : String) : Option Kind := all.find? (fun kind => kind.name == s)

/-- Every kind is listed. -/
theorem mem_all (kind : Kind) : kind ∈ all := by cases kind <;> decide

/-- The reserved words with their kinds. -/
def keywords : List (String × Kind) :=
  [("and", kwAnd), ("class", kwClass), ("else", kwElse), ("false", kwFalse), ("func", kwFunc),
    ("for", kwFor), ("if", kwIf), ("nil", kwNil), ("or", kwOr), ("print", kwPrint),
    ("return", kwReturn), ("super", kwSuper), ("this", kwThis), ("true", kwTrue), ("var", kwVar),
    ("while", kwWhile)]

/-- The kind of a word: its reserved kind, or an identifier. -/
def ofWord (word : String) : Kind := (keywords.lookup word).getD identifier

end Kind

/-- The value that a number or string token carries. -/
inductive Literal where
  | number (value : Float)
  | text (value : String)
deriving DecidableEq, Repr

/-- A token. -/
structure Token where
  /-- What it is. -/
  kind : Kind
  /-- The text it was read from. -/
  lexeme : String
  /-- The literal it carries, if any. -/
  literal : Option Literal := none
  /-- The line, counted from one, on which its text ends. -/
  line : Nat
deriving DecidableEq, Repr

/-- The token that ends a source on a given line. -/
def Token.endAt (line : Nat) : Token := ⟨.endOfFile, "", none, line⟩

/-- Whether a token ends its source. -/
def Token.isEnd (token : Token) : Bool := token.kind == .endOfFile

end Scriptlet
