import Scriptlet.Token

/-!
# Segments of a source text

A source text falls into consecutive segments: tokens, blanks, comments,
characters that begin no token, and a string that never closes. Each segment is
cut off at its first character by the longest rule that applies there, so the
segments joined together are the text. Segments carry no line numbers; those
are counted when the segments are read in order.
-/

namespace Scriptlet

/-- One piece of a source text. -/
inductive Segment where
  /-- The text of a token. -/
  | token (kind : Kind) (lexeme : List Char)
  /-- A space, tab, carriage return or newline. -/
  | blank (c : Char)
  /-- Two slashes and the rest of the line, without its newline. -/
  | comment (text : List Char)
  /-- A character that begins no segment of another kind. -/
  | unexpected (c : Char)
  /-- A quote with no closing quote, up to the end of the text. -/
  | unterminated (text : List Char)
deriving DecidableEq, Repr

namespace Segment

/-- The characters of a segment. -/
def text : Segment → List Char
  | token _ lexeme => lexeme
  | blank c => [c]
  | comment text => text
  | unexpected c => [c]
  | unterminated text => text

/-- The number of newlines in a segment. -/
def newlines (s : Segment) : Nat := s.text.count '\n'

/-- The characters that only separate tokens. -/
def isBlank (c : Char) : Bool := c == ' ' || c == '\t' || c == '\r' || c == '\n'

/-- The characters that begin a word. -/
def beginsWord (c : Char) : Bool := c.isAlpha || c == '_'

/-- The characters that continue a word. -/
def continuesWord (c : Char) : Bool := c.isAlphanum || c == '_'

/-- The tokens that are one character whatever follows. -/
def symbol? : Char → Option Kind
  | '(' => some .leftParen
  | ')' => some .rightParen
  | '{' => some .leftBrace
  | '}' => some .rightBrace
  | ',' => some .comma
  | '.' => some .dot
  | '-' => some .minus
  | '+' => some .plus
  | ';' => some .semicolon
  | '*' => some .star
  | _ => none

/-- The operators that an equals sign extends: the kind alone and the kind extended. -/
def extensible? : Char → Option (Kind × Kind)
  | '!' => some (.bang, .bangEqual)
  | '=' => some (.equal, .equalEqual)
  | '<' => some (.less, .lessEqual)
  | '>' => some (.greater, .greaterEqual)
  | _ => none

/-- An operator, with an equals sign when one follows. -/
def cutOperator (kinds : Kind × Kind) (c : Char) : List Char → Segment × List Char
  | '=' :: rest => (token kinds.2 [c, '='], rest)
  | rest => (token kinds.1 [c], rest)

/-- A slash: a comment when a second slash follows, else an operator. -/
def cutSlash : List Char → Segment × List Char
  | '/' :: rest =>
    (comment ('/' :: '/' :: rest.takeWhile (· != '\n')), rest.dropWhile (· != '\n'))
  | rest => (token .slash ['/'], rest)

/-- A string after its opening quote. -/
def cutString (rest : List Char) : Segment × List Char :=
  let body := rest.takeWhile (· != '"')
  match rest.dropWhile (· != '"') with
  | [] => (unterminated ('"' :: body), [])
  | _ :: after => (token .string ('"' :: body ++ ['"']), after)

/-- A number after its first digit: more digits, and a point only before a digit. -/
def cutNumber (c : Char) (rest : List Char) : Segment × List Char :=
  let whole := c :: rest.takeWhile Char.isDigit
  match rest.dropWhile Char.isDigit with
  | '.' :: d :: after =>
    if d.isDigit then
      (token .number (whole ++ '.' :: d :: after.takeWhile Char.isDigit),
        after.dropWhile Char.isDigit)
    else (token .number whole, '.' :: d :: after)
  | after => (token .number whole, after)

/-- A word after its first character. -/
def cutWord (c : Char) (rest : List Char) : Segment × List Char :=
  let word := c :: rest.takeWhile continuesWord
  (token (Kind.ofWord (String.ofList word)) word, rest.dropWhile continuesWord)

/-- Cut off the segment that begins with `c`; the second part is what remains. -/
def cut (c : Char) (rest : List Char) : Segment × List Char :=
  if isBlank c then (blank c, rest)
  else match symbol? c with
  | some kind => (token kind [c], rest)
  | none => match extensible? c with
    | some kinds => cutOperator kinds c rest
    | none =>
      if c = '/' then cutSlash rest
      else if c = '"' then cutString rest
      else if c.isDigit then cutNumber c rest
      else if beginsWord c then cutWord c rest
      else (unexpected c, rest)

/-- Cut off at most `fuel` segments. -/
def splitWithin : Nat → List Char → List Segment
  | 0, _ => []
  | _ + 1, [] => []
  | fuel + 1, c :: rest => (cut c rest).1 :: splitWithin fuel (cut c rest).2

/-- The segments of a text; it has no more of them than characters. -/
def split (text : List Char) : List Segment := splitWithin text.length text

end Segment

end Scriptlet
