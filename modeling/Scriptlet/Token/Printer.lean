import Scriptlet.Decimal.Notation
import Scriptlet.Text.JsonString
import Scriptlet.Token

/-!
# Written forms of tokens

A token is listed as its kind, its text and its literal on one line, or as a
JSON object. A list of tokens has an indented JSON form with one member a line.
-/

namespace Scriptlet

/-- A literal as it is listed. -/
def Literal.listing : Literal → String
  | .number x => Decimal.literal x
  | .text s => s

namespace Token

/-- The listing line: kind, text and literal, `null` when there is none. -/
def listing (token : Token) : String :=
  let literal := match token.literal with
    | some l => l.listing
    | none => "null"
  token.kind.name ++ " " ++ token.lexeme ++ " " ++ literal

/-- The literal as a JSON value. -/
def literalJson : Option Literal → String
  | none => "null"
  | some (.number x) => Decimal.interchange x
  | some (.text s) => Text.jsonString s

/-- The members of the JSON object of a token, in their fixed order. -/
def members (token : Token) : List (String × String) :=
  [("type", Text.jsonString token.kind.name), ("lexeme", Text.jsonString token.lexeme),
    ("literal", literalJson token.literal), ("line", toString token.line)]

/-- The JSON object on one line without blanks. -/
def json (token : Token) : String :=
  "\x7b" ++ ",".intercalate (token.members.map fun (key, value) => Text.jsonString key ++ ":" ++ value)
    ++ "\x7d"

/-- The JSON object over several lines, as an element of an indented array. -/
def indentedJson (token : Token) : String :=
  "  \x7b\n"
    ++ ",\n".intercalate (token.members.map fun (key, value) =>
      "    " ++ Text.jsonString key ++ ": " ++ value)
    ++ "\n  \x7d"

/-- A list of tokens as an indented JSON array. -/
def listJson : List Token → String
  | [] => "[]"
  | tokens => "[\n" ++ ",\n".intercalate (tokens.map indentedJson) ++ "\n]"

end Token

end Scriptlet
