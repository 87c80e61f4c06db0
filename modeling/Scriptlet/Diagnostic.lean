import Scriptlet.Source.Scan
import Scriptlet.Text.Utf8

/-!
# Diagnostics

A diagnostic is what the user is told about a failure: the phase that found it,
where, and in which words. Each phase has causes of its own; this module only
lays out the report. Static diagnostics are those found before a program runs.
-/

namespace Scriptlet

/-- A report of one failure. -/
inductive Diagnostic where
  /-- A text that is no token, on a line. -/
  | lexical (line : Nat) (message : String)
  /-- A token at which the grammar is violated. -/
  | grammar (place : Token) (message : String)
  /-- A token at which a scoping rule is violated. -/
  | scoping (place : Token) (message : String)
  /-- A failure of a running program, on a line. -/
  | runtime (line : Nat) (message : String)
  /-- A failure of the output. -/
  | output (message : String)
  /-- Bytes that are no text. -/
  | encoding (fault : Text.Utf8Fault)
deriving DecidableEq, Repr

namespace Diagnostic

/-- Where a token stands, in words. -/
def location (token : Token) : String :=
  if token.isEnd then " at end" else " at '" ++ token.lexeme ++ "'"

/-- A line number in brackets. -/
def lineTag (line : Nat) : String := "[line " ++ toString line ++ "]"

/-- The report as it is printed. -/
def text : Diagnostic → String
  | lexical line message => lineTag line ++ " Error: " ++ message
  | grammar place message => lineTag place.line ++ " Error" ++ location place ++ ": " ++ message
  | scoping place message => lineTag place.line ++ " Error" ++ location place ++ ": " ++ message
  | runtime line message => message ++ "\n" ++ lineTag line
  | output message => message
  | encoding fault => fault.message

/-- The line a report refers to, when it has one. -/
def line? : Diagnostic → Option Nat
  | lexical line _ => some line
  | grammar place _ => some place.line
  | scoping place _ => some place.line
  | runtime line _ => some line
  | output _ => none
  | encoding _ => none

/-- Whether the failure is found before the program runs. -/
def isStatic : Diagnostic → Bool
  | lexical _ _ => true
  | grammar _ _ => true
  | scoping _ _ => true
  | runtime _ _ => false
  | output _ => false
  | encoding _ => false

end Diagnostic

/-- The report of a lexical error. -/
def LexError.diagnostic (e : LexError) : Diagnostic := .lexical e.line e.fault.message

end Scriptlet
