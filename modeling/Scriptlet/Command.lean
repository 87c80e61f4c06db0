import Scriptlet.Disk
import Scriptlet.Session
import Scriptlet.Token.Printer
import Scriptlet.Syntax.Printer

/-!
# The command line

A command line names what to do and a file to do it with; without a command it
asks for a prompt. What a command does is a function of the contents of its
file, or of the lines typed at the prompt: it yields bytes for the output, a
text for the error output and an exit code. Reading files and typing are left
to the caller.
-/

namespace Scriptlet

/-- What to do. -/
inductive Command where
  /-- List the tokens of a file, as JSON on request. -/
  | tokenize (path : String) (json : Bool)
  /-- Write the trees of a file. -/
  | parse (path : String)
  /-- Run a file. -/
  | run (path : String)
  /-- Run what is typed, line by line. -/
  | prompt
deriving DecidableEq, Repr

/-- A command line, understood. -/
structure Invocation where
  /-- What to do. -/
  command : Command
  /-- Whether a log is to be kept. -/
  log : Bool
deriving DecidableEq, Repr

namespace Invocation

/-- The words after a command: its switches, each at most once, and its file. -/
structure Words where
  /-- Whether a log is asked for. -/
  log : Bool := false
  /-- Whether JSON is asked for. -/
  json : Bool := false
  /-- All other words. -/
  names : List String := []

/-- Whether a word is meant as a switch. -/
def isSwitch (word : String) : Bool :=
  match word.toList with
  | '-' :: _ :: _ => true
  | _ => false

/-- Sort the words after a command. Two dashes end the switches. -/
def sortWords (w : Words) : List String → Option Words
  | [] => some w
  | word :: rest =>
    if word = "--" then some { w with names := w.names ++ rest }
    else if word = "--log" then
      if w.log then none else sortWords { w with log := true } rest
    else if word = "--json" then
      if w.json then none else sortWords { w with json := true } rest
    else if isSwitch word || word.isEmpty then none
    else sortWords { w with names := w.names ++ [word] } rest

/-- The command of a name and the words after it. -/
def command? (name : String) (w : Words) : Option Command :=
  match w.names with
  | [] => if name = "repl" ∧ w.json = false then some .prompt else none
  | [path] =>
    if name = "tokenize" then some (.tokenize path w.json)
    else if w.json then none
    else if name = "parse" then some (.parse path)
    else if name = "run" then some (.run path)
    else none
  | _ => none

/-- Understand the words from the command on; without any, the prompt is meant.
Two dashes end the search for a command, so nothing may follow them here. -/
def ofCommand? (log : Bool) : List String → Option Invocation
  | [] => some ⟨.prompt, log⟩
  | ["--"] => some ⟨.prompt, log⟩
  | name :: rest => do
    let w ← sortWords {} rest
    let command ← command? name w
    return ⟨command, log || w.log⟩

/-- Understand a command line. -/
def ofArguments? : List String → Option Invocation
  | [] => ofCommand? false []
  | word :: rest => if word = "--log" then ofCommand? true rest else ofCommand? false (word :: rest)

/-- The name of the log file. -/
def logName : String := "luca.log"

end Invocation

/-- A failure outside the language: what was attempted and why it failed. -/
structure Mishap where
  /-- What was attempted. -/
  attempt : String
  /-- Why it failed. -/
  cause : String
deriving DecidableEq, Repr

/-- The report of a failure outside the language. -/
def Mishap.text (m : Mishap) : String :=
  "Error: " ++ m.attempt ++ "\n\nCaused by:\n    " ++ m.cause ++ "\n"

/-- What a command leaves behind. -/
structure Report where
  /-- The bytes of the output. -/
  out : Array UInt8 := #[]
  /-- The text of the error output. -/
  err : String := ""
  /-- The exit code. -/
  code : Nat := 0
deriving DecidableEq, Repr

namespace Report

/-- Lines of text, each with its newline. -/
def lines (texts : List String) : String := String.join (texts.map (· ++ "\n"))

/-- The bytes of a text. -/
def bytes (text : String) : Array UInt8 := text.toUTF8.data

/-- Diagnostics, one after the other. -/
def diagnostics (errors : List Diagnostic) : String := lines (errors.map Diagnostic.text)

/-- The report of a failure outside the language, after some output. -/
def ofMishap (out : Array UInt8) (err : String) (m : Mishap) : Report :=
  { out, err := err ++ m.text, code := 1 }

end Report

/-- The text of a file. -/
def FileContent.text (path : String) : FileContent → Except Mishap String
  | cannotOpen cause => .error ⟨"Failed to open file " ++ Text.quoted path, cause⟩
  | cannotRead cause => .error ⟨"Failed to read file " ++ Text.quoted path, cause⟩
  | bytes content =>
    match Text.decode content with
    | .ok text => .ok text
    | .error fault => .error ⟨Text.quoted path ++ " is not valid UTF-8", fault.message⟩

/-- The exit code of a source that is refused. -/
def refusedCode : Nat := 65

/-- List the tokens of a source; lexical errors do not keep them back. -/
def tokenizeSource (json : Bool) (source : String) : Report :=
  let scanned := scan source
  let listing :=
    if json then Token.listJson scanned.tokens ++ "\n"
    else Report.lines (scanned.tokens.map Token.listing)
  { out := Report.bytes listing
    err := Report.diagnostics (scanned.errors.map LexError.diagnostic)
    code := if scanned.errors.isEmpty then 0 else refusedCode }

/-- Write the trees of a source, unless it has an error. -/
def parseSource (source : String) : Report :=
  let scanned := scan source
  let parsed := parse scanned.tokens 0
  let errors := scanned.errors.map LexError.diagnostic
    ++ parsed.errors.map SyntaxError.diagnostic
  if errors.isEmpty then { out := Report.bytes (Report.lines (parsed.program.map Stmt.render)) }
  else { err := Report.diagnostics errors, code := refusedCode }

/-- Run a source in a session of its own. -/
def runSource (clock : Clock) (fuel : Nat) (source : String) : Report :=
  let (outcome, after) := (Session.start {} clock).run fuel source
  { out := after.machine.sink.written
    err := Report.diagnostics outcome.errors
    code := outcome.exitCode }

/-- Do something with the text of a file. -/
def withFile (path : String) (content : FileContent) (action : String → Report) : Report :=
  match content.text path with
  | .ok source => action source
  | .error mishap => Report.ofMishap #[] "" mishap

namespace Prompt

/-- The mark before each line. -/
def mark : String := "> "

/-- Write to the output of a session. -/
def say (s : Session) (text : String) : Session :=
  { s with machine := { s.machine with sink := (s.machine.sink.write (Report.bytes text)).2 } }

/-- The failure to read a line that is no text. -/
def unreadable : Mishap := ⟨"Failed to read from stdin", "stream did not contain valid UTF-8"⟩

/-- Run one typed line; its diagnostics are reported and the prompt goes on. -/
def answer (fuel : Nat) (s : Session) (line : List UInt8) : Except Mishap (String × Session) :=
  match Text.decode line with
  | .ok source =>
    let (outcome, after) := s.run fuel source
    .ok (Report.diagnostics outcome.errors, after)
  | .error _ => .error unreadable

/-- A line as typed, in reverse, without the carriage return before its newline. -/
def finishLine : List UInt8 → List UInt8
  | 13 :: rest => rest.reverse
  | line => line.reverse

/-- The lines of some bytes, after the reversed beginning of the first one. A
last line without newline counts unless it is empty. -/
def linesAfter (begun : List UInt8) : List UInt8 → List (List UInt8)
  | [] => if begun.isEmpty then [] else [begun.reverse]
  | b :: rest => if b = 10 then finishLine begun :: linesAfter [] rest else linesAfter (b :: begun) rest

/-- Run typed lines one after the other; the mark is written before each line
and once more before the end is noticed. -/
def answerAll (fuel : Nat) (s : Session) (err : String) : List (List UInt8) → Report
  | [] => { out := (say s (mark ++ "\n")).machine.sink.written, err }
  | line :: rest =>
    let asked := say s mark
    match answer fuel asked line with
    | .ok (errors, after) => answerAll fuel after (err ++ errors) rest
    | .error mishap => Report.ofMishap asked.machine.sink.written err mishap

end Prompt

/-- Carry out a command, given the contents of files and everything typed. -/
def Command.perform (clock : Clock) (fuel : Nat) (read : String → FileContent)
    (typed : List UInt8) : Command → Report
  | tokenize path json => withFile path (read path) (tokenizeSource json)
  | parse path => withFile path (read path) parseSource
  | run path => withFile path (read path) (runSource clock fuel)
  | prompt => Prompt.answerAll fuel (Session.start {} clock) "" (Prompt.linesAfter [] typed)

end Scriptlet
