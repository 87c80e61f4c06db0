import Scriptlet.Grammar.Fault
import Scriptlet.Syntax

/-!
# Reading tokens one after the other

A cursor holds the tokens still to be read, the token that ends them, the next
free expression number and the violations noted so far. A reader either returns
a value or halts; in both cases the cursor it reached survives, so that reading
can go on behind a violation. Readers whose depth is not bounded by their text
take fuel, and running out of fuel is kept apart from every violation.
-/

namespace Scriptlet.Grammar

/-- The state of reading. -/
structure Cursor where
  /-- The unread tokens, none of which ends the source. -/
  rest : List Token
  /-- The token that ends the source. -/
  stop : Token
  /-- The number of the next expression. -/
  nextId : Nat
  /-- The violations noted so far, in order. -/
  errors : List SyntaxError := []

/-- Why a reader gives no value. -/
inductive Halt where
  /-- The statement at hand cannot be read. -/
  | failed (error : SyntaxError)
  /-- The fuel did not suffice. -/
  | exhausted
deriving DecidableEq, Repr

/-- A reader of values of a type. -/
abbrev Reader := EStateM Halt Cursor

/-- The token at the cursor, the end token when none is left. -/
def Cursor.here (c : Cursor) : Token := c.rest.headD c.stop

/-- Note a violation without stopping. -/
def Cursor.note (c : Cursor) (e : SyntaxError) : Cursor := { c with errors := c.errors ++ [e] }

/-- Give up for lack of fuel. -/
def exhausted {α : Type} : Reader α := fun c => .error .exhausted c

/-- Give up because a required part is not at the cursor. -/
def missing {α : Type} (what : Expectation) : Reader α :=
  fun c => .error (.failed ⟨c.here, .missing what⟩) c

/-- Note a violation at the cursor. -/
def noteHere (fault : SyntaxFault) : Reader Unit := fun c => .ok () (c.note ⟨c.here, fault⟩)

/-- Note a violation at an earlier token. -/
def noteAt (place : Token) (fault : SyntaxFault) : Reader Unit :=
  fun c => .ok () (c.note ⟨place, fault⟩)

/-- Read the next token if a function gives a value for it. -/
def acceptMap? {α : Type} (f : Token → Option α) : Reader (Option α) := fun c =>
  match c.rest with
  | [] => .ok none c
  | t :: rest =>
    match f t with
    | none => .ok none c
    | some a => .ok (some a) { c with rest }

/-- Read the next token if its kind is one of those given. -/
def acceptAny? (kinds : List Kind) : Reader (Option Token) :=
  acceptMap? fun t => if t.kind ∈ kinds then some t else none

/-- Read the next token if it is of the given kind. -/
def accept? (kind : Kind) : Reader (Option Token) := acceptAny? [kind]

/-- Whether the next token is of the given kind. -/
def nextIs (kind : Kind) : Reader Bool := fun c =>
  match c.rest with
  | [] => .ok false c
  | t :: _ => .ok (t.kind == kind) c

/-- Whether no token is left. -/
def atEnd : Reader Bool := fun c => .ok c.rest.isEmpty c

/-- Read a token of the given kind, or give up. -/
def expect (kind : Kind) (what : Expectation) : Reader Token := do
  match ← accept? kind with
  | some t => return t
  | none => missing what

/-- Complete an expression with the next free number. -/
def node (make : Nat → Expr) : Reader Expr :=
  fun c => .ok (make c.nextId) { c with nextId := c.nextId + 1 }

/-- The kinds of token that begin a statement or declaration by a word. -/
def beginsStatement : Kind → Bool
  | .kwClass | .kwFunc | .kwVar | .kwFor | .kwIf | .kwWhile | .kwPrint | .kwReturn => true
  | _ => false

/-- Skip tokens up to one that follows a semicolon or begins a statement. -/
def skipAfter (previous : Token) : List Token → List Token
  | [] => []
  | t :: rest =>
    if previous.kind = .semicolon ∨ beginsStatement t.kind = true then t :: rest
    else skipAfter t rest

/-- Where reading goes on behind a violation: past the next token in any case. -/
def boundary : List Token → List Token
  | [] => []
  | t :: rest => skipAfter t rest

/-- Go on at the next boundary. -/
def Cursor.recover (c : Cursor) : Cursor := { c with rest := boundary c.rest }

/-- Read a statement; when it cannot be read, note why and go on at the next boundary. -/
def recovering (reader : Reader Stmt) : Reader (Option Stmt) := fun c =>
  match reader c with
  | .ok s after => .ok (some s) after
  | .error (.failed e) after => .ok none (after.note e).recover
  | .error .exhausted after => .error .exhausted after

end Scriptlet.Grammar
