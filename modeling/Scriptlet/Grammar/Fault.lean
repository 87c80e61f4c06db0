import Scriptlet.Diagnostic

/-!
# Violations of the grammar

A missing part makes the rest of its statement unreadable; a bad assignment
target or an overlong list is reported while the reading goes on.
-/

namespace Scriptlet

/-- What a routine is called in messages. -/
inductive RoutineKind where
  | function
  | method
deriving DecidableEq, Repr

/-- The word for a kind of routine. -/
def RoutineKind.word : RoutineKind → String
  | function => "function"
  | method => "method"

/-- What the grammar requires at some place. -/
inductive Expectation where
  | className
  | classOpen
  | classClose
  | routineName (kind : RoutineKind)
  | routineOpen (kind : RoutineKind)
  | parameterName
  | parametersClose
  | bodyOpen (kind : RoutineKind)
  | variableName
  | variableEnd
  | forOpen
  | loopConditionEnd
  | forClose
  | ifOpen
  | ifClose
  | printEnd
  | returnEnd
  | whileOpen
  | whileClose
  | expressionEnd
  | blockClose
  | propertyName
  | argumentsClose
  | groupClose
  | expression
deriving DecidableEq, Repr

/-- What is required, in words. -/
def Expectation.words : Expectation → String
  | className => "class name"
  | classOpen => "'\x7b' before class body"
  | classClose => "'\x7d' after class body"
  | routineName kind => kind.word ++ " name"
  | routineOpen kind => "'(' after " ++ kind.word ++ " name"
  | parameterName => "parameter name"
  | parametersClose => "')' after parameters"
  | bodyOpen kind => "'\x7b' before " ++ kind.word ++ " body"
  | variableName => "variable name"
  | variableEnd => "';' after variable declaration"
  | forOpen => "'(' after 'for'"
  | loopConditionEnd => "';' after loop condition"
  | forClose => "')' after for clauses"
  | ifOpen => "'(' after 'if'"
  | ifClose => "')' after if condition"
  | printEnd => "';' after value"
  | returnEnd => "';' after return value"
  | whileOpen => "'(' after 'while'"
  | whileClose => "')' after condition"
  | expressionEnd => "';' after expression"
  | blockClose => "'\x7d' after block"
  | propertyName => "property name after '.'"
  | argumentsClose => "')' after arguments"
  | groupClose => "')' after expression"
  | expression => "expression"

/-- The lists whose length is limited. -/
inductive Counted where
  | arguments
  | parameters
deriving DecidableEq, Repr

/-- The word for a limited list. -/
def Counted.word : Counted → String
  | arguments => "arguments"
  | parameters => "parameters"

/-- A violation of the grammar. -/
inductive SyntaxFault where
  /-- A required part is not there. -/
  | missing (what : Expectation)
  /-- The left side of an assignment is neither a name nor a property. -/
  | invalidTarget
  /-- A list is longer than allowed. -/
  | tooMany (what : Counted)
deriving DecidableEq, Repr

/-- The wording of a violation. -/
def SyntaxFault.message : SyntaxFault → String
  | missing what => "Expect " ++ what.words ++ "."
  | invalidTarget => "Invalid assignment target."
  | tooMany what => "Can't have more than 255 " ++ what.word ++ "."

/-- Whether a violation gives up the statement it stands in. -/
def SyntaxFault.abandons : SyntaxFault → Bool
  | missing _ => true
  | invalidTarget => false
  | tooMany _ => false

/-- A violation at a token. -/
structure SyntaxError where
  /-- The token at which the violation shows. -/
  place : Token
  /-- The violation. -/
  fault : SyntaxFault
deriving DecidableEq, Repr

/-- The report of a violation. -/
def SyntaxError.diagnostic (e : SyntaxError) : Diagnostic := .grammar e.place e.fault.message

end Scriptlet
