import Scriptlet.Diagnostic

/-!
# Failures of running programs

Each failure is a cause and the line of the token at which it arose.
-/

namespace Scriptlet

/-- Why a program cannot go on. -/
inductive RuntimeFault where
  | operandNotNumber
  | invalidUnary
  | operandsNotAddable
  | operandsNotNumbers
  | invalidBinary
  | notCallable
  | wrongArity (expected given : Nat)
  | noProperties
  | noFields
  | undefinedProperty (name : String)
  | undefinedVariable (name : String)
  | clockBeforeEpoch
deriving DecidableEq, Repr

/-- The wording of a failure. -/
def RuntimeFault.message : RuntimeFault → String
  | operandNotNumber => "Operand must be a number."
  | invalidUnary => "Invalid unary operator."
  | operandsNotAddable => "Operands must be two numbers or two strings."
  | operandsNotNumbers => "Operands must be numbers."
  | invalidBinary => "Invalid binary operator."
  | notCallable => "Can only call functions and classes."
  | wrongArity expected given =>
    "Expected " ++ toString expected ++ " arguments but got " ++ toString given ++ "."
  | noProperties => "Only instances have properties."
  | noFields => "Only instances have fields."
  | undefinedProperty name => "Undefined property '" ++ name ++ "'."
  | undefinedVariable name => "Undefined variable '" ++ name ++ "'."
  | clockBeforeEpoch => "Clock error: second time provided was later than self"

/-- A failure on a line. -/
structure RuntimeError where
  /-- The line of the token at which the failure arose. -/
  line : Nat
  /-- The cause. -/
  fault : RuntimeFault
deriving DecidableEq, Repr

/-- The report of a failure. -/
def RuntimeError.diagnostic (e : RuntimeError) : Diagnostic := .runtime e.line e.fault.message

/-- The failure to find a variable. -/
def RuntimeError.undefined (name : Token) : RuntimeError :=
  ⟨name.line, .undefinedVariable name.lexeme⟩

end Scriptlet
