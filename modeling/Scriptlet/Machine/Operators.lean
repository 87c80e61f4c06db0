import Scriptlet.Fault
import Scriptlet.Syntax
import Scriptlet.Value

/-!
# Constants and operators

Equality and addition look at their operands first; every other operator of two
operands wants numbers, and only then is the operator itself looked at.
Arithmetic is that of 64-bit binary floating point, so nothing overflows and
division by zero has a value.
-/

namespace Scriptlet

/-- The value of a constant. -/
def Constant.value : Constant → Value
  | number x => .number x
  | text s => .text s
  | bool b => .bool b
  | nil => .nil

/-- Apply an operator to one operand. -/
def applyUnary (operator : Token) (operand : Value) : Except RuntimeError Value :=
  match operator.kind with
  | .bang => .ok (.bool (!operand.isTruthy))
  | .minus =>
    match operand with
    | .number x => .ok (.number (-x))
    | _ => .error ⟨operator.line, .operandNotNumber⟩
  | _ => .error ⟨operator.line, .invalidUnary⟩

/-- Add numbers or join texts. -/
def applyPlus (operator : Token) : Value → Value → Except RuntimeError Value
  | .number a, .number b => .ok (.number (a + b))
  | .text a, .text b => .ok (.text (a ++ b))
  | _, _ => .error ⟨operator.line, .operandsNotAddable⟩

/-- Apply an operator to two numbers. -/
def applyNumeric (operator : Token) (a b : Float) : Except RuntimeError Value :=
  match operator.kind with
  | .minus => .ok (.number (a - b))
  | .star => .ok (.number (a * b))
  | .slash => .ok (.number (a / b))
  | .greater => .ok (.bool (decide (b < a)))
  | .greaterEqual => .ok (.bool (decide (b ≤ a)))
  | .less => .ok (.bool (decide (a < b)))
  | .lessEqual => .ok (.bool (decide (a ≤ b)))
  | _ => .error ⟨operator.line, .invalidBinary⟩

/-- Apply an operator to two operands. -/
def applyBinary (operator : Token) (left right : Value) : Except RuntimeError Value :=
  match operator.kind with
  | .equalEqual => .ok (.bool (left.same right))
  | .bangEqual => .ok (.bool (!left.same right))
  | .plus => applyPlus operator left right
  | _ =>
    match left, right with
    | .number a, .number b => applyNumeric operator a b
    | _, _ => .error ⟨operator.line, .operandsNotNumbers⟩

/-- Whether the left operand of a logical operator decides its value. -/
def decides (operator : Token) (left : Value) : Bool :=
  if operator.kind = .kwOr then left.isTruthy else !left.isTruthy

end Scriptlet
