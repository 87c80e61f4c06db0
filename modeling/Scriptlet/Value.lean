/-!
# Values

Plain values stand for themselves. Functions, classes and objects live in a
store, and a value only names one of them, so that copying a value never copies
what it names and two such values are equal exactly when they name the same
thing.
-/

namespace Scriptlet

/-- The name of a frame in a store. -/
abbrev FrameId := Nat

/-- The name of a function in a store. -/
abbrev FunctionId := Nat

/-- The name of a class in a store. -/
abbrev ClassId := Nat

/-- The name of an object in a store. -/
abbrev ObjectId := Nat

/-- A function supplied by the host. -/
structure Native where
  /-- The name by which it is known. -/
  name : String
  /-- How many arguments it takes. -/
  arity : Nat
deriving DecidableEq, Repr

/-- A value of a running program. -/
inductive Value where
  | nil
  | bool (value : Bool)
  | number (value : Float)
  | text (value : String)
  | native (function : Native)
  | function (id : FunctionId)
  | classRef (id : ClassId)
  | object (id : ObjectId)
deriving DecidableEq, Repr, Inhabited

namespace Value

/-- Everything but nil and false counts as true. -/
def isTruthy : Value → Bool
  | nil => false
  | bool b => b
  | _ => true

/-- What a value is, in words. -/
def typeName : Value → String
  | nil => "nil"
  | bool _ => "boolean"
  | number _ => "number"
  | text _ => "string"
  | native _ => "native function"
  | function _ => "function"
  | classRef _ => "class"
  | object _ => "instance"

/-- Equality inside the language: numbers compare as numbers, so not a number
differs from itself; host functions compare by name; values of different types
are never equal. -/
def same : Value → Value → Bool
  | nil, nil => true
  | bool a, bool b => a == b
  | number a, number b => a == b
  | text a, text b => a == b
  | native a, native b => a.name == b.name
  | function a, function b => a == b
  | classRef a, classRef b => a == b
  | object a, object b => a == b
  | _, _ => false

end Value

end Scriptlet
