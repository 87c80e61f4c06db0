import Scriptlet.Decimal.Notation
import Scriptlet.Store
import Scriptlet.Text.Quoted

/-!
# Written forms of values

The printed form is what a program prints. The detailed form exists for what
lives in the store and for host functions, and lists names only, so that it is
finite even where objects contain themselves.
-/

namespace Scriptlet.Store

/-- The name of a function. -/
def functionName (s : Store) (id : FunctionId) : String :=
  (s.functions[id]?.map fun c => c.routine.name.lexeme).getD ""

/-- The name of a class. -/
def className (s : Store) (id : ClassId) : String := (s.classes[id]?.map ClassInfo.name).getD ""

/-- The name of the class of an object. -/
def objectClassName (s : Store) (id : ObjectId) : String :=
  (s.objects[id]?.map fun o => s.className o.classId).getD ""

/-- A value as it is printed. -/
def render (s : Store) : Value → String
  | .nil => "nil"
  | .bool b => if b then "true" else "false"
  | .number x => Decimal.plain x
  | .text t => t
  | .native _ => "<native fn>"
  | .function id => "<fn " ++ s.functionName id ++ ">"
  | .classRef id => s.className id
  | .object id => s.objectClassName id ++ " instance"

/-- Names in quotes, in brackets. -/
def nameList (names : List String) : String :=
  "[" ++ ", ".intercalate (names.map Text.quoted) ++ "]"

/-- The detailed form of a value, where it has one. -/
def describe? (s : Store) : Value → Option String
  | .native f => some ("<native fn " ++ f.name ++ "/" ++ toString f.arity ++ ">")
  | .function id => some ("<fn " ++ s.functionName id ++ ">")
  | .classRef id => some ("Class \x7b name: " ++ Text.quoted (s.className id) ++ ", methods: "
      ++ nameList ((s.classes[id]?.map fun c => c.methods.keys).getD []) ++ " \x7d")
  | .object id => some ("Instance \x7b class: " ++ Text.quoted (s.objectClassName id)
      ++ ", fields: " ++ nameList ((s.objects[id]?.map fun o => o.fields.keys).getD []) ++ " \x7d")
  | _ => none

end Scriptlet.Store
