import Scriptlet.Fault
import Scriptlet.Syntax
import Scriptlet.Table
import Scriptlet.Value

/-!
# The store

A store holds the frames, functions, classes and objects of a running program,
each under the number it got when it was made. A frame binds names and may be
enclosed by an older frame. A name is found either in the nearest frame on the
way outward that binds it, or in the frame exactly so many links out. Nothing
is ever removed.
-/

namespace Scriptlet

/-- Names bound together, and the frame around them. -/
structure Frame where
  /-- The names with their values. -/
  bindings : Table String Value := {}
  /-- The frame around this one; only outermost frames have none. -/
  enclosing : Option FrameId := none

/-- A routine with the frame it was declared in. -/
structure Closure where
  /-- The declaration. -/
  routine : Routine
  /-- The frame in which the names of the body are looked up. -/
  frame : FrameId

/-- A class: its name and its methods. -/
structure ClassInfo where
  /-- The name of the class. -/
  name : String
  /-- The methods by name; of two with one name the later. -/
  methods : Table String Closure := {}

/-- An object: its class and its fields. -/
structure Object where
  /-- The class it was made from. -/
  classId : ClassId
  /-- The fields set so far. -/
  fields : Table String Value := {}

/-- Everything a running program has made. -/
structure Store where
  /-- The frames by number. -/
  frames : Array Frame := #[]
  /-- The functions by number. -/
  functions : Array Closure := #[]
  /-- The classes by number. -/
  classes : Array ClassInfo := #[]
  /-- The objects by number. -/
  objects : Array Object := #[]

namespace Store

/-- Add a frame. -/
def addFrame (s : Store) (frame : Frame) : FrameId × Store :=
  (s.frames.size, { s with frames := s.frames.push frame })

/-- Add a function. -/
def addFunction (s : Store) (closure : Closure) : FunctionId × Store :=
  (s.functions.size, { s with functions := s.functions.push closure })

/-- Add a class. -/
def addClass (s : Store) (info : ClassInfo) : ClassId × Store :=
  (s.classes.size, { s with classes := s.classes.push info })

/-- Add an object. -/
def addObject (s : Store) (object : Object) : ObjectId × Store :=
  (s.objects.size, { s with objects := s.objects.push object })

/-- The frame around a frame. -/
def enclosing? (s : Store) (frame : FrameId) : Option FrameId :=
  s.frames[frame]?.bind Frame.enclosing

/-- The value that a frame itself binds to a name. -/
def local? (s : Store) (frame : FrameId) (name : String) : Option Value :=
  s.frames[frame]?.bind fun f => f.bindings.get? name

/-- Whether a frame itself binds a name. -/
def binds (s : Store) (frame : FrameId) (name : String) : Bool := (s.local? frame name).isSome

/-- Bind a name in a frame, over an earlier binding of the name there. -/
def define (s : Store) (frame : FrameId) (name : String) (value : Value) : Store :=
  { s with frames := s.frames.modify frame fun f =>
      { f with bindings := f.bindings.insert name value } }

/-- Set a field of an object. -/
def setField (s : Store) (object : ObjectId) (name : String) (value : Value) : Store :=
  { s with objects := s.objects.modify object fun o =>
      { o with fields := o.fields.insert name value } }

/-- The frame a number of links out. -/
def ancestor? (s : Store) (frame : FrameId) : Nat → Option FrameId
  | 0 => some frame
  | links + 1 => (s.enclosing? frame).bind fun outer => s.ancestor? outer links

/-- The nearest frame on the way outward that binds a name, within a number of steps. -/
def nearestWithin (s : Store) (name : String) : Nat → FrameId → Option FrameId
  | 0, _ => none
  | steps + 1, frame =>
    if s.binds frame name then some frame
    else (s.enclosing? frame).bind fun outer => s.nearestWithin name steps outer

/-- The nearest frame on the way outward that binds a name. Links point to
older frames, so that the way is no longer than the number of frames. -/
def nearest? (s : Store) (frame : FrameId) (name : String) : Option FrameId :=
  s.nearestWithin name s.frames.size frame

/-- Read a name in a frame, if there is one that binds it. -/
def readIn (s : Store) (frame? : Option FrameId) (name : Token) : Except RuntimeError Value :=
  match frame?.bind fun frame => s.local? frame name.lexeme with
  | some value => .ok value
  | none => .error (.undefined name)

/-- Overwrite a name in a frame, if there is one that binds it; never declare. -/
def writeIn (s : Store) (frame? : Option FrameId) (name : Token) (value : Value) :
    Except RuntimeError Store :=
  match frame?.filter fun frame => s.binds frame name.lexeme with
  | some frame => .ok (s.define frame name.lexeme value)
  | none => .error (.undefined name)

/-- Read the nearest binding of a name. -/
def get (s : Store) (frame : FrameId) (name : Token) : Except RuntimeError Value :=
  s.readIn (s.nearest? frame name.lexeme) name

/-- Overwrite the nearest binding of a name. -/
def assign (s : Store) (frame : FrameId) (name : Token) (value : Value) :
    Except RuntimeError Store :=
  s.writeIn (s.nearest? frame name.lexeme) name value

/-- Read a name in the frame exactly so many links out. -/
def getAt (s : Store) (frame : FrameId) (links : Nat) (name : Token) :
    Except RuntimeError Value :=
  s.readIn (s.ancestor? frame links) name

/-- Overwrite a name in the frame exactly so many links out. -/
def assignAt (s : Store) (frame : FrameId) (links : Nat) (name : Token) (value : Value) :
    Except RuntimeError Store :=
  s.writeIn (s.ancestor? frame links) name value

/-- How many arguments a value takes when called; none if it cannot be called. -/
def arity? (s : Store) : Value → Option Nat
  | .native f => some f.arity
  | .function id => s.functions[id]?.map fun c => c.routine.parameters.length
  | .classRef _ => some 0
  | _ => none

end Store

end Scriptlet
