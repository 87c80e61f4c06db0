/-!
# Where output goes

A sink keeps the bytes written to it. It may have room for only so many bytes
in all: the write that overruns it keeps what still fits and fails. It may also
fail to flush.
-/

namespace Scriptlet

/-- Why a sink fails. -/
inductive SinkFault where
  | full
  | flush
deriving DecidableEq, Repr

/-- The wording of a failure. -/
def SinkFault.message : SinkFault → String
  | full => "sink full"
  | flush => "flush failed"

/-- A sink. -/
structure Sink where
  /-- The bytes written so far. -/
  written : Array UInt8 := #[]
  /-- How many bytes fit in all; any number when absent. -/
  capacity : Option Nat := none
  /-- Whether flushing fails. -/
  flushFails : Bool := false

namespace Sink

/-- How many of so many more bytes still fit. -/
def room (s : Sink) (count : Nat) : Nat :=
  match s.capacity with
  | none => count
  | some limit => min count (limit - s.written.size)

/-- Write what fits of some bytes; the failure is absent when all of them fit. -/
def write (s : Sink) (bytes : Array UInt8) : Option SinkFault × Sink :=
  let fitting := s.room bytes.size
  (if fitting = bytes.size then none else some .full,
    { s with written := s.written ++ bytes.take fitting })

/-- Flush; the failure is absent when that succeeds. -/
def flush (s : Sink) : Option SinkFault := if s.flushFails then some .flush else none

end Sink

end Scriptlet
