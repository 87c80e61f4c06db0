import Scriptlet.Command
import Std.Time.DateTime.Timestamp

/-!
# The program

The outer layer reads the command line, files, typed lines and the time of day,
and writes what the library makes of them. It decides nothing else.
-/

namespace Scriptlet.Main

/-- Steps that a run may take: more than any machine gets done. -/
def fuel : Nat := 4000000000000000000

/-- What the system says about a failure. -/
def reason : IO.Error → String
  | .noFileOrDirectory .. => FileFault.notFound.message
  | .inappropriateType _ code words => systemMessage words code.toNat
  | .invalidArgument _ code words => systemMessage words code.toNat
  | .permissionDenied _ code words => systemMessage words code.toNat
  | .resourceExhausted _ code words => systemMessage words code.toNat
  | e => toString e

/-- Read a file. -/
def readContent (path : String) : IO FileContent := do
  match ← (IO.FS.Handle.mk path .read).toBaseIO with
  | .error e => return .cannotOpen (reason e)
  | .ok handle =>
    match ← handle.readBinToEnd.toBaseIO with
    | .error e => return .cannotRead (reason e)
    | .ok content => return .bytes content.toList

/-- The clock of a run that begins now; later readings lie a little later. -/
def clockFromNow : IO Clock := do
  let now ← Std.Time.Timestamp.now
  let nanoseconds := now.toNanosecondsSinceUnixEpoch.val
  return { reading := fun n => Float.ofInt (nanoseconds + 1000 * n) / 1000000000.0 }

/-- Write bytes at once. -/
def emit (bytes : Array UInt8) : IO Unit := do
  let stdout ← IO.getStdout
  stdout.write ⟨bytes⟩
  stdout.flush

/-- Write a report and give its exit code. -/
def deliver (report : Report) : IO UInt32 := do
  emit report.out
  (← IO.getStderr).putStr report.err
  return report.code.toUInt32

/-- Read typed bytes up to a newline or the end; nothing at the end. -/
partial def readLine (begun : List UInt8) : IO (Option (List UInt8)) := do
  let bytes ← (← IO.getStdin).read 1
  match bytes.toList with
  | [] => return if begun.isEmpty then none else some begun.reverse
  | b :: _ => if b = 10 then return some (Prompt.finishLine begun) else readLine (b :: begun)

/-- Answer typed lines until they end. -/
partial def converse (s : Session) : IO UInt32 := do
  emit (Report.bytes Prompt.mark)
  match ← readLine [] with
  | none =>
    emit (Report.bytes "\n")
    return 0
  | some line =>
    let clock ← clockFromNow
    let s := { s with machine := { s.machine with sink := {}, clock } }
    match Prompt.answer fuel s line with
    | .error mishap => deliver (Report.ofMishap #[] "" mishap)
    | .ok (errors, after) =>
      emit after.machine.sink.written
      (← IO.getStderr).putStr errors
      converse after

/-- Carry out a command line. -/
def perform (invocation : Invocation) : IO UInt32 := do
  if invocation.log then
    IO.FS.writeFile Invocation.logName ""
  let clock ← clockFromNow
  match invocation.command with
  | .prompt => converse (Session.start {} clock)
  | .tokenize path json =>
    deliver (withFile path (← readContent path) (tokenizeSource json))
  | .parse path => deliver (withFile path (← readContent path) parseSource)
  | .run path => deliver (withFile path (← readContent path) (runSource clock fuel))

end Scriptlet.Main

/-- The program: exit code 2 says that the command line was not understood. -/
def main (arguments : List String) : IO UInt32 := do
  match Scriptlet.Invocation.ofArguments? arguments with
  | some invocation => Scriptlet.Main.perform invocation
  | none =>
    (← IO.getStderr).putStr
      "Usage: [--log] [tokenize FILE [--json] | parse FILE | run FILE | repl]\n"
    return 2
