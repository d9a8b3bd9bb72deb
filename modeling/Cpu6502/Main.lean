import Cpu6502.Clock
import Cpu6502.Command.Arguments
import Cpu6502.Command.Outcome
import Std.Time.DateTime.Timestamp

/-!
# The command

Reads the files that the arguments name, and writes the outcome, with the clock
read for each note.
-/

namespace Cpu6502

/-- The number that the system gives an error; some calls hand it on negated. -/
def errorNumber (code : UInt32) : Nat :=
  min code.toNat (-code).toNat

def Entry.ofError : IO.Error → Entry
  | .noFileOrDirectory .. => .absent .notFound
  | .permissionDenied _ code details | .invalidArgument _ code details
  | .inappropriateType _ code details | .resourceExhausted _ code details =>
      match errorNumber code with
      | 13 => .absent .accessDenied
      | 20 => .absent .notDirectory
      | 21 => .directory
      | 36 => .absent .nameTooLong
      | number =>
          .absent (.other (details ++ " (os error " ++ Nat.repr number ++ ")"))
  | error => .absent (.other error.toString)

def Entry.ofFile (name : String) : IO Entry := do
  try
    let content ← IO.FS.readBinFile name
    return .file (content.data.toList.map UInt8.toBitVec)
  catch error => return .ofError error

def Invocation.files (arguments : List String) : List String :=
  match Invocation.ofArguments Arguments.parser arguments with
  | .ok (.run request) => request.image :: request.log.toList
  | _ => []

def Timestamp.now : IO Timestamp := do
  let nanoseconds := (← Std.Time.Timestamp.now).toNanosecondsSinceUnixEpoch.val
  return ⟨nanoseconds / 1000000000, (nanoseconds % 1000000000).toNat⟩

end Cpu6502

open Cpu6502

def main (arguments : List String) : IO UInt32 := do
  let entries ← (Invocation.files arguments).mapM fun name =>
    return (name, ← Entry.ofFile name)
  -- The name the program was called by is not handed on to it.
  let outcome := Outcome.ofArguments Arguments.parser "nesty" arguments
    fun name => (entries.lookup name).getD (.absent .notFound)
  let times ← outcome.notes.toArray.mapM fun _ =>
    return (← Timestamp.now).render
  IO.print (outcome.written fun k => times.getD k "")
  IO.eprint outcome.err
  return UInt32.ofNat outcome.status.code
