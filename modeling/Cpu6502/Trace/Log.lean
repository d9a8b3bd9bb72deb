import Cpu6502.Fault
import Cpu6502.Text.Blank
import Cpu6502.Text.Utf8
import Cpu6502.Trace.Frame

/-!
# Execution logs

A log is a file of trace lines that is read from front to back, one line for
each instruction.  A line ends at a newline or at the end of the file and is
taken without the blanks at its end.  Reading a line uses it up, whatever is
found in it.
-/

namespace Cpu6502

inductive Log where
  | content (rest : List Byte)
  | unreadable (fault : ReadFault)
  deriving DecidableEq, Repr

namespace Log

def newline : Byte := 0x0A

/-- The bytes before the first newline and those behind it. -/
def splitLine (bytes : List Byte) : List Byte × List Byte :=
  let (line, rest) := bytes.span (· != newline)
  (line, rest.drop 1)

inductive Reading where
  | exhausted
  | failed (fault : ReadFault) (rest : Log)
  | line (text : String) (rest : Log)
  deriving DecidableEq, Repr

def next : Log → Reading
  | .unreadable fault => .failed fault (.unreadable fault)
  | .content [] => .exhausted
  | .content (byte :: bytes) =>
      let (line, rest) := splitLine (byte :: bytes)
      match Text.Utf8.decode? line with
      | none => .failed .invalidText (.content rest)
      | some text => .line (Text.trimEnd text) (.content rest)

def agree (expected actual : String) : Bool :=
  match Frame.ofLine? expected.toList with
  | none => false
  | some frame => Frame.ofLine? actual.toList == some frame

end Log

end Cpu6502
