import Cpu6502.Instruction.Assembly
import Cpu6502.Text.Columns

/-!
# Trace lines

One line for an instruction about to run: its address, its bytes, its assembly
text, and the registers before it, each in columns of its own.
-/

namespace Cpu6502.Trace

open Text

def bytesText : List Byte → String
  | [] => ""
  | [byte] => Hex.byte byte
  | byte :: bytes => Hex.byte byte ++ " " ++ bytesText bytes

def registersText (r : Registers) : String :=
  "A:" ++ Hex.byte r.a ++ " X:" ++ Hex.byte r.x ++ " Y:" ++ Hex.byte r.y ++
    " P:" ++ Hex.byte r.p.bits ++ " SP:" ++ Hex.byte r.sp

def line (r : Registers) (i : Instruction) : String :=
  Hex.word r.pc ++ "  " ++ padEnd 8 (bytesText i.bytes) ++ "  " ++
    padEnd 30 i.assembly ++ "  " ++ registersText r

end Cpu6502.Trace
