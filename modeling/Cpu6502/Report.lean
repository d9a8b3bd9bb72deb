import Cpu6502.Registers
import Cpu6502.Text.Hex

/-!
# Reports

The registers and the flags in words, one to a line.
-/

namespace Cpu6502.Registers

open Text

def flagText (r : Registers) (f : Flag) : String :=
  if r.p.get f then "SET" else "UNSET"

def reportLines (r : Registers) : List String :=
  [ "CPU State:",
    "    Program Counter: 0x" ++ Hex.word r.pc,
    "    Stack Pointer:   0x" ++ Hex.byte r.sp,
    "    Accumulator:     0x" ++ Hex.byte r.a,
    "    X Register:      0x" ++ Hex.byte r.x,
    "    Y Register:      0x" ++ Hex.byte r.y,
    "",
    "Status Register: 0x" ++ Hex.byte r.p.bits,
    "    Carry Flag:        " ++ r.flagText .carry,
    "    Zero Flag:         " ++ r.flagText .zero,
    "    Interrupt Disable: " ++ r.flagText .interruptDisable,
    "    Decimal Mode:      " ++ r.flagText .decimal,
    "    Break Command:     " ++ r.flagText .breakCommand,
    "    Overflow Flag:     " ++ r.flagText .overflow,
    "    Negative Flag:     " ++ r.flagText .negative ]

def report (r : Registers) : String :=
  "\n".intercalate r.reportLines

end Cpu6502.Registers
