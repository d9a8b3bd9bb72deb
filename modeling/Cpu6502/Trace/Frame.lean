import Cpu6502.Registers
import Cpu6502.Text.Columns
import Cpu6502.Text.Hex

/-!
# Frames

What a trace line says of the processor: the instruction's bytes and the
registers, read from fixed columns.  A byte of the instruction that is left
blank counts as zero, and a line without a register is no frame.  The columns of
the assembly text and all that follows the registers are free.
-/

namespace Cpu6502

structure Frame where
  pc : Word
  opcode : Byte
  first : Byte
  second : Byte
  a : Byte
  x : Byte
  y : Byte
  p : Byte
  sp : Byte
  deriving DecidableEq, Repr

namespace Frame

open Text

def field? (width first last : Nat) (line : List Char) :
    Option (BitVec width) :=
  (columns? first last line).bind (Hex.read? width)

def ofLine? (line : List Char) : Option Frame := do
  let pc ← field? 16 0 4 line
  let a ← field? 8 50 52 line
  let x ← field? 8 55 57 line
  let y ← field? 8 60 62 line
  let p ← field? 8 65 67 line
  let sp ← field? 8 71 73 line
  return {
    opcode := (field? 8 6 8 line).getD 0
    first := (field? 8 9 11 line).getD 0
    second := (field? 8 12 14 line).getD 0
    pc, a, x, y, p, sp }

end Frame

end Cpu6502
