import Cpu6502.Machine
import Cpu6502.Opcode.Mode

/-!
# Operands

Where an instruction finds its operand: nowhere, in the accumulator, or in a
cell of memory.  A mode finds the operand from the bytes at the program counter
and leaves the program counter behind them.  Indexing in page zero and the
pointers kept there stay in page zero; all else wraps at the end of memory.
-/

namespace Cpu6502

inductive Operand where
  | absent
  | accumulator
  | cell (address : Word)
  deriving DecidableEq, Repr

namespace Operand

def address? : Operand → Option Word
  | .absent | .accumulator => none
  | .cell address => some address

def read? (o : Operand) (s : Machine) : Option Byte :=
  match o with
  | .absent => none
  | .accumulator => some s.regs.a
  | .cell address => some (s.read address)

def write? (o : Operand) (s : Machine) (byte : Byte) : Option Machine :=
  match o with
  | .absent => none
  | .accumulator => some (s.set .a byte)
  | .cell address => some (s.write address byte)

end Operand

namespace Mode

def resolve (mode : Mode) (r : Registers) (m : Memory) : Operand × Registers :=
  match mode with
  | .implicit => (.absent, r)
  | .accumulator => (.accumulator, r)
  | .immediate => (.cell r.pc, r.advance 1)
  | .zeroPage =>
      let (offset, r) := r.fetch m
      (.cell (Word.zeroPage offset), r)
  | .zeroPageX =>
      let (offset, r) := r.fetch m
      (.cell (Word.zeroPage (offset + r.x)), r)
  | .zeroPageY =>
      let (offset, r) := r.fetch m
      (.cell (Word.zeroPage (offset + r.y)), r)
  | .relative =>
      let (displacement, r) := r.fetch m
      (.cell (Word.displace r.pc displacement), r)
  | .absolute =>
      let (base, r) := r.fetchWord m
      (.cell base, r)
  | .absoluteX =>
      let (base, r) := r.fetchWord m
      (.cell (base + r.x.setWidth 16), r)
  | .absoluteY =>
      let (base, r) := r.fetchWord m
      (.cell (base + r.y.setWidth 16), r)
  | .indirect =>
      let (pointer, r) := r.fetchWord m
      (.cell (m.readWord pointer), r)
  | .indexedIndirect =>
      let (pointer, r) := r.fetch m
      (.cell (m.readZeroPageWord (pointer + r.x)), r)
  | .indirectIndexed =>
      let (pointer, r) := r.fetch m
      (.cell (m.readZeroPageWord pointer + r.y.setWidth 16), r)

end Mode

end Cpu6502
