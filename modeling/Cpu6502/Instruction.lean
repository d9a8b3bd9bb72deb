import Cpu6502.Fault
import Cpu6502.Opcode.Table
import Cpu6502.Operand

/-!
# Instructions

An instruction is read at the program counter: an opcode byte, the table's entry
for it, the operand that the entry's mode finds, and a copy of the bytes that
were used.  Reading moves the program counter to the next instruction, or past a
byte that is no opcode, and changes nothing else.
-/

namespace Cpu6502

structure Instruction where
  address : Word
  encoding : Encoding
  operand : Operand
  /-- The opcode and the two bytes behind it, zero if it has none. -/
  opcode : Byte
  first : Byte
  second : Byte
  deriving DecidableEq, Repr

namespace Instruction

def mnemonic (i : Instruction) : Mnemonic :=
  i.encoding.mnemonic

def mode (i : Instruction) : Mode :=
  i.encoding.mode

def bytes (i : Instruction) : List Byte :=
  [i.opcode, i.first, i.second].take i.encoding.length

theorem bytes_eq_cons (i : Instruction) :
    i.bytes = i.opcode :: [i.first, i.second].take i.mode.operandLength := by
  rw [bytes, Encoding.length, Nat.add_comm]
  rfl

theorem length_bytes (i : Instruction) :
    i.bytes.length = i.encoding.length := by
  unfold bytes
  rcases i.encoding.length_cases with h | h | h <;> simp [h]

def decode (r : Registers) (m : Memory) :
    Except Fault Instruction × Registers :=
  let (opcode, next) := r.fetch m
  match Encoding.lookup opcode with
  | none => (.error (.unknownOpcode opcode r.pc), next)
  | some encoding =>
      let (operand, next) := encoding.mode.resolve next m
      let byteAt (n : Nat) : Byte :=
        if n < encoding.length then m.read (r.pc + BitVec.ofNat 16 n) else 0
      (.ok
        { address := r.pc
          encoding
          operand
          opcode
          first := byteAt 1
          second := byteAt 2 },
        next)

end Instruction

end Cpu6502
