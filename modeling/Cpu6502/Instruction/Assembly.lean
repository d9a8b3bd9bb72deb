import Cpu6502.Instruction

/-!
# Assembly text

An instruction as an assembler would write it.  The form of the operand tells
the mode, and a branch shows the address it leads to.
-/

namespace Cpu6502.Instruction

open Text

def word (i : Instruction) : Word :=
  Word.ofBytes i.first i.second

def branchTarget (i : Instruction) : Word :=
  Word.displace (i.address + 2) i.first

def operandText (i : Instruction) : String :=
  match i.mode with
  | .implicit => ""
  | .accumulator => " A"
  | .immediate => " #$" ++ Hex.byte i.first
  | .zeroPage => " $" ++ Hex.byte i.first
  | .zeroPageX => " $" ++ Hex.byte i.first ++ ",X"
  | .zeroPageY => " $" ++ Hex.byte i.first ++ ",Y"
  | .relative => " $" ++ Hex.word i.branchTarget
  | .absolute => " $" ++ Hex.word i.word
  | .absoluteX => " $" ++ Hex.word i.word ++ ",X"
  | .absoluteY => " $" ++ Hex.word i.word ++ ",Y"
  | .indirect => " ($" ++ Hex.word i.word ++ ")"
  | .indexedIndirect => " ($" ++ Hex.byte i.first ++ ",X)"
  | .indirectIndexed => " ($" ++ Hex.byte i.first ++ "),Y"

def assembly (i : Instruction) : String :=
  i.mnemonic.name ++ i.operandText

end Cpu6502.Instruction
