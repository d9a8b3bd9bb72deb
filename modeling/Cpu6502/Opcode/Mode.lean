/-!
# Addressing modes

The rules for finding an operand, and how many bytes after the opcode each rule
uses up.
-/

namespace Cpu6502

inductive Mode where
  | implicit
  | accumulator
  | immediate
  | zeroPage
  | zeroPageX
  | zeroPageY
  | relative
  | absolute
  | absoluteX
  | absoluteY
  | indirect
  | indexedIndirect
  | indirectIndexed
  deriving DecidableEq, Repr

namespace Mode

def all : List Mode :=
  [implicit, accumulator, immediate, zeroPage, zeroPageX, zeroPageY, relative,
    absolute, absoluteX, absoluteY, indirect, indexedIndirect, indirectIndexed]

def operandLength : Mode → Nat
  | .implicit | .accumulator => 0
  | .immediate | .zeroPage | .zeroPageX | .zeroPageY | .relative
  | .indexedIndirect | .indirectIndexed => 1
  | .absolute | .absoluteX | .absoluteY | .indirect => 2

def name : Mode → String
  | .implicit => "Implicit"
  | .accumulator => "Accumulator"
  | .immediate => "Immediate"
  | .zeroPage => "ZeroPage"
  | .zeroPageX => "ZeroPageX"
  | .zeroPageY => "ZeroPageY"
  | .relative => "Relative"
  | .absolute => "Absolute"
  | .absoluteX => "AbsoluteX"
  | .absoluteY => "AbsoluteY"
  | .indirect => "Indirect"
  | .indexedIndirect => "IndexedIndirect"
  | .indirectIndexed => "IndirectIndexed"

/-- The mode as it is abbreviated behind a mnemonic in the name of an opcode. -/
def abbreviation : Mode → String
  | .implicit => ""
  | .accumulator => "Acc"
  | .immediate => "Imm"
  | .zeroPage => "Zero"
  | .zeroPageX => "ZeroX"
  | .zeroPageY => "ZeroY"
  | .relative => "Rel"
  | .absolute => "Abs"
  | .absoluteX => "AbsX"
  | .absoluteY => "AbsY"
  | .indirect => "Ind"
  | .indexedIndirect => "IndX"
  | .indirectIndexed => "IndY"

end Mode

end Cpu6502
