import Cpu6502.Word
import Cpu6502.Opcode.Mnemonic
import Cpu6502.Opcode.Mode

/-!
# The opcode table

One row for each documented opcode.  A byte outside the table is no instruction.
-/

namespace Cpu6502

structure Encoding where
  byte : Byte
  mnemonic : Mnemonic
  mode : Mode
  deriving DecidableEq, Repr

namespace Encoding

/-- The length of an instruction, its opcode included. -/
def length (e : Encoding) : Nat :=
  1 + e.mode.operandLength

theorem length_cases (e : Encoding) :
    e.length = 1 ∨ e.length = 2 ∨ e.length = 3 := by
  unfold length
  cases e.mode <;> decide

def name (e : Encoding) : String :=
  e.mnemonic.name ++ e.mode.abbreviation

def documented : List Encoding :=
  [ ⟨0xA1, .lda, .indexedIndirect⟩, ⟨0xA5, .lda, .zeroPage⟩,
    ⟨0xA9, .lda, .immediate⟩, ⟨0xAD, .lda, .absolute⟩,
    ⟨0xB1, .lda, .indirectIndexed⟩, ⟨0xB5, .lda, .zeroPageX⟩,
    ⟨0xB9, .lda, .absoluteY⟩, ⟨0xBD, .lda, .absoluteX⟩,
    ⟨0xA2, .ldx, .immediate⟩, ⟨0xA6, .ldx, .zeroPage⟩, ⟨0xAE, .ldx, .absolute⟩,
    ⟨0xB6, .ldx, .zeroPageY⟩, ⟨0xBE, .ldx, .absoluteY⟩,
    ⟨0xA0, .ldy, .immediate⟩, ⟨0xA4, .ldy, .zeroPage⟩, ⟨0xAC, .ldy, .absolute⟩,
    ⟨0xB4, .ldy, .zeroPageX⟩, ⟨0xBC, .ldy, .absoluteX⟩,
    ⟨0x81, .sta, .indexedIndirect⟩, ⟨0x85, .sta, .zeroPage⟩,
    ⟨0x8D, .sta, .absolute⟩, ⟨0x91, .sta, .indirectIndexed⟩,
    ⟨0x95, .sta, .zeroPageX⟩, ⟨0x99, .sta, .absoluteY⟩,
    ⟨0x9D, .sta, .absoluteX⟩,
    ⟨0x86, .stx, .zeroPage⟩, ⟨0x8E, .stx, .absolute⟩, ⟨0x96, .stx, .zeroPageY⟩,
    ⟨0x84, .sty, .zeroPage⟩, ⟨0x8C, .sty, .absolute⟩, ⟨0x94, .sty, .zeroPageX⟩,
    ⟨0xAA, .tax, .implicit⟩,
    ⟨0xA8, .tay, .implicit⟩,
    ⟨0x8A, .txa, .implicit⟩,
    ⟨0x98, .tya, .implicit⟩,
    ⟨0xBA, .tsx, .implicit⟩,
    ⟨0x9A, .txs, .implicit⟩,
    ⟨0x48, .pha, .implicit⟩,
    ⟨0x08, .php, .implicit⟩,
    ⟨0x68, .pla, .implicit⟩,
    ⟨0x28, .plp, .implicit⟩,
    ⟨0x21, .and, .indexedIndirect⟩, ⟨0x25, .and, .zeroPage⟩,
    ⟨0x29, .and, .immediate⟩, ⟨0x2D, .and, .absolute⟩,
    ⟨0x31, .and, .indirectIndexed⟩, ⟨0x35, .and, .zeroPageX⟩,
    ⟨0x39, .and, .absoluteY⟩, ⟨0x3D, .and, .absoluteX⟩,
    ⟨0x41, .eor, .indexedIndirect⟩, ⟨0x45, .eor, .zeroPage⟩,
    ⟨0x49, .eor, .immediate⟩, ⟨0x4D, .eor, .absolute⟩,
    ⟨0x51, .eor, .indirectIndexed⟩, ⟨0x55, .eor, .zeroPageX⟩,
    ⟨0x59, .eor, .absoluteY⟩, ⟨0x5D, .eor, .absoluteX⟩,
    ⟨0x01, .ora, .indexedIndirect⟩, ⟨0x05, .ora, .zeroPage⟩,
    ⟨0x09, .ora, .immediate⟩, ⟨0x0D, .ora, .absolute⟩,
    ⟨0x11, .ora, .indirectIndexed⟩, ⟨0x15, .ora, .zeroPageX⟩,
    ⟨0x19, .ora, .absoluteY⟩, ⟨0x1D, .ora, .absoluteX⟩,
    ⟨0x24, .bit, .zeroPage⟩, ⟨0x2C, .bit, .absolute⟩,
    ⟨0x61, .adc, .indexedIndirect⟩, ⟨0x65, .adc, .zeroPage⟩,
    ⟨0x69, .adc, .immediate⟩, ⟨0x6D, .adc, .absolute⟩,
    ⟨0x71, .adc, .indirectIndexed⟩, ⟨0x75, .adc, .zeroPageX⟩,
    ⟨0x79, .adc, .absoluteY⟩, ⟨0x7D, .adc, .absoluteX⟩,
    ⟨0xE1, .sbc, .indexedIndirect⟩, ⟨0xE5, .sbc, .zeroPage⟩,
    ⟨0xE9, .sbc, .immediate⟩, ⟨0xED, .sbc, .absolute⟩,
    ⟨0xF1, .sbc, .indirectIndexed⟩, ⟨0xF5, .sbc, .zeroPageX⟩,
    ⟨0xF9, .sbc, .absoluteY⟩, ⟨0xFD, .sbc, .absoluteX⟩,
    ⟨0xC1, .cmp, .indexedIndirect⟩, ⟨0xC5, .cmp, .zeroPage⟩,
    ⟨0xC9, .cmp, .immediate⟩, ⟨0xCD, .cmp, .absolute⟩,
    ⟨0xD1, .cmp, .indirectIndexed⟩, ⟨0xD5, .cmp, .zeroPageX⟩,
    ⟨0xD9, .cmp, .absoluteY⟩, ⟨0xDD, .cmp, .absoluteX⟩,
    ⟨0xE0, .cpx, .immediate⟩, ⟨0xE4, .cpx, .zeroPage⟩, ⟨0xEC, .cpx, .absolute⟩,
    ⟨0xC0, .cpy, .immediate⟩, ⟨0xC4, .cpy, .zeroPage⟩, ⟨0xCC, .cpy, .absolute⟩,
    ⟨0xE6, .inc, .zeroPage⟩, ⟨0xEE, .inc, .absolute⟩, ⟨0xF6, .inc, .zeroPageX⟩,
    ⟨0xFE, .inc, .absoluteX⟩,
    ⟨0xE8, .inx, .implicit⟩,
    ⟨0xC8, .iny, .implicit⟩,
    ⟨0xC6, .dec, .zeroPage⟩, ⟨0xCE, .dec, .absolute⟩, ⟨0xD6, .dec, .zeroPageX⟩,
    ⟨0xDE, .dec, .absoluteX⟩,
    ⟨0xCA, .dex, .implicit⟩,
    ⟨0x88, .dey, .implicit⟩,
    ⟨0x06, .asl, .zeroPage⟩, ⟨0x0A, .asl, .accumulator⟩,
    ⟨0x0E, .asl, .absolute⟩, ⟨0x16, .asl, .zeroPageX⟩, ⟨0x1E, .asl, .absoluteX⟩,
    ⟨0x46, .lsr, .zeroPage⟩, ⟨0x4A, .lsr, .accumulator⟩,
    ⟨0x4E, .lsr, .absolute⟩, ⟨0x56, .lsr, .zeroPageX⟩, ⟨0x5E, .lsr, .absoluteX⟩,
    ⟨0x26, .rol, .zeroPage⟩, ⟨0x2A, .rol, .accumulator⟩,
    ⟨0x2E, .rol, .absolute⟩, ⟨0x36, .rol, .zeroPageX⟩, ⟨0x3E, .rol, .absoluteX⟩,
    ⟨0x66, .ror, .zeroPage⟩, ⟨0x6A, .ror, .accumulator⟩,
    ⟨0x6E, .ror, .absolute⟩, ⟨0x76, .ror, .zeroPageX⟩, ⟨0x7E, .ror, .absoluteX⟩,
    ⟨0x4C, .jmp, .absolute⟩, ⟨0x6C, .jmp, .indirect⟩,
    ⟨0x20, .jsr, .absolute⟩,
    ⟨0x60, .rts, .implicit⟩,
    ⟨0x90, .bcc, .relative⟩,
    ⟨0xB0, .bcs, .relative⟩,
    ⟨0xF0, .beq, .relative⟩,
    ⟨0x30, .bmi, .relative⟩,
    ⟨0xD0, .bne, .relative⟩,
    ⟨0x10, .bpl, .relative⟩,
    ⟨0x50, .bvc, .relative⟩,
    ⟨0x70, .bvs, .relative⟩,
    ⟨0x18, .clc, .implicit⟩,
    ⟨0xD8, .cld, .implicit⟩,
    ⟨0x58, .cli, .implicit⟩,
    ⟨0xB8, .clv, .implicit⟩,
    ⟨0x38, .sec, .implicit⟩,
    ⟨0xF8, .sed, .implicit⟩,
    ⟨0x78, .sei, .implicit⟩,
    ⟨0x00, .brk, .implicit⟩,
    ⟨0xEA, .nop, .implicit⟩,
    ⟨0x40, .rti, .implicit⟩ ]

def lookup (byte : Byte) : Option Encoding :=
  documented.find? (·.byte == byte)

theorem byte_of_lookup {byte : Byte} {e : Encoding} (h : lookup byte = some e) :
    e.byte = byte := by
  simpa using List.find?_some h

theorem mem_of_lookup {byte : Byte} {e : Encoding} (h : lookup byte = some e) :
    e ∈ documented :=
  List.mem_of_find?_eq_some h

end Encoding

end Cpu6502
