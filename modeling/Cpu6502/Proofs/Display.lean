import Cpu6502.Fault
import Cpu6502.Report

/-!
# Displayed texts

The report of the registers and the messages of faults, told by numbers:
hexadecimal digits from the highest down, and a flag by the place of its bit in
the status byte.
-/

namespace Cpu6502

namespace Text

/-- So many hexadecimal digits of a number, in upper case. -/
def hexDigits : Nat → Nat → List Char
  | 0, _ => []
  | width + 1, n =>
      hexDigits width (n / 16) ++ [(Nat.digitChar (n % 16)).toUpper]

def hexadecimal (width n : Nat) : String :=
  String.ofList (hexDigits width n)

theorem Hex.digit_eq (d : BitVec 4) :
    Hex.digit d = (Nat.digitChar d.toNat).toUpper := by
  revert d
  decide

theorem Hex.byte_eq (b : Byte) : Hex.byte b = hexadecimal 2 b.toNat := by
  have hhigh : (b.extractLsb' 4 4).toNat = b.toNat / 16 % 16 := by
    rw [BitVec.extractLsb'_toNat, Nat.shiftRight_eq_div_pow]
  have hlow : (b.setWidth 4).toNat = b.toNat % 16 := BitVec.toNat_setWidth ..
  rw [Hex.byte, Hex.digit_eq, Hex.digit_eq, hhigh, hlow]
  rfl

theorem hexDigits_four (n : Nat) :
    hexDigits 4 n = hexDigits 2 (n / 256 % 256) ++ hexDigits 2 (n % 256) := by
  have hfirst : n / 16 / 16 / 16 % 16 = n / 256 % 256 / 16 % 16 := by omega
  have hsecond : n / 16 / 16 % 16 = n / 256 % 256 % 16 := by omega
  have hthird : n / 16 % 16 = n % 256 / 16 % 16 := by omega
  have hfourth : n % 16 = n % 256 % 16 := by omega
  simp only [hexDigits]
  rw [hfirst, hsecond, hthird, hfourth]
  rfl

theorem Hex.word_eq (w : Word) : Hex.word w = hexadecimal 4 w.toNat := by
  have hhigh : (Word.high w).toNat = w.toNat / 256 % 256 := by
    rw [Word.high, BitVec.extractLsb'_toNat, Nat.shiftRight_eq_div_pow]
  have hlow : (Word.low w).toNat = w.toNat % 256 := BitVec.toNat_setWidth ..
  rw [Hex.word, Hex.byte_eq, Hex.byte_eq, hhigh, hlow, hexadecimal, hexadecimal,
    hexadecimal, hexDigits_four, String.ofList_append]

end Text

open Text

/-- A flag of the status byte in words. -/
def Status.display (p : Status) (bit : Nat) : String :=
  if p.bits.toNat.testBit bit then "SET" else "UNSET"

/-- The registers and the flags as a caller sees them. -/
def Registers.display (r : Registers) : String :=
  "\n".intercalate
    [ "CPU State:",
      "    Program Counter: 0x" ++ hexadecimal 4 r.pc.toNat,
      "    Stack Pointer:   0x" ++ hexadecimal 2 r.sp.toNat,
      "    Accumulator:     0x" ++ hexadecimal 2 r.a.toNat,
      "    X Register:      0x" ++ hexadecimal 2 r.x.toNat,
      "    Y Register:      0x" ++ hexadecimal 2 r.y.toNat,
      "",
      "Status Register: 0x" ++ hexadecimal 2 r.p.bits.toNat,
      "    Carry Flag:        " ++ r.p.display 0,
      "    Zero Flag:         " ++ r.p.display 1,
      "    Interrupt Disable: " ++ r.p.display 2,
      "    Decimal Mode:      " ++ r.p.display 3,
      "    Break Command:     " ++ r.p.display 4,
      "    Overflow Flag:     " ++ r.p.display 6,
      "    Negative Flag:     " ++ r.p.display 7 ]

theorem Registers.flagText_eq_display (r : Registers) (f : Flag) :
    r.flagText f = r.p.display f.bit := rfl

theorem Registers.report_eq_display (r : Registers) : r.report = r.display := by
  simp only [report, reportLines, display, flagText_eq_display, Hex.byte_eq,
    Hex.word_eq, Flag.bit]

/-- The exit code of a fault that a run ends in, and what is said of it. -/
inductive Fault.Tells : Fault → Nat → String → Prop where
  | unknownOpcode (opcode : Byte) (address : Word) :
      Tells (.unknownOpcode opcode address) 4
        ("unknown opcode 0x" ++ hexadecimal 2 opcode.toNat ++ " at 0x" ++
          hexadecimal 4 address.toNat)
  | traceMismatch (expected actual : String) :
      Tells (.traceMismatch expected actual) 5
        ("mismatched CPU frames\n    expected: " ++ expected ++
          "\n    actual:   " ++ actual)
  | invalidText :
      Tells (.unreadableLog .invalidText) 101
        "stream did not contain valid UTF-8"

theorem Fault.message_unknownOpcode (opcode : Byte) (address : Word) :
    (unknownOpcode opcode address).message =
      "unknown opcode 0x" ++ hexadecimal 2 opcode.toNat ++ " at 0x" ++
        hexadecimal 4 address.toNat := by
  rw [← Hex.byte_eq, ← Hex.word_eq]
  rfl

theorem Fault.Tells.eq {fault : Fault} {code : Nat} {text : String}
    (h : fault.Tells code text) :
    fault.exitStatus.code = code ∧ fault.message = text := by
  cases h with
  | unknownOpcode opcode address =>
      exact ⟨rfl, message_unknownOpcode opcode address⟩
  | traceMismatch | invalidText => exact ⟨rfl, rfl⟩

end Cpu6502
