import Cpu6502.Proofs.Addressing
import Cpu6502.Proofs.ControlFlow

/-!
# Steps told by the opcode

The byte at the program counter tells what the next step does.  The step is the
effect of the mnemonic on the operand that the mode finds, it starts behind the
instruction, and its writes make the new memory from the old one.
-/

namespace Cpu6502

namespace Mode

variable (r : Registers) (m : Memory)

theorem operand_zeroPage :
    zeroPage.operand r m = .cell (Word.zeroPage (m.read (r.pc + 1))) :=
  (resolve_fst ..).symm

theorem operand_relative :
    relative.operand r m =
      .cell (Word.displace (r.pc + 1 + 1) (m.read (r.pc + 1))) :=
  (resolve_fst ..).symm

theorem operand_absolute :
    absolute.operand r m = .cell (m.readWord (r.pc + 1)) :=
  (resolve_fst ..).symm

end Mode

namespace Machine

/-- The machine when the instruction at its program counter has been fetched. -/
def behind (s : Machine) (e : Encoding) : Machine :=
  { s with regs := s.regs.advance (BitVec.ofNat 16 e.length) }

/-- The writes of the next step, in order. -/
def written (s : Machine) : List (Word × Byte) :=
  match (Instruction.decode s.regs s.memory).1 with
  | .ok i => (s.behind i.encoding).writes i.operand i.mnemonic.operation
  | .error _ => []

variable {s : Machine} {e : Encoding}

theorem effect_of_documented (h : Encoding.lookup (s.read s.regs.pc) = some e) :
    Effect (e.mode.operand s.regs s.memory)
      (s.behind e) e.mnemonic.operation s.step.2 := by
  obtain ⟨i, hdecode, rfl, hoperand⟩ := Instruction.exists_decode h
  rw [← hoperand]
  exact effect_of_step (by rw [hdecode])

theorem pc_step (h : Encoding.lookup (s.read s.regs.pc) = some e) :
    s.step.2.regs.pc =
      (s.behind e).successor
        (e.mode.operand s.regs s.memory) e.mnemonic.operation :=
  (effect_of_documented h).pc_eq

theorem written_eq_writes (h : Encoding.lookup (s.read s.regs.pc) = some e) :
    s.written = (s.behind e).writes
      (e.mode.operand s.regs s.memory) e.mnemonic.operation := by
  obtain ⟨i, hdecode, rfl, hoperand⟩ := Instruction.exists_decode h
  rw [← hoperand, written, hdecode]
  rfl

theorem memory_step (h : Encoding.lookup (s.read s.regs.pc) = some e) :
    s.step.2.memory = s.memory.writeAll s.written := by
  rw [(effect_of_documented h).memory_eq, written_eq_writes h]
  rfl

end Machine

end Cpu6502
