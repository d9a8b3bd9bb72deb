import Cpu6502.Proofs.Footprint

/-!
# Where execution goes on

The program counter that an operation leaves, from the one behind its
instruction.  Jumps and calls take it from the operand, branches do so if their
flag is right, returns pull it, an interrupt reads it from its vector, and all
else leaves it alone.
-/

namespace Cpu6502

theorem Word.stackPage_ne {address : Word} (h : Word.high address ≠ 0x01)
    (offset : Byte) : address ≠ stackPage offset := by
  rintro rfl
  exact h (high_ofBytes offset 0x01)

theorem Memory.readWord_write_stackPage (m : Memory) (offset byte : Byte) :
    (m.write (Word.stackPage offset) byte).readWord interruptVector =
      m.readWord interruptVector := by
  have hlow : (m.write (Word.stackPage offset) byte).read interruptVector =
      m.read interruptVector :=
    m.read_write_of_ne byte (Word.stackPage_ne (by decide) offset)
  have hhigh :
      (m.write (Word.stackPage offset) byte).read (interruptVector + 1) =
      m.read (interruptVector + 1) :=
    m.read_write_of_ne byte (Word.stackPage_ne (by decide) offset)
  rw [readWord, readWord, hlow, hhigh]

namespace Machine

def successor (s : Machine) (o : Operand) : Operation → Word
  | .jump | .call => o.address?.getD 0
  | .branch f value =>
      if s.regs.p.get f = value then o.address?.getD 0 else s.regs.pc
  | .returnFromCall => s.pullWord.1 + 1
  | .returnFromInterrupt => s.pull.2.pullWord.1 + 1
  | .interrupt => s.memory.readWord Memory.interruptVector
  | _ => s.regs.pc

theorem pc_produce (s : Machine) (r : Register) (byte : Byte) :
    (s.produce r byte).regs.pc = s.regs.pc := by
  cases r <;> rfl

theorem pc_transfer (s : Machine) (source target : Register) :
    (s.transfer source target).regs.pc = s.regs.pc := by
  cases target <;> rfl

theorem pc_change (s : Machine) (c : Change) (byte : Byte) :
    (s.change c byte).2.regs.pc = s.regs.pc := by
  cases c <;> rfl

/-- The stack is written before the vector is read, but does not reach it. -/
theorem pc_interrupt (s : Machine) :
    s.interrupt.regs.pc = s.memory.readWord Memory.interruptVector := by
  change (((s.memory.write _ _).write _ _).write _ _).readWord
    Memory.interruptVector = _
  simp only [Memory.readWord_write_stackPage]

end Machine

namespace Effect

variable {o : Operand} {s t : Machine} {op : Operation}

theorem pc_of_write? {byte : Byte} (h : o.write? s byte = some t) :
    t.regs.pc = s.regs.pc := by
  rcases Operand.write?_eq_some h with ⟨rfl, rfl⟩ | ⟨address, rfl, rfl⟩
  · rfl
  · rfl

theorem pc_eq (h : Effect o s op t) : t.regs.pc = s.successor o op := by
  cases h with
  | load | combine => exact Machine.pc_produce ..
  | pull => exact Machine.pc_produce ..
  | transfer => exact Machine.pc_transfer ..
  | store stored => exact pc_of_write? stored
  | modify found stored =>
      exact (pc_of_write? stored).trans (Machine.pc_change ..)
  | adjust => exact (Machine.pc_produce ..).trans (Machine.pc_change ..)
  | jump found | call found =>
      rw [Machine.successor, found]
      rfl
  | branch found =>
      simp only [Machine.successor, Machine.branch, found, Option.getD_some]
      split <;> rfl
  | interrupt => exact s.pc_interrupt
  | _ => rfl

end Effect

end Cpu6502
