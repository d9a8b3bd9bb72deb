import Cpu6502.Instruction.Operation

/-!
# Parts of a machine after an operation

Memory, the stack pointer and the program counter after each thing a machine
can do.  Memory changes by pushing only, and the stack pointer moves by as many
cells as are pushed or pulled.
-/

namespace Cpu6502.Machine

/-! ## Memory -/

@[simp] theorem memory_write (s : Machine) (address : Word) (byte : Byte) :
    (s.write address byte).memory = s.memory.write address byte := rfl

@[simp] theorem memory_set (s : Machine) (r : Register) (byte : Byte) :
    (s.set r byte).memory = s.memory := rfl

@[simp] theorem memory_setFlag (s : Machine) (f : Flag) (value : Bool) :
    (s.setFlag f value).memory = s.memory := rfl

@[simp] theorem memory_setStatus (s : Machine) (bits : Byte) :
    (s.setStatus bits).memory = s.memory := rfl

@[simp] theorem memory_recordResult (s : Machine) (byte : Byte) :
    (s.recordResult byte).memory = s.memory := rfl

@[simp] theorem memory_goto (s : Machine) (address : Word) :
    (s.goto address).memory = s.memory := rfl

@[simp] theorem memory_push (s : Machine) (byte : Byte) :
    (s.push byte).memory = s.memory.write (Word.stackPage s.regs.sp) byte := rfl

@[simp] theorem memory_pull (s : Machine) : s.pull.2.memory = s.memory := rfl

@[simp] theorem memory_pullWord (s : Machine) :
    s.pullWord.2.memory = s.memory := rfl

@[simp] theorem memory_produce (s : Machine) (r : Register) (byte : Byte) :
    (s.produce r byte).memory = s.memory := rfl

@[simp] theorem memory_transfer (s : Machine) (source target : Register) :
    (s.transfer source target).memory = s.memory := by
  cases target <;> rfl

@[simp] theorem memory_testBits (s : Machine) (byte : Byte) :
    (s.testBits byte).memory = s.memory := rfl

@[simp] theorem memory_add (s : Machine) (byte : Byte) :
    (s.add byte).memory = s.memory := by
  simp [add]

@[simp] theorem memory_subtract (s : Machine) (byte : Byte) :
    (s.subtract byte).memory = s.memory := by
  simp [subtract]

@[simp] theorem memory_compare (s : Machine) (r : Register) (byte : Byte) :
    (s.compare r byte).memory = s.memory := rfl

@[simp] theorem memory_change (s : Machine) (c : Change) (byte : Byte) :
    (s.change c byte).2.memory = s.memory := by
  cases c <;> rfl

@[simp] theorem memory_branch (s : Machine) (f : Flag) (value : Bool)
    (target : Word) : (s.branch f value target).memory = s.memory := by
  unfold branch
  split <;> rfl

@[simp] theorem memory_returnFromCall (s : Machine) :
    s.returnFromCall.memory = s.memory := rfl

@[simp] theorem memory_returnFromInterrupt (s : Machine) :
    s.returnFromInterrupt.memory = s.memory := rfl

/-! ## The stack pointer -/

@[simp] theorem regs_write (s : Machine) (address : Word) (byte : Byte) :
    (s.write address byte).regs = s.regs := rfl

@[simp] theorem sp_setFlag (s : Machine) (f : Flag) (value : Bool) :
    (s.setFlag f value).regs.sp = s.regs.sp := rfl

@[simp] theorem sp_setStatus (s : Machine) (bits : Byte) :
    (s.setStatus bits).regs.sp = s.regs.sp := rfl

@[simp] theorem sp_recordResult (s : Machine) (byte : Byte) :
    (s.recordResult byte).regs.sp = s.regs.sp := rfl

@[simp] theorem sp_goto (s : Machine) (address : Word) :
    (s.goto address).regs.sp = s.regs.sp := rfl

@[simp] theorem sp_push (s : Machine) (byte : Byte) :
    (s.push byte).regs.sp = s.regs.sp - 1 := rfl

@[simp] theorem sp_pull (s : Machine) : s.pull.2.regs.sp = s.regs.sp + 1 := rfl

@[simp] theorem sp_pushWord (s : Machine) (value : Word) :
    (s.pushWord value).regs.sp = s.regs.sp - 2 := by
  change s.regs.sp - 1 - 1 = _
  bv_omega

@[simp] theorem sp_pullWord (s : Machine) :
    s.pullWord.2.regs.sp = s.regs.sp + 2 := by
  change s.regs.sp + 1 + 1 = _
  bv_omega

theorem sp_produce (s : Machine) (r : Register) (byte : Byte) :
    (s.produce r byte).regs.sp = if r = .sp then byte else s.regs.sp := by
  cases r <;> rfl

theorem sp_transfer (s : Machine) (source target : Register) :
    (s.transfer source target).regs.sp =
      if target = .sp then s.get source else s.regs.sp := by
  cases target <;> rfl

@[simp] theorem sp_testBits (s : Machine) (byte : Byte) :
    (s.testBits byte).regs.sp = s.regs.sp := rfl

@[simp] theorem sp_add (s : Machine) (byte : Byte) :
    (s.add byte).regs.sp = s.regs.sp := by
  simp [add, sp_produce]

@[simp] theorem sp_subtract (s : Machine) (byte : Byte) :
    (s.subtract byte).regs.sp = s.regs.sp := by
  simp [subtract]

@[simp] theorem sp_compare (s : Machine) (r : Register) (byte : Byte) :
    (s.compare r byte).regs.sp = s.regs.sp := rfl

@[simp] theorem sp_change (s : Machine) (c : Change) (byte : Byte) :
    (s.change c byte).2.regs.sp = s.regs.sp := by
  cases c <;> rfl

@[simp] theorem sp_call (s : Machine) (target : Word) :
    (s.call target).regs.sp = s.regs.sp - 2 := by
  simp [call]

@[simp] theorem sp_returnFromCall (s : Machine) :
    s.returnFromCall.regs.sp = s.regs.sp + 2 := by
  change s.pullWord.2.regs.sp = _
  simp

@[simp] theorem sp_branch (s : Machine) (f : Flag) (value : Bool)
    (target : Word) : (s.branch f value target).regs.sp = s.regs.sp := by
  unfold branch
  split <;> rfl

@[simp] theorem sp_interrupt (s : Machine) :
    s.interrupt.regs.sp = s.regs.sp - 3 := by
  change s.regs.sp - 1 - 1 - 1 = _
  bv_omega

@[simp] theorem sp_returnFromInterrupt (s : Machine) :
    s.returnFromInterrupt.regs.sp = s.regs.sp + 3 := by
  change s.regs.sp + 1 + 1 + 1 = _
  bv_omega

end Cpu6502.Machine
