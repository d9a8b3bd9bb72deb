import Cpu6502.Instruction
import Cpu6502.Instruction.Operation

/-!
# Execution

An instruction is executed on a machine whose program counter is already behind
it.  An operation that needs an operand fails where the instruction has none.
-/

namespace Cpu6502

namespace Instruction

def missingOperand (i : Instruction) : Fault :=
  .missingOperand i.mnemonic i.mode

def withByte (i : Instruction) (s : Machine) (next : Byte → Machine) :
    Except Fault Unit × Machine :=
  match i.operand.read? s with
  | none => (.error i.missingOperand, s)
  | some byte => (.ok (), next byte)

def withAddress (i : Instruction) (s : Machine) (next : Word → Machine) :
    Except Fault Unit × Machine :=
  match i.operand.address? with
  | none => (.error i.missingOperand, s)
  | some address => (.ok (), next address)

def store (i : Instruction) (s : Machine) (byte : Byte) :
    Except Fault Unit × Machine :=
  match i.operand.write? s byte with
  | none => (.error i.missingOperand, s)
  | some s' => (.ok (), s')

def modify (i : Instruction) (s : Machine) (change : Change) :
    Except Fault Unit × Machine :=
  match i.operand.read? s with
  | none => (.error i.missingOperand, s)
  | some byte =>
      let (result, s') := s.change change byte
      match i.store s' result with
      | (.error fault, s'') => (.error fault, s'')
      | (.ok (), s'') => (.ok (), s''.recordResult result)

def execute (i : Instruction) (s : Machine) : Except Fault Unit × Machine :=
  match i.mnemonic.operation with
  | .load r => i.withByte s fun byte => s.produce r byte
  | .store r => i.store s (s.get r)
  | .transfer source target => (.ok (), s.transfer source target)
  | .push r => (.ok (), s.push (s.get r))
  | .pushStatus => (.ok (), s.push s.regs.p.bits)
  | .pull r =>
      let (byte, s) := s.pull
      (.ok (), s.produce r byte)
  | .pullStatus =>
      let (bits, s) := s.pull
      (.ok (), s.setStatus bits)
  | .combine c => i.withByte s fun byte => s.produce .a (c.apply s.regs.a byte)
  | .testBits => i.withByte s s.testBits
  | .add => i.withByte s s.add
  | .subtract => i.withByte s s.subtract
  | .compare r => i.withByte s (s.compare r)
  | .modify change => i.modify s change
  | .adjust r change =>
      let (byte, s) := s.change change (s.get r)
      (.ok (), s.produce r byte)
  | .jump => i.withAddress s s.goto
  | .call => i.withAddress s s.call
  | .returnFromCall => (.ok (), s.returnFromCall)
  | .branch f value => i.withAddress s (s.branch f value)
  | .assign f value => (.ok (), s.setFlag f value)
  | .interrupt => (.ok (), s.interrupt)
  | .idle => (.ok (), s)
  | .returnFromInterrupt => (.ok (), s.returnFromInterrupt)

end Instruction

namespace Machine

def step (s : Machine) : Except Fault Unit × Machine :=
  match Instruction.decode s.regs s.memory with
  | (.error fault, regs) => (.error fault, { s with regs })
  | (.ok i, regs) => i.execute { s with regs }

end Machine

end Cpu6502
