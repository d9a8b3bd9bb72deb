import Cpu6502.Registers

/-!
# Machines

A machine is a register file and a memory.  Its stack lies in page one and
grows downwards: the stack pointer names the next free cell and wraps within
the page.  Words are pushed high byte first, so that they lie in memory in the
usual order.
-/

namespace Cpu6502

structure Machine where
  regs : Registers
  memory : Memory
  deriving DecidableEq

namespace Machine

def powerOn : Machine := ⟨.powerOn, .zeroed⟩

def read (s : Machine) (address : Word) : Byte :=
  s.memory.read address

def write (s : Machine) (address : Word) (byte : Byte) : Machine :=
  { s with memory := s.memory.write address byte }

def load (s : Machine) (address : Word) (bytes : List Byte) : Machine :=
  { s with memory := s.memory.load address bytes }

def get (s : Machine) (r : Register) : Byte :=
  s.regs.get r

def set (s : Machine) (r : Register) (byte : Byte) : Machine :=
  { s with regs := s.regs.set r byte }

def setFlag (s : Machine) (f : Flag) (value : Bool) : Machine :=
  { s with regs := s.regs.setFlag f value }

def setStatus (s : Machine) (bits : Byte) : Machine :=
  { s with regs.p.bits := bits }

def recordResult (s : Machine) (byte : Byte) : Machine :=
  { s with regs := s.regs.recordResult byte }

def goto (s : Machine) (address : Word) : Machine :=
  { s with regs.pc := address }

def push (s : Machine) (byte : Byte) : Machine :=
  (s.write (Word.stackPage s.regs.sp) byte).set .sp (s.regs.sp - 1)

def pull (s : Machine) : Byte × Machine :=
  let sp := s.regs.sp + 1
  (s.read (Word.stackPage sp), s.set .sp sp)

def pushWord (s : Machine) (value : Word) : Machine :=
  (s.push (Word.high value)).push (Word.low value)

def pullWord (s : Machine) : Word × Machine :=
  let (low, s) := s.pull
  let (high, s) := s.pull
  (Word.ofBytes low high, s)

end Machine

end Cpu6502
