import Cpu6502.Memory
import Cpu6502.Status

/-!
# Registers

The program counter, the four byte registers and the status byte.  Fetching
reads at the program counter and moves it past what was read.
-/

namespace Cpu6502

inductive Register where
  | a
  | x
  | y
  | sp
  deriving DecidableEq, Repr

structure Registers where
  pc : Word
  sp : Byte
  a : Byte
  x : Byte
  y : Byte
  p : Status
  deriving DecidableEq, Repr

namespace Registers

def powerOn : Registers where
  pc := 0
  sp := 0xFD
  a := 0
  x := 0
  y := 0
  p := .powerOn

def get (r : Registers) : Register → Byte
  | .a => r.a
  | .x => r.x
  | .y => r.y
  | .sp => r.sp

def set (r : Registers) (name : Register) (byte : Byte) : Registers :=
  match name with
  | .a => { r with a := byte }
  | .x => { r with x := byte }
  | .y => { r with y := byte }
  | .sp => { r with sp := byte }

def setFlag (r : Registers) (f : Flag) (value : Bool) : Registers :=
  { r with p := r.p.set f value }

def recordResult (r : Registers) (byte : Byte) : Registers :=
  { r with p := r.p.recordResult byte }

def advance (r : Registers) (n : Word) : Registers :=
  { r with pc := r.pc + n }

def fetch (r : Registers) (m : Memory) : Byte × Registers :=
  (m.read r.pc, r.advance 1)

def fetchWord (r : Registers) (m : Memory) : Word × Registers :=
  (m.readWord r.pc, r.advance 2)

theorem get_set (r : Registers) (name other : Register) (byte : Byte) :
    (r.set name byte).get other =
      if other = name then byte else r.get other := by
  cases name <;> cases other <;> rfl

end Registers

end Cpu6502
