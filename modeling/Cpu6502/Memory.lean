import Cpu6502.Memory.Cells

/-!
# Memory

Every word is the address of one byte, all of them readable and writable.
Words are stored with the low byte first, and whatever runs past the last
address goes on at the first one.
-/

namespace Cpu6502

structure Memory where
  cells : Cells 16
  deriving DecidableEq

namespace Memory

def size : Nat := 0x10000

/-- The word here is the address that a software interrupt jumps to. -/
def interruptVector : Word := 0xFFFE

def zeroed : Memory := ⟨Cells.fill 0 16⟩

def read (m : Memory) (address : Word) : Byte :=
  m.cells.read address

def write (m : Memory) (address : Word) (byte : Byte) : Memory :=
  ⟨m.cells.write address byte⟩

def readWord (m : Memory) (address : Word) : Word :=
  Word.ofBytes (m.read address) (m.read (address + 1))

/-- A word kept in page zero: the address of its high byte stays in the page. -/
def readZeroPageWord (m : Memory) (offset : Byte) : Word :=
  Word.ofBytes (m.read (Word.zeroPage offset))
    (m.read (Word.zeroPage (offset + 1)))

def writeWord (m : Memory) (address : Word) (value : Word) : Memory :=
  (m.write address (Word.low value)).write (address + 1) (Word.high value)

def load (m : Memory) (address : Word) : List Byte → Memory
  | [] => m
  | byte :: bytes => (m.write address byte).load (address + 1) bytes

@[simp] theorem read_zeroed (address : Word) : zeroed.read address = 0 :=
  Cells.read_fill 0 address

theorem read_write (m : Memory) (address cell : Word) (byte : Byte) :
    (m.write address byte).read cell =
      if cell = address then byte else m.read cell :=
  Cells.read_write m.cells address cell byte

@[simp] theorem read_write_self (m : Memory) (address : Word) (byte : Byte) :
    (m.write address byte).read address = byte := by
  simp [read_write]

theorem read_write_of_ne (m : Memory) {address cell : Word} (byte : Byte)
    (h : cell ≠ address) : (m.write address byte).read cell = m.read cell := by
  simp [read_write, h]

theorem ext_read {m m' : Memory}
    (h : ∀ address, m.read address = m'.read address) : m = m' := by
  cases m
  cases m'
  exact congrArg mk (Cells.ext_read h)

end Memory

end Cpu6502
