import Cpu6502.Machine
import Cpu6502.Opcode.Mnemonic

/-!
# Operations

What the mnemonics ask for.  Mnemonics that do the same thing to different
registers or flags are one operation with a parameter.
-/

namespace Cpu6502

inductive Connective where
  | and
  | xor
  | or
  deriving DecidableEq, Repr

inductive Change where
  | increment
  | decrement
  | shiftLeft
  | shiftRight
  | rotateLeft
  | rotateRight
  deriving DecidableEq, Repr

inductive Operation where
  | load (target : Register)
  | store (source : Register)
  | transfer (source target : Register)
  | push (source : Register)
  | pushStatus
  | pull (target : Register)
  | pullStatus
  | combine (connective : Connective)
  | testBits
  | add
  | subtract
  | compare (register : Register)
  | modify (change : Change)
  | adjust (register : Register) (change : Change)
  | jump
  | call
  | returnFromCall
  | branch (flag : Flag) (value : Bool)
  | assign (flag : Flag) (value : Bool)
  | interrupt
  | idle
  | returnFromInterrupt
  deriving DecidableEq, Repr

def Mnemonic.operation : Mnemonic → Operation
  | .lda => .load .a
  | .ldx => .load .x
  | .ldy => .load .y
  | .sta => .store .a
  | .stx => .store .x
  | .sty => .store .y
  | .tax => .transfer .a .x
  | .tay => .transfer .a .y
  | .txa => .transfer .x .a
  | .tya => .transfer .y .a
  | .tsx => .transfer .sp .x
  | .txs => .transfer .x .sp
  | .pha => .push .a
  | .php => .pushStatus
  | .pla => .pull .a
  | .plp => .pullStatus
  | .and => .combine .and
  | .eor => .combine .xor
  | .ora => .combine .or
  | .bit => .testBits
  | .adc => .add
  | .sbc => .subtract
  | .cmp => .compare .a
  | .cpx => .compare .x
  | .cpy => .compare .y
  | .inc => .modify .increment
  | .inx => .adjust .x .increment
  | .iny => .adjust .y .increment
  | .dec => .modify .decrement
  | .dex => .adjust .x .decrement
  | .dey => .adjust .y .decrement
  | .asl => .modify .shiftLeft
  | .lsr => .modify .shiftRight
  | .rol => .modify .rotateLeft
  | .ror => .modify .rotateRight
  | .jmp => .jump
  | .jsr => .call
  | .rts => .returnFromCall
  | .bcc => .branch .carry false
  | .bcs => .branch .carry true
  | .beq => .branch .zero true
  | .bmi => .branch .negative true
  | .bne => .branch .zero false
  | .bpl => .branch .negative false
  | .bvc => .branch .overflow false
  | .bvs => .branch .overflow true
  | .clc => .assign .carry false
  | .cld => .assign .decimal false
  | .cli => .assign .interruptDisable false
  | .clv => .assign .overflow false
  | .sec => .assign .carry true
  | .sed => .assign .decimal true
  | .sei => .assign .interruptDisable true
  | .brk => .interrupt
  | .nop => .idle
  | .rti => .returnFromInterrupt

namespace Connective

def apply : Connective → Byte → Byte → Byte
  | .and, x, y => x &&& y
  | .xor, x, y => x ^^^ y
  | .or, x, y => x ||| y

end Connective

namespace Change

/-- The changed byte, where `carry` is the bit that a rotation takes in. -/
def result (change : Change) (carry : Bool) (byte : Byte) : Byte :=
  match change with
  | .increment => byte + 1
  | .decrement => byte - 1
  | .shiftLeft => (byte.concat false).setWidth 8
  | .shiftRight => (BitVec.cons false byte).extractLsb' 1 8
  | .rotateLeft => (byte.concat carry).setWidth 8
  | .rotateRight => (BitVec.cons carry byte).extractLsb' 1 8

/-- The bit that falls out; increments and decrements have none. -/
def carryOut? (change : Change) (byte : Byte) : Option Bool :=
  match change with
  | .increment | .decrement => none
  | .shiftLeft | .rotateLeft => some byte.msb
  | .shiftRight | .rotateRight => some (byte.getLsbD 0)

end Change

namespace Machine

def produce (s : Machine) (r : Register) (byte : Byte) : Machine :=
  (s.set r byte).recordResult byte

/-- A byte moved into the stack pointer is no result. -/
def transfer (s : Machine) (source target : Register) : Machine :=
  match target with
  | .sp => s.set .sp (s.get source)
  | .a | .x | .y => s.produce target (s.get source)

def testBits (s : Machine) (byte : Byte) : Machine :=
  (s.recordResult (s.regs.a &&& byte)).setFlag .overflow (byte.getLsbD 6)

def add (s : Machine) (byte : Byte) : Machine :=
  let total := s.regs.a.toNat + byte.toNat + (s.regs.p.get .carry).toNat
  let sum := BitVec.ofNat 8 total
  let s' := s.setFlag .carry (256 ≤ total)
  (s'.setFlag .overflow (Byte.signedOverflow s.regs.a byte sum)).produce .a sum

/-- Subtraction adds the complement: the carry is the borrow inverted. -/
def subtract (s : Machine) (byte : Byte) : Machine :=
  s.add (~~~byte)

def compare (s : Machine) (r : Register) (byte : Byte) : Machine :=
  (s.recordResult (s.get r - byte)).setFlag .carry (byte ≤ s.get r)

/-- The changed byte and the machine with the bit that fell out in its carry. -/
def change (s : Machine) (c : Change) (byte : Byte) : Byte × Machine :=
  let result := c.result (s.regs.p.get .carry) byte
  match c.carryOut? byte with
  | none => (result, s)
  | some carry => (result, s.setFlag .carry carry)

/-- The pushed address is that of the last byte of the call. -/
def call (s : Machine) (target : Word) : Machine :=
  (s.pushWord (s.regs.pc - 1)).goto target

def returnFromCall (s : Machine) : Machine :=
  let (address, s) := s.pullWord
  s.goto (address + 1)

def branch (s : Machine) (f : Flag) (value : Bool) (target : Word) : Machine :=
  if s.regs.p.get f = value then s.goto target else s

def interrupt (s : Machine) : Machine :=
  let s := s.setFlag .breakCommand true
  let s := (s.pushWord s.regs.pc).push s.regs.p.bits
  s.goto (s.memory.readWord Memory.interruptVector)

def returnFromInterrupt (s : Machine) : Machine :=
  let (bits, s) := s.pull
  let (address, s) := ((s.setStatus bits).setFlag .breakCommand false).pullWord
  s.goto (address + 1)

end Machine

end Cpu6502
