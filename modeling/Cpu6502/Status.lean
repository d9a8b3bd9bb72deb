import Cpu6502.Word

/-!
# The status byte

Eight flags in one byte.  The byte is pushed and pulled as a whole, and each
instruction sets or clears the flags it is about, one at a time.  The bit
`unused` belongs to no instruction, and `decimal` is kept but has no effect on
arithmetic.
-/

namespace Cpu6502

inductive Flag where
  | carry
  | zero
  | interruptDisable
  | decimal
  | breakCommand
  | unused
  | overflow
  | negative
  deriving DecidableEq, Repr

namespace Flag

def all : List Flag :=
  [carry, zero, interruptDisable, decimal, breakCommand, unused,
    overflow, negative]

def bit : Flag → Nat
  | .carry => 0
  | .zero => 1
  | .interruptDisable => 2
  | .decimal => 3
  | .breakCommand => 4
  | .unused => 5
  | .overflow => 6
  | .negative => 7

def mask (f : Flag) : Byte := 1 <<< f.bit

end Flag

structure Status where
  bits : Byte
  deriving DecidableEq, Repr

namespace Status

def powerOn : Status := ⟨0x24⟩

def get (s : Status) (f : Flag) : Bool :=
  s.bits.getLsbD f.bit

def set (s : Status) (f : Flag) (value : Bool) : Status :=
  ⟨if value then s.bits ||| f.mask else s.bits &&& ~~~f.mask⟩

/-- The zero and negative flags as a freshly produced byte leaves them. -/
def recordResult (s : Status) (byte : Byte) : Status :=
  (s.set .zero (byte == 0)).set .negative byte.msb

theorem get_set (s : Status) (f g : Flag) (value : Bool) :
    (s.set f value).get g = if g = f then value else s.get g := by
  cases value <;> cases f <;> cases g <;>
    simp [get, set, Flag.bit, Flag.mask]

theorem ext_get {s t : Status} (h : ∀ f, s.get f = t.get f) : s = t := by
  obtain ⟨b⟩ := s
  obtain ⟨c⟩ := t
  congr 1
  apply BitVec.eq_of_getLsbD_eq
  intro i hi
  have hf : ∃ f : Flag, f.bit = i := by
    match i, hi with
    | 0, _ => exact ⟨.carry, rfl⟩
    | 1, _ => exact ⟨.zero, rfl⟩
    | 2, _ => exact ⟨.interruptDisable, rfl⟩
    | 3, _ => exact ⟨.decimal, rfl⟩
    | 4, _ => exact ⟨.breakCommand, rfl⟩
    | 5, _ => exact ⟨.unused, rfl⟩
    | 6, _ => exact ⟨.overflow, rfl⟩
    | 7, _ => exact ⟨.negative, rfl⟩
  obtain ⟨f, rfl⟩ := hf
  exact h f

theorem set_set (s : Status) (f : Flag) (v w : Bool) :
    (s.set f v).set f w = s.set f w := by
  apply ext_get
  intro g
  simp only [get_set]
  split <;> rfl

end Status

end Cpu6502
