import Cpu6502.Proofs.Locality

/-!
# Written instructions

An instruction as a program has it: a row of the opcode table with the bytes
that follow the opcode.  It can be carried out for itself, since its own bytes
and the machine tell where its operand is.  Where its bytes lie at the program
counter, the next step does just that.
-/

namespace Cpu6502

namespace Mode

/-- The operand of an instruction, by the bytes behind its opcode. -/
def locate (mode : Mode) (first second : Byte) (r : Registers) (m : Memory) :
    Operand :=
  match mode with
  | .implicit => .absent
  | .accumulator => .accumulator
  | .immediate => .cell (r.pc + 1)
  | .zeroPage => .cell (Word.zeroPage first)
  | .zeroPageX => .cell (Word.zeroPage (first + r.x))
  | .zeroPageY => .cell (Word.zeroPage (first + r.y))
  | .relative => .cell (Word.displace (r.pc + 2) first)
  | .absolute => .cell (Word.ofBytes first second)
  | .absoluteX => .cell (Word.ofBytes first second + r.x.setWidth 16)
  | .absoluteY => .cell (Word.ofBytes first second + r.y.setWidth 16)
  | .indirect => .cell (m.readWord (Word.ofBytes first second))
  | .indexedIndirect => .cell (m.readZeroPageWord (first + r.x))
  | .indirectIndexed => .cell (m.readZeroPageWord first + r.y.setWidth 16)

theorem resolve_eq_locate (mode : Mode) (r : Registers) (m : Memory) :
    (mode.resolve (r.advance 1) m).1 =
      mode.locate (m.read (r.pc + 1)) (m.read (r.pc + 2)) r m := by
  have hnext : r.pc + 1 + 1 = r.pc + 2 := by bv_omega
  cases mode <;>
    simp only [resolve, locate, Registers.advance, Registers.fetch,
      Registers.fetchWord, Memory.readWord, hnext]

/-- Bytes that the mode does not use make no difference. -/
theorem locate_congr {mode : Mode} {first second first' second' : Byte}
    (r : Registers)
    (m : Memory) (hfirst : 1 ≤ mode.operandLength → first = first')
    (hsecond : mode.operandLength = 2 → second = second') :
    mode.locate first second r m = mode.locate first' second' r m := by
  cases mode <;> simp_all [locate, operandLength]

theorem meets_locate {mode : Mode} {demand : Demand} (first second : Byte)
    (r : Registers) (m : Memory) (h : mode.supplies demand) :
    (mode.locate first second r m).meets demand := by
  cases mode with
  | implicit => exact h
  | accumulator => exact h
  | _ => exact Operand.meets_cell _ demand

end Mode

structure Statement where
  encoding : Encoding
  operand : List Byte
  documented : Encoding.lookup encoding.byte = some encoding
  length_operand : operand.length = encoding.mode.operandLength

namespace Statement

/-- A statement that is an opcode alone. -/
def implied (byte : Byte) (mnemonic : Mnemonic)
    (documented : Encoding.lookup byte = some ⟨byte, mnemonic, .implicit⟩) :
    Statement where
  encoding := ⟨byte, mnemonic, .implicit⟩
  operand := []
  documented := documented
  length_operand := rfl

def mnemonic (st : Statement) : Mnemonic :=
  st.encoding.mnemonic

def bytes (st : Statement) : List Byte :=
  st.encoding.byte :: st.operand

def code (sts : List Statement) : List Byte :=
  sts.flatMap bytes

/-- The instruction that the statement is at the program counter. -/
def instruction (st : Statement) (r : Registers) (m : Memory) :
    Instruction where
  address := r.pc
  encoding := st.encoding
  operand :=
    st.encoding.mode.locate (st.operand.getD 0 0) (st.operand.getD 1 0) r m
  opcode := st.encoding.byte
  first := st.operand.getD 0 0
  second := st.operand.getD 1 0

/-- The machine when the statement is carried out where it is. -/
def perform (st : Statement) (s : Machine) : Machine :=
  ((st.instruction s.regs s.memory).execute (s.behind st.encoding)).2

/-- Statements carried out one after the other. -/
def performAll (sts : List Statement) (s : Machine) : Machine :=
  sts.foldl (fun s st => st.perform s) s

variable (st : Statement) (sts : List Statement) (s : Machine)

theorem length_bytes : st.bytes.length = st.encoding.length := by
  rw [bytes, List.length_cons, st.length_operand, Encoding.length, Nat.add_comm]

@[simp] theorem code_nil : code [] = [] := rfl

@[simp] theorem code_cons : code (st :: sts) = st.bytes ++ code sts := rfl

@[simp] theorem code_append (sts' : List Statement) :
    code (sts ++ sts') = code sts ++ code sts' :=
  List.flatMap_append

@[simp] theorem performAll_nil : performAll [] s = s := rfl

@[simp] theorem performAll_cons :
    performAll (st :: sts) s = performAll sts (st.perform s) := rfl

theorem performAll_append (sts' : List Statement) :
    performAll (sts ++ sts') s = performAll sts' (performAll sts s) :=
  List.foldl_append

theorem meets_instruction : (st.instruction s.regs s.memory).operand.meets
    st.mnemonic.operation.demand :=
  Mode.meets_locate _ _ _ _ (Encoding.supplies_of_mem_documented st.encoding
    (Encoding.mem_of_lookup st.documented))

/-- What a statement does is the effect of its mnemonic on its operand. -/
theorem effect_perform :
    Effect (st.instruction s.regs s.memory).operand (s.behind st.encoding)
      st.mnemonic.operation (st.perform s) :=
  Instruction.effect_of_execute
    (Prod.ext (Instruction.execute_of_meets _ _ (st.meets_instruction s)) rfl)

theorem pc_perform (hleaves : st.mnemonic.operation.leaves = false)
    (hbranches : st.mnemonic.operation.branches = false) :
    (st.perform s).regs.pc = s.regs.pc + BitVec.ofNat 16 st.bytes.length := by
  rw [(st.effect_perform s).pc_eq,
    Machine.successor_of_sequential hleaves hbranches, st.length_bytes]
  rfl

variable {st s}

/-- The bytes of an instruction that is held, as decoding copies them. -/
theorem read_of_holds (h : s.memory.Holds s.regs.pc st.bytes) (k : Nat) :
    (if k < st.encoding.length then
        s.memory.read (s.regs.pc + BitVec.ofNat 16 k) else 0) =
      st.bytes.getD k 0 := by
  rw [← st.length_bytes]
  split
  next hk =>
    rw [h.read (List.getElem?_eq_getElem hk), List.getD_eq_getElem?_getD,
      List.getElem?_eq_getElem hk, Option.getD_some]
  next hk =>
    rw [List.getD_eq_getElem?_getD, List.getElem?_eq_none (Nat.not_lt.mp hk),
      Option.getD_none]

theorem opcode_of_holds (h : s.memory.Holds s.regs.pc st.bytes) :
    s.memory.read s.regs.pc = st.encoding.byte := by
  have hopcode := h.read (k := 0) rfl
  rwa [BitVec.add_zero] at hopcode

theorem locate_of_holds (h : s.memory.Holds s.regs.pc st.bytes) :
    (st.encoding.mode.resolve (s.regs.advance 1) s.memory).1 =
      (st.instruction s.regs s.memory).operand := by
  rw [Mode.resolve_eq_locate]
  apply Mode.locate_congr
  · intro hlength
    exact (if_pos (by unfold Encoding.length; omega)).symm.trans
      (read_of_holds h 1)
  · intro hlength
    exact (if_pos (by unfold Encoding.length; omega)).symm.trans
      (read_of_holds h 2)

theorem decode_of_holds (h : s.memory.Holds s.regs.pc st.bytes) :
    Instruction.decode s.regs s.memory =
      (.ok (st.instruction s.regs s.memory),
        s.regs.advance (BitVec.ofNat 16 st.encoding.length)) := by
  have hlength : 1 + BitVec.ofNat 16 st.encoding.mode.operandLength =
      BitVec.ofNat 16 st.encoding.length := by
    rw [Encoding.length, BitVec.ofNat_add]
    rfl
  simp only [Instruction.decode, Registers.fetch, opcode_of_holds h,
    st.documented, Mode.resolve_snd, Registers.advance_advance,
    locate_of_holds h, read_of_holds h, hlength]
  rfl

theorem step_of_holds (h : s.memory.Holds s.regs.pc st.bytes) :
    s.step = (.ok (), st.perform s) := by
  rw [Machine.step_of_decode (decode_of_holds h)]
  exact Prod.ext (Instruction.execute_of_meets _ _ (st.meets_instruction s)) rfl

end Statement

end Cpu6502
