import Cpu6502.Proofs.Decoding
import Cpu6502.Proofs.Effect
import Cpu6502.Proofs.Machine

/-!
# What instructions write

The cells that an operation writes, each with the byte that it receives: the
cell of its operand, or the next free cells of the stack.  Memory after an
instruction is memory before it with these writes, and the stack pointer follows
the number of bytes that were pushed or pulled.
-/

namespace Cpu6502

namespace Memory

def writeAll (m : Memory) : List (Word × Byte) → Memory
  | [] => m
  | (address, byte) :: rest => (m.write address byte).writeAll rest

theorem read_writeAll_of_not_mem (m : Memory) {writes : List (Word × Byte)}
    {cell : Word} (h : cell ∉ writes.map Prod.fst) :
    (m.writeAll writes).read cell = m.read cell := by
  induction writes generalizing m with
  | nil => rfl
  | cons write rest ih =>
      simp only [List.map_cons, List.mem_cons, not_or] at h
      rw [writeAll, ih _ h.2, read_write_of_ne m _ h.1]

end Memory

namespace Operation

/-- By how many bytes the stack grows; pulled bytes count as negative. -/
def growth : Operation → Int
  | .push _ | .pushStatus => 1
  | .call => 2
  | .interrupt => 3
  | .pull _ | .pullStatus => -1
  | .returnFromCall => -2
  | .returnFromInterrupt => -3
  | _ => 0

theorem growth_le (op : Operation) : op.growth ≤ 3 := by
  cases op <;> simp [growth]

def target? : Operation → Option Register
  | .load r | .pull r | .adjust r _ | .transfer _ r => some r
  | .combine _ | .add | .subtract => some .a
  | _ => none

def stores : Operation → Bool
  | .store _ | .modify _ => true
  | _ => false

end Operation

namespace Machine

def pushedBytes (s : Machine) : Operation → List Byte
  | .push r => [s.get r]
  | .pushStatus => [s.regs.p.bits]
  | .call => [Word.high (s.regs.pc - 1), Word.low (s.regs.pc - 1)]
  | .interrupt =>
      [Word.high s.regs.pc, Word.low s.regs.pc,
        (s.regs.p.set .breakCommand true).bits]
  | _ => []

def storedByte? (s : Machine) (o : Operand) : Operation → Option Byte
  | .store r => some (s.get r)
  | .modify change => (o.read? s).map fun byte => (s.change change byte).1
  | _ => none

end Machine

/-- The cells that bytes get when they are pushed one after the other. -/
def stacked (sp : Byte) : List Byte → List (Word × Byte)
  | [] => []
  | byte :: bytes => (Word.stackPage sp, byte) :: stacked (sp - 1) bytes

def Machine.writes (s : Machine) (o : Operand) (op : Operation) :
    List (Word × Byte) :=
  (match o.address?, s.storedByte? o op with
    | some address, some byte => [(address, byte)]
    | _, _ => []) ++
  stacked s.regs.sp (s.pushedBytes op)

theorem length_pushedBytes (s : Machine) (op : Operation) :
    (s.pushedBytes op).length = op.growth.toNat := by
  cases op <;> rfl

theorem mem_stacked {sp : Byte} {bytes : List Byte} {cell : Word}
    (h : cell ∈ (stacked sp bytes).map Prod.fst) :
    ∃ k < bytes.length, cell = Word.stackPage (sp - BitVec.ofNat 8 k) := by
  induction bytes generalizing sp with
  | nil => simp [stacked] at h
  | cons byte bytes ih =>
      simp only [stacked, List.map_cons, List.mem_cons] at h
      rcases h with rfl | h
      · exact ⟨0, by simp, by simp⟩
      · obtain ⟨k, hk, rfl⟩ := ih h
        refine ⟨k + 1, by simpa using hk, ?_⟩
        congr 1
        bv_omega

theorem Word.stackPage_injective {offset offset' : Byte}
    (h : Word.stackPage offset = Word.stackPage offset') :
    offset = offset' := by
  have hlow := congrArg Word.low h
  simpa [Word.stackPage] using hlow

/-- Each pushed byte stays as long as the stack does not run into itself. -/
theorem Memory.read_writeAll_stacked (m : Memory) {sp : Byte}
    {bytes : List Byte} {k : Nat}
    {byte : Byte} (hlength : bytes.length ≤ 256) (h : bytes[k]? = some byte) :
    (m.writeAll (stacked sp bytes)).read
      (Word.stackPage (sp - BitVec.ofNat 8 k)) = byte := by
  induction bytes generalizing m sp k with
  | nil => simp at h
  | cons first rest ih =>
      rw [List.length_cons] at hlength
      cases k with
      | zero =>
          simp only [List.getElem?_cons_zero, Option.some.injEq] at h
          subst h
          rw [stacked, writeAll, read_writeAll_of_not_mem]
          · simp
          · intro hmem
            obtain ⟨k, hk, hcell⟩ := mem_stacked hmem
            have := Word.stackPage_injective hcell
            bv_omega
      | succ k =>
          rw [List.getElem?_cons_succ] at h
          have hsp : sp - BitVec.ofNat 8 (k + 1) =
              sp - 1 - BitVec.ofNat 8 k := by
            bv_omega
          rw [stacked, writeAll, hsp]
          exact ih _ (by omega) h

/-- A written cell is that of the operand or one that is pushed to. -/
theorem Machine.mem_writes {s : Machine} {o : Operand} {op : Operation}
    {cell : Word} (h : cell ∈ (s.writes o op).map Prod.fst) :
    (op.stores ∧ o = .cell cell) ∨
      ∃ k < op.growth.toNat,
      cell = Word.stackPage (s.regs.sp - BitVec.ofNat 8 k) := by
  simp only [writes, List.map_append, List.mem_append] at h
  rcases h with h | h
  · left
    cases o <;> cases op <;>
      simp_all [storedByte?, Operand.address?, Operand.read?, Operation.stores]
  · right
    rw [← length_pushedBytes s op]
    exact mem_stacked h

namespace Effect

variable {o : Operand} {s t : Machine} {op : Operation}

theorem memory_of_write? {byte : Byte} (h : o.write? s byte = some t) :
    t.memory = s.memory.writeAll (o.address?.toList.map (·, byte)) := by
  rcases Operand.write?_eq_some h with ⟨rfl, rfl⟩ | ⟨address, rfl, rfl⟩
  · rfl
  · rfl

theorem memory_eq (h : Effect o s op t) :
    t.memory = s.memory.writeAll (s.writes o op) := by
  cases h with
  | store stored =>
      rw [memory_of_write? stored]
      cases o <;> rfl
  | modify found stored =>
      rw [Machine.memory_recordResult, memory_of_write? stored,
        Machine.memory_change]
      cases o <;> simp_all [Machine.writes, Machine.storedByte?,
        Machine.pushedBytes, Operand.address?, Operand.read?, stacked]
  | push => cases o <;> rfl
  | pushStatus => cases o <;> rfl
  | call => cases o <;> rfl
  | interrupt => cases o <;> rfl
  | _ =>
      cases o <;>
        simp [Machine.writes, Machine.storedByte?, Machine.pushedBytes, stacked,
          Memory.writeAll, Operand.address?]

theorem read_pushed {k : Nat} {byte : Byte} (h : Effect o s op t)
    (hbyte : (s.pushedBytes op)[k]? = some byte) :
    t.read (Word.stackPage (s.regs.sp - BitVec.ofNat 8 k)) = byte := by
  have hwrites : s.writes o op = stacked s.regs.sp (s.pushedBytes op) := by
    cases op <;> simp_all [Machine.writes, Machine.storedByte?,
      Machine.pushedBytes]
  have hlength : (s.pushedBytes op).length ≤ 256 := by
    have hgrowth := op.growth_le
    rw [length_pushedBytes]
    omega
  rw [Machine.read, h.memory_eq, hwrites]
  exact Memory.read_writeAll_stacked _ hlength hbyte

theorem sp_of_write? {byte : Byte} (h : o.write? s byte = some t) :
    t.regs.sp = s.regs.sp := by
  rcases Operand.write?_eq_some h with ⟨rfl, rfl⟩ | ⟨address, rfl, rfl⟩
  · rfl
  · rfl

theorem sp_eq (h : Effect o s op t) (hop : op.target? ≠ some .sp) :
    t.regs.sp = s.regs.sp - BitVec.ofInt 8 op.growth := by
  cases h with
  | load | adjust =>
      simp only [Operation.target?, ne_eq, Option.some.injEq] at hop
      simp [Machine.sp_produce, hop, Operation.growth]
  | pull =>
      simp only [Operation.target?, ne_eq, Option.some.injEq] at hop
      simp only [Machine.sp_produce, if_neg hop, Machine.sp_pull,
        Operation.growth]
      bv_omega
  | pullStatus =>
      simp only [Machine.sp_setStatus, Machine.sp_pull, Operation.growth]
      bv_omega
  | returnFromCall =>
      simp only [Machine.sp_returnFromCall, Operation.growth]
      bv_omega
  | returnFromInterrupt =>
      simp only [Machine.sp_returnFromInterrupt, Operation.growth]
      bv_omega
  | transfer =>
      simp only [Operation.target?, ne_eq, Option.some.injEq] at hop
      simp [Machine.sp_transfer, hop, Operation.growth]
  | combine => simp [Machine.sp_produce, Operation.growth]
  | store stored => simp [sp_of_write? stored, Operation.growth]
  | modify found stored => simp [sp_of_write? stored, Operation.growth]
  | _ => simp [Operation.growth]

end Effect

theorem Mnemonic.target?_operation {m : Mnemonic} (h : m ≠ .txs) :
    m.operation.target? ≠ some .sp := by
  cases m <;> simp_all [operation, Operation.target?]

namespace Machine

variable {s : Machine} {i : Instruction}

/-- An instruction has its effect with the program counter behind it. -/
theorem effect_of_step (h : (Instruction.decode s.regs s.memory).1 = .ok i) :
    Effect i.operand
      { s with regs := s.regs.advance (BitVec.ofNat 16 i.encoding.length) }
      i.mnemonic.operation s.step.2 := by
  cases hdecode : Instruction.decode s.regs s.memory with
  | mk result next =>
      rw [hdecode] at h
      cases h
      have hok := step_fst_of_decode hdecode
      rw [step_of_decode hdecode,
        (Instruction.decodedFrom_of_decode hdecode).2] at hok ⊢
      exact Instruction.effect_of_execute (Prod.ext hok rfl)

theorem effect_of_lookup {e : Encoding}
    (h : Encoding.lookup (s.read s.regs.pc) = some e) :
    ∃ o, Effect o { s with regs := s.regs.advance (BitVec.ofNat 16 e.length) }
      e.mnemonic.operation s.step.2 := by
  obtain ⟨i, regs, hdecode⟩ := Instruction.decode_of_lookup_eq_some
    (r := s.regs) (m := s.memory) h
  have hencoding := (Instruction.decodedFrom_of_decode hdecode).1.encoding
  rw [← read, h, Option.some.injEq] at hencoding
  subst hencoding
  exact ⟨i.operand, effect_of_step (by rw [hdecode])⟩

theorem read_step {cell : Word}
    (h : (Instruction.decode s.regs s.memory).1 = .ok i)
    (hstores : i.mnemonic.operation.stores → i.operand ≠ .cell cell)
    (hpushes : ∀ k < i.mnemonic.operation.growth.toNat,
      cell ≠ Word.stackPage (s.regs.sp - BitVec.ofNat 8 k)) :
    s.step.2.read cell = s.read cell := by
  rw [read, (effect_of_step h).memory_eq]
  apply Memory.read_writeAll_of_not_mem
  intro hmem
  rcases mem_writes hmem with ⟨hstore, hcell⟩ | ⟨k, hk, hcell⟩
  · exact hstores hstore hcell
  · exact hpushes k hk hcell

theorem sp_step (h : (Instruction.decode s.regs s.memory).1 = .ok i)
    (hm : i.mnemonic ≠ .txs) :
    s.step.2.regs.sp = s.regs.sp - BitVec.ofInt 8 i.mnemonic.operation.growth :=
  (effect_of_step h).sp_eq (Mnemonic.target?_operation hm)

end Machine

end Cpu6502
