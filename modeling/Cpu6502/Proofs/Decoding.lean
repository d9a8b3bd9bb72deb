import Cpu6502.Proofs.Demand

/-!
# Decoding and single steps

Decoding succeeds exactly on documented opcodes, and moves the program counter
behind the instruction without touching any other register.  The operand it
finds is one that the instruction can be executed with, so a step fails only
where decoding does.
-/

namespace Cpu6502

theorem Mode.resolve_snd (mode : Mode) (r : Registers) (m : Memory) :
    (mode.resolve r m).2 = r.advance (BitVec.ofNat 16 mode.operandLength) := by
  cases mode <;> simp [resolve, Registers.fetch, Registers.fetchWord,
    Registers.advance, operandLength]

theorem Registers.advance_advance (r : Registers) (m n : Word) :
    (r.advance m).advance n = r.advance (m + n) := by
  simp [advance, BitVec.add_assoc]

namespace Instruction

variable {r next : Registers} {m : Memory} {i : Instruction}

theorem decode_of_lookup_eq_none (h : Encoding.lookup (m.read r.pc) = none) :
    decode r m = (.error (.unknownOpcode (m.read r.pc) r.pc), r.advance 1) := by
  simp [decode, Registers.fetch, h]

structure DecodedFrom (i : Instruction) (r : Registers) (m : Memory) :
    Prop where
  address : i.address = r.pc
  encoding : Encoding.lookup (m.read r.pc) = some i.encoding
  operand : i.operand = (i.mode.resolve (r.advance 1) m).1

theorem decode_of_lookup_eq_some {e : Encoding}
    (h : Encoding.lookup (m.read r.pc) = some e) :
    ∃ i next, decode r m = (.ok i, next) := by
  simp [decode, Registers.fetch, h]

theorem decodedFrom_of_decode (h : decode r m = (.ok i, next)) :
    i.DecodedFrom r m ∧
      next = r.advance (BitVec.ofNat 16 i.encoding.length) := by
  cases hlookup : Encoding.lookup (m.read r.pc) with
  | none => simp [decode_of_lookup_eq_none hlookup] at h
  | some e =>
      simp only [decode, Registers.fetch, hlookup, Mode.resolve_snd,
        Registers.advance_advance, Prod.mk.injEq, Except.ok.injEq] at h
      obtain ⟨rfl, rfl⟩ := h
      refine ⟨⟨rfl, hlookup, rfl⟩, ?_⟩
      rw [Encoding.length, BitVec.ofNat_add]
      rfl

theorem lookup_opcode_of_decode (h : decode r m = (.ok i, next)) :
    Encoding.lookup i.opcode = some i.encoding := by
  have hlookup := (decodedFrom_of_decode h).1.encoding
  have hopcode : i.opcode = m.read r.pc := by
    simp only [decode, Registers.fetch, hlookup, Prod.mk.injEq,
      Except.ok.injEq] at h
    rw [← h.1]
  rw [hopcode, hlookup]

/-- A decoded instruction has an operand that it can be executed with. -/
theorem DecodedFrom.meets (h : i.DecodedFrom r m) :
    i.operand.meets i.mnemonic.operation.demand := by
  rw [h.operand]
  exact Mode.meets_resolve _ m
    (Encoding.supplies_of_mem_documented i.encoding
      (Encoding.mem_of_lookup h.encoding))

end Instruction

namespace Machine

variable {s : Machine} {i : Instruction} {regs : Registers}

theorem step_of_decode
    (h : Instruction.decode s.regs s.memory = (.ok i, regs)) :
    s.step = i.execute { s with regs } := by
  simp [step, h]

theorem step_of_lookup_eq_none (h : Encoding.lookup (s.read s.regs.pc) = none) :
    s.step = (.error (.unknownOpcode (s.read s.regs.pc) s.regs.pc),
      { s with regs := s.regs.advance 1 }) := by
  have hdecode :=
    Instruction.decode_of_lookup_eq_none (r := s.regs) (m := s.memory) h
  simp [step, hdecode, read]

theorem step_fst_of_decode
    (h : Instruction.decode s.regs s.memory = (.ok i, regs)) :
    s.step.1 = .ok () := by
  rw [step_of_decode h]
  exact Instruction.execute_of_meets i _
    (Instruction.decodedFrom_of_decode h).1.meets

theorem decode_of_step {t : Machine} (h : s.step = (.ok (), t)) :
    ∃ i, (Instruction.decode s.regs s.memory).1 = .ok i := by
  cases hdecode : Instruction.decode s.regs s.memory with
  | mk result next =>
      cases result with
      | error fault => simp [step, hdecode] at h
      | ok i => exact ⟨i, rfl⟩

theorem step_fst_of_lookup_eq_some {e : Encoding}
    (h : Encoding.lookup (s.read s.regs.pc) = some e) : s.step.1 = .ok () := by
  obtain ⟨i, regs, hdecode⟩ :=
    Instruction.decode_of_lookup_eq_some (r := s.regs) (m := s.memory) h
  exact step_fst_of_decode hdecode

end Machine

end Cpu6502
