import Cpu6502.Proofs.Unchanged

/-!
# Branches

A branch goes to an address that is counted from behind it, forwards or
backwards, if its flag is right, and goes on behind it otherwise.  Targets wrap
at both ends of memory.
-/

namespace Cpu6502

def Mnemonic.branching : List Mnemonic :=
  [.bcc, .bcs, .beq, .bmi, .bne, .bpl, .bvc, .bvs]

/-- The address that a branch at the program counter may lead to. -/
def Registers.branchTarget (r : Registers) (m : Memory) : Word :=
  BitVec.ofInt 16 (r.pc.toNat + 2 + signedByte (m.byteAt (r.pc.toNat + 1)))

theorem Mnemonic.branches_operation (m : Mnemonic) :
    m.operation.branches = true ↔ m ∈ branching := by
  cases m <;> decide

theorem Mnemonic.exists_branch {m : Mnemonic} (h : m ∈ branching) :
    ∃ f value, m.operation = .branch f value ∧
      ∀ p, m.taken p = (p.get f == value) := by
  obtain ⟨f, value, hop⟩ :=
    Operation.eq_branch_of_branches (m.branches_operation.mpr h)
  exact ⟨f, value, hop, taken_of_branch hop⟩

theorem Encoding.mode_eq_relative {e : Encoding} (h : e ∈ documented)
    (hbranching : e.mnemonic ∈ Mnemonic.branching) : e.mode = .relative :=
  (mode_of_mem_documented e h).1.mpr
    (e.mnemonic.branches_operation.mpr hbranching)

theorem Encoding.length_eq_two {e : Encoding} (h : e.mode = .relative) :
    e.length = 2 := by
  rw [length, h]
  rfl

theorem Mode.operand_eq_branchTarget {mode : Mode} (h : mode = .relative)
    (r : Registers)
    (m : Memory) : mode.operand r m = .cell (r.branchTarget m) := by
  rw [h]
  rfl

theorem Instruction.execute_of_branch {i : Instruction} {f : Flag}
    {value : Bool} {target : Word}
    (hop : i.mnemonic.operation = .branch f value)
    (htarget : i.operand = .cell target)
    (s : Machine) : i.execute s = (.ok (), s.branch f value target) := by
  simp only [execute, hop, withAddress, htarget, Operand.address?]

theorem Machine.pc_step_of_branching {s : Machine} {e : Encoding}
    (h : Encoding.lookup (s.read s.regs.pc) = some e)
    (hbranching : e.mnemonic ∈ Mnemonic.branching) :
    s.step.2.regs.pc =
      if e.mnemonic.taken s.regs.p then s.regs.branchTarget s.memory
        else s.regs.pc + 2 := by
  obtain ⟨f, value, hop, htaken⟩ := Mnemonic.exists_branch hbranching
  have hmode := Encoding.mode_eq_relative (Encoding.mem_of_lookup h) hbranching
  have hbehind : (s.behind e).regs.pc = s.regs.pc + 2 := by
    rw [behind, Encoding.length_eq_two hmode]
    rfl
  rw [pc_step h, hop, successor, Mode.operand_eq_branchTarget hmode,
    hbehind, htaken]
  simp only [beq_iff_eq]
  rfl

end Cpu6502
