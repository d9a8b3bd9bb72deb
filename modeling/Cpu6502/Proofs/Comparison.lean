import Cpu6502.Proofs.Branch
import Cpu6502.Proofs.Shift

/-!
# Comparisons

A comparison of a register with a byte leaves nothing behind but three flags.
They are those of a subtraction that begins with the carry set, although they
are found in another way, and the branches behind a comparison read off them how
the two bytes, as numbers without a sign, are ordered.
-/

namespace Cpu6502

/-- The flags by which a comparison tells what it found. -/
structure Status.Compares (p : Status) (left right : Byte) : Prop where
  carry : p.get .carry = decide (right.toNat ≤ left.toNat)
  zero : p.get .zero = decide (left = right)
  negative : p.get .negative = (left - right).msb

/-- What a branch behind a comparison asks of the bytes. -/
def Mnemonic.asks (m : Mnemonic) (left right : Byte) : Bool :=
  match m with
  | .bcs => right.toNat ≤ left.toNat
  | .bcc => left.toNat < right.toNat
  | .beq => left = right
  | .bne => left ≠ right
  | _ => false

/-- The branches that read a comparison of numbers without a sign. -/
def Mnemonic.asking : List Mnemonic :=
  [.bcs, .bcc, .beq, .bne]

theorem Mnemonic.branching_of_asking {m : Mnemonic} (h : m ∈ asking) :
    m ∈ branching := by
  revert h
  cases m <;> decide

theorem Byte.sub_beq_zero (left right : Byte) :
    (left - right == 0) = decide (left = right) := by
  rw [Bool.eq_iff_iff, beq_iff_eq, decide_eq_true_eq]
  constructor
  · intro h
    bv_omega
  · rintro rfl
    exact BitVec.sub_self left

namespace Status.Compares

variable {p q : Status} {left right : Byte}

theorem get_eq (h : p.Compares left right)
    (h' : q.Compares left right) {f : Flag}
    (hf : f ∈ [Flag.carry, .zero, .negative]) : p.get f = q.get f := by
  simp only [List.mem_cons, List.not_mem_nil, or_false] at hf
  rcases hf with rfl | rfl | rfl
  · rw [h.carry, h'.carry]
  · rw [h.zero, h'.zero]
  · rw [h.negative, h'.negative]

theorem taken_eq_asks (h : p.Compares left right) {m : Mnemonic}
    (hm : m ∈ Mnemonic.asking) : m.taken p = m.asks left right := by
  simp only [Mnemonic.asking, List.mem_cons, List.not_mem_nil, or_false] at hm
  rcases hm with rfl | rfl | rfl | rfl
  · exact h.carry
  · rw [Mnemonic.taken, h.carry, Mnemonic.asks, ← decide_not,
      decide_eq_decide, Nat.not_le]
  · exact h.zero
  · rw [Mnemonic.taken, h.zero, Mnemonic.asks, ← decide_not]

end Status.Compares

namespace Machine

variable (s : Machine)

/-- The second machine is the first with the flags of a comparison. -/
structure Compared (left right : Byte) (s t : Machine) : Prop where
  memory : t.memory = s.memory
  register : ∀ r, t.get r = s.get r
  flag : ∀ f ∉ [Flag.carry, .zero, .negative], t.regs.p.get f = s.regs.p.get f
  compares : t.regs.p.Compares left right

theorem compares_compare (r : Register) (byte : Byte) :
    (s.compare r byte).regs.p.Compares (s.get r) byte := by
  constructor <;> rw [p_compare, Status.get_set]
  · rfl
  · exact (Status.get_recordResult ..).trans (Byte.sub_beq_zero ..)
  · exact Status.get_recordResult ..

theorem compared_compare (r : Register) (byte : Byte) :
    Compared (s.get r) byte s (s.compare r byte) where
  memory := rfl
  register r' := by cases r' <;> rfl
  flag f hf := by
    simp only [List.mem_cons, List.not_mem_nil, or_false, not_or] at hf
    rw [p_compare, Status.get_set, if_neg hf.1, Status.get_recordResult,
      if_neg hf.2.2, if_neg hf.2.1]
  compares := s.compares_compare r byte

theorem Compared.of_behind {s t : Machine} {e : Encoding} {left right : Byte}
    (h : Compared left right (s.behind e) t) : Compared left right s t where
  memory := h.memory
  register r := by
    rw [h.register]
    cases r <;> rfl
  flag f hf := h.flag f hf
  compares := h.compares

/-- A subtraction adds the complement of the byte, and one for the carry. -/
theorem a_subtract (hcarry : s.carry = 1) (byte : Byte) :
    (s.subtract byte).regs.a = s.regs.a - byte := by
  have hnot : (~~~byte).toNat = 255 - byte.toNat := BitVec.toNat_not
  rw [subtract, a_add, hcarry, hnot]
  bv_omega

theorem compares_subtract (hcarry : s.carry = 1) (byte : Byte) :
    (s.subtract byte).regs.p.Compares s.regs.a byte := by
  have hnot : (~~~byte).toNat = 255 - byte.toNat := BitVec.toNat_not
  have ha := s.a_subtract hcarry byte
  rw [subtract] at ha ⊢
  constructor <;> rw [p_add, Status.get_recordResult, ha]
  · rw [if_neg (by decide), if_neg (by decide), Status.get_set,
      if_neg (by decide), Status.get_set, if_pos rfl, hcarry, hnot,
      decide_eq_decide]
    have hbyte := byte.isLt
    omega
  · exact Byte.sub_beq_zero ..
  · rfl

end Machine

theorem Instruction.execute_of_subtract {i : Instruction} {address : Word}
    (hm : i.mnemonic = .sbc) (hoperand : i.operand = .cell address)
    (s : Machine) : i.execute s = (.ok (), s.subtract (s.read address)) := by
  simp only [execute, hm, Mnemonic.operation, withByte, hoperand, Operand.read?]

/-- The instructions that compare, with the registers that they look at. -/
def Mnemonic.comparing : List (Mnemonic × Register) :=
  [(.cmp, .a), (.cpx, .x), (.cpy, .y)]

theorem Mnemonic.operation_of_comparing {m : Mnemonic} {r : Register}
    (h : (m, r) ∈ comparing) : m.operation = .compare r := by
  simp only [comparing, List.mem_cons, Prod.mk.injEq, List.not_mem_nil,
    or_false] at h
  rcases h with ⟨rfl, rfl⟩ | ⟨rfl, rfl⟩ | ⟨rfl, rfl⟩ <;> rfl

theorem Mnemonic.register_of_cmp {r : Register}
    (h : (Mnemonic.cmp, r) ∈ comparing) : r = .a := by
  simpa [comparing] using h

theorem Encoding.exists_cell_of_comparing :
    ∀ e ∈ documented, ∀ p ∈ Mnemonic.comparing, e.mnemonic = p.1 →
      e.mode ≠ .implicit ∧ e.mode ≠ .accumulator := by
  decide +kernel

theorem Mode.operand_eq_cell {mode : Mode} (himplicit : mode ≠ .implicit)
    (haccumulator : mode ≠ .accumulator) (r : Registers) (m : Memory) :
    ∃ address, mode.operand r m = .cell address := by
  cases mode with
  | implicit => contradiction
  | accumulator => contradiction
  | _ => exact ⟨_, rfl⟩

namespace Machine

variable {s : Machine} {e : Encoding} {r : Register}

theorem exists_step_of_comparing
    (h : Encoding.lookup (s.read s.regs.pc) = some e)
    (hr : (e.mnemonic, r) ∈ Mnemonic.comparing) :
    ∃ address, e.mode.operand s.regs s.memory = .cell address ∧
      s.step = (.ok (), (s.behind e).compare r (s.read address)) := by
  obtain ⟨himplicit, haccumulator⟩ :=
    Encoding.exists_cell_of_comparing e (Encoding.mem_of_lookup h) _ hr rfl
  obtain ⟨address, haddress⟩ :=
    Mode.operand_eq_cell himplicit haccumulator s.regs s.memory
  have heffect := effect_of_documented h
  rw [haddress, Mnemonic.operation_of_comparing hr] at heffect
  refine ⟨address, haddress, Prod.ext (step_fst_of_lookup_eq_some h) ?_⟩
  generalize s.step.2 = t at heffect ⊢
  cases heffect with
  | compare found =>
      cases found
      rfl

end Machine

/--
A comparison sets its flags by the order of the two bytes, as a subtraction with
the carry set would, and moves the program counter on; it changes nothing else.
A branch behind it goes by that order.
-/
theorem comparisons_agree {s : Machine} {e : Encoding} {r : Register}
    (h : Encoding.lookup (s.read s.regs.pc) = some e)
    (hr : (e.mnemonic, r) ∈ Mnemonic.comparing) :
    ∃ address t, e.mode.operand s.regs s.memory = .cell address ∧
      s.step = (.ok (), t) ∧
      t.regs.pc = s.regs.pc + BitVec.ofNat 16 e.length ∧
      Machine.Compared (s.get r) (s.read address) s t ∧
      (e.mnemonic = .cmp → ∀ i : Instruction,
        i.mnemonic = .sbc → i.operand = .cell address →
        ∃ u, i.execute ((s.behind e).setFlag .carry true) = (.ok (), u) ∧
          ∀ f ∈ [Flag.carry, .zero, .negative],
          t.regs.p.get f = u.regs.p.get f) ∧
      ∀ b, Encoding.lookup (t.read t.regs.pc) = some b →
        b.mnemonic ∈ Mnemonic.asking →
          ∃ u, t.step = (.ok (), u) ∧
            u.regs.pc =
              if b.mnemonic.asks (s.get r) (s.read address) then
                t.regs.branchTarget t.memory
              else t.regs.pc + 2 := by
  obtain ⟨address, haddress, hstep⟩ := Machine.exists_step_of_comparing h hr
  have hcompared := (s.behind e).compared_compare r (s.read address)
  have hleft : (s.behind e).get r = s.get r := by
    cases r <;> rfl
  rw [hleft] at hcompared
  refine ⟨address, _, haddress, hstep, rfl, hcompared.of_behind, ?_, ?_⟩
  · intro hcmp i hm hoperand
    obtain rfl : r = .a := Mnemonic.register_of_cmp (hcmp ▸ hr)
    have hcarry : ((s.behind e).setFlag .carry true).carry = 1 :=
      congrArg Bool.toNat (Machine.get_carry_setFlag _ true)
    have hsubtract := Machine.compares_subtract _ hcarry (s.read address)
    exact ⟨_, Instruction.execute_of_subtract hm hoperand _,
      fun f hf => hcompared.compares.get_eq hsubtract hf⟩
  · intro b hb hm
    have hpc :=
      Machine.pc_step_of_branching hb (Mnemonic.branching_of_asking hm)
    rw [hcompared.compares.taken_eq_asks hm] at hpc
    exact ⟨_, Prod.ext (Machine.step_fst_of_lookup_eq_some hb) rfl, hpc⟩

/-- A comparison through a pointer and a branch across the end of memory. -/
def compareThenBranch : Machine where
  regs := { Registers.powerOn with pc := 0xFFFD, a := 0x80, y := 0x01 }
  memory := ((Memory.zeroed.load 0x0010 [0xFF, 0x02]).write 0x0300 0x7F).load
    0xFFFD [0xD1, 0x10, 0xB0, 0x80]

/-- The subtraction that reads the same byte. -/
def subtractInstead : Instruction :=
  ⟨0xFFFD, ⟨0xF1, .sbc, .indirectIndexed⟩, .cell 0x0300, 0xF1, 0x10, 0x00⟩

theorem compareThenBranch_agrees :
    Encoding.lookup (compareThenBranch.read 0xFFFD) =
      some ⟨0xD1, .cmp, .indirectIndexed⟩ ∧
      compareThenBranch.step.2.memory = compareThenBranch.memory ∧
      compareThenBranch.step.2.regs.p.Compares 0x80 0x7F ∧
      (subtractInstead.execute
        ((compareThenBranch.behind ⟨0xD1, .cmp, .indirectIndexed⟩).setFlag
          .carry true)).2.regs.p.get .carry =
          compareThenBranch.step.2.regs.p.get .carry ∧
      compareThenBranch.step.2.step.2.regs.pc = 0xFF81 := by
  have hlookup :
      Encoding.lookup (compareThenBranch.read compareThenBranch.regs.pc) =
      some ⟨0xD1, .cmp, .indirectIndexed⟩ := rfl
  have hcell :
      Mode.indirectIndexed.operand compareThenBranch.regs
        compareThenBranch.memory = .cell 0x0300 := rfl
  obtain ⟨address, t, haddress, hstep, -, hcompared, hsubtract, hbranch⟩ :=
    comparisons_agree (r := .a) hlookup (by decide)
  obtain rfl : 0x0300 = address := Operand.cell.inj (hcell.symm.trans haddress)
  obtain rfl : compareThenBranch.step.2 = t := by rw [hstep]
  obtain ⟨u, hu, hflags⟩ := hsubtract rfl subtractInstead rfl rfl
  obtain ⟨v, hv, hpc⟩ := hbranch ⟨0xB0, .bcs, .relative⟩ rfl (by decide)
  refine ⟨hlookup, hcompared.memory, hcompared.compares, ?_, ?_⟩
  · rw [hu]
    exact (hflags .carry (by decide)).symm
  · rw [hv]
    exact hpc

end Cpu6502
