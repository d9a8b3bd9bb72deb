import Cpu6502.Instruction.Execution

/-!
# What operations ask of their operands

An operation needs nothing, a byte or an address.  It is carried out exactly if
its operand has what it needs, and otherwise it changes nothing at all.  Every
row of the opcode table pairs a mnemonic with a mode that supplies what the
mnemonic asks for.
-/

namespace Cpu6502

inductive Demand where
  | nothing
  | byte
  | address
  deriving DecidableEq, Repr

def Operation.demand : Operation → Demand
  | .load _ | .store _ | .combine _ | .testBits | .add | .subtract | .compare _
  | .modify _ => .byte
  | .jump | .call | .branch .. => .address
  | .transfer .. | .push _ | .pushStatus | .pull _ | .pullStatus | .adjust ..
  | .returnFromCall | .assign .. | .interrupt | .idle | .returnFromInterrupt =>
      .nothing

def Operand.meets : Operand → Demand → Bool
  | _, .nothing | .accumulator, .byte | .cell _, _ => true
  | .absent, .byte | .absent, .address | .accumulator, .address => false

/-- The operands that a mode finds meet the demand, whatever is in memory. -/
def Mode.supplies (mode : Mode) (demand : Demand) : Bool :=
  match mode with
  | .implicit => Operand.absent.meets demand
  | .accumulator => Operand.accumulator.meets demand
  | _ => true

namespace Operand

@[simp] theorem meets_nothing (o : Operand) : o.meets .nothing = true := by
  cases o <;> rfl

@[simp] theorem meets_cell (address : Word) (demand : Demand) :
    (cell address).meets demand = true := by
  cases demand <;> rfl

theorem read?_of_meets {o : Operand} (s : Machine) (h : o.meets .byte) :
    ∃ byte, o.read? s = some byte := by
  cases o with
  | absent => cases h
  | _ => exact ⟨_, rfl⟩

theorem write?_of_meets {o : Operand} (s : Machine) (byte : Byte)
    (h : o.meets .byte) : ∃ t, o.write? s byte = some t := by
  cases o with
  | absent => cases h
  | _ => exact ⟨_, rfl⟩

theorem address?_of_meets {o : Operand} (h : o.meets .address) :
    ∃ address, o.address? = some address := by
  cases o with
  | cell address => exact ⟨address, rfl⟩
  | _ => cases h

theorem read?_of_not_meets {o : Operand} (s : Machine)
    (h : o.meets .byte = false) : o.read? s = none := by
  cases o with
  | absent => rfl
  | _ => cases h

theorem write?_of_not_meets {o : Operand} (s : Machine) (byte : Byte)
    (h : o.meets .byte = false) : o.write? s byte = none := by
  cases o with
  | absent => rfl
  | _ => cases h

theorem address?_of_not_meets {o : Operand} (h : o.meets .address = false) :
    o.address? = none := by
  cases o with
  | cell address => cases h
  | _ => rfl

end Operand

theorem Mode.meets_resolve {mode : Mode} {demand : Demand}
    (r : Registers) (m : Memory)
    (h : mode.supplies demand) : (mode.resolve r m).1.meets demand := by
  cases mode with
  | implicit => exact h
  | accumulator => exact h
  | _ => exact Operand.meets_cell _ demand

theorem Encoding.supplies_of_mem_documented :
    ∀ e ∈ documented, e.mode.supplies e.mnemonic.operation.demand := by
  decide +kernel

namespace Instruction

variable (i : Instruction) (s : Machine)

theorem withByte_of_not_meets (next : Byte → Machine)
    (h : i.operand.meets .byte = false) :
    i.withByte s next = (.error i.missingOperand, s) := by
  simp [withByte, Operand.read?_of_not_meets s h]

theorem withAddress_of_not_meets (next : Word → Machine)
    (h : i.operand.meets .address = false) :
    i.withAddress s next = (.error i.missingOperand, s) := by
  simp [withAddress, Operand.address?_of_not_meets h]

theorem store_of_not_meets (byte : Byte) (h : i.operand.meets .byte = false) :
    i.store s byte = (.error i.missingOperand, s) := by
  simp [store, Operand.write?_of_not_meets s byte h]

theorem modify_of_not_meets (change : Change)
    (h : i.operand.meets .byte = false) :
    i.modify s change = (.error i.missingOperand, s) := by
  simp [modify, Operand.read?_of_not_meets s h]

/-- An operation that lacks its operand is refused and changes nothing. -/
theorem execute_of_not_meets
    (h : i.operand.meets i.mnemonic.operation.demand = false) :
    i.execute s = (.error i.missingOperand, s) := by
  unfold execute
  cases operation : i.mnemonic.operation <;>
    simp only [operation, Operation.demand] at h ⊢
  case load | combine | testBits | add | subtract | compare =>
    exact withByte_of_not_meets i s _ h
  case jump | call | branch => exact withAddress_of_not_meets i s _ h
  case store => exact store_of_not_meets i s _ h
  case modify => exact modify_of_not_meets i s _ h
  all_goals simp at h

theorem withByte_of_meets (next : Byte → Machine) (h : i.operand.meets .byte) :
    (i.withByte s next).1 = .ok () := by
  obtain ⟨byte, found⟩ := Operand.read?_of_meets s h
  simp [withByte, found]

theorem withAddress_of_meets (next : Word → Machine)
    (h : i.operand.meets .address) : (i.withAddress s next).1 = .ok () := by
  obtain ⟨address, found⟩ := Operand.address?_of_meets h
  simp [withAddress, found]

theorem store_of_meets (byte : Byte) (h : i.operand.meets .byte) :
    (i.store s byte).1 = .ok () := by
  obtain ⟨t, stored⟩ := Operand.write?_of_meets s byte h
  simp [store, stored]

theorem modify_of_meets (change : Change) (h : i.operand.meets .byte) :
    (i.modify s change).1 = .ok () := by
  obtain ⟨byte, found⟩ := Operand.read?_of_meets s h
  have stored :=
    store_of_meets i (s.change change byte).2 (s.change change byte).1 h
  simp only [modify, found]
  split
  case h_1 fault t hstore => simp [hstore] at stored
  case h_2 => rfl

theorem execute_of_meets (h : i.operand.meets i.mnemonic.operation.demand) :
    (i.execute s).1 = .ok () := by
  unfold execute
  cases operation : i.mnemonic.operation <;>
    simp only [operation, Operation.demand] at h ⊢
  case load | combine | testBits | add | subtract | compare =>
    exact withByte_of_meets i s _ h
  case jump | call | branch => exact withAddress_of_meets i s _ h
  case store => exact store_of_meets i s _ h
  case modify => exact modify_of_meets i s _ h

end Instruction

/-- The instructions that work on a byte in the accumulator or in memory. -/
def Mnemonic.workingOnByte : List Mnemonic :=
  [ .lda, .ldx, .ldy, .sta, .stx, .sty, .and, .eor, .ora, .bit, .adc, .sbc,
    .cmp, .cpx, .cpy, .inc, .dec, .asl, .lsr, .rol, .ror ]

/-- The instructions that may go on at the address that they are given. -/
def Mnemonic.goingToAddress : List Mnemonic :=
  [.jmp, .jsr, .bcc, .bcs, .beq, .bmi, .bne, .bpl, .bvc, .bvs]

theorem Mnemonic.demand_operation (m : Mnemonic) :
    (m.operation.demand = .byte ↔ m ∈ workingOnByte) ∧
      (m.operation.demand = .address ↔ m ∈ goingToAddress) := by
  cases m <;> decide

theorem Operand.meets_eq_false_iff (o : Operand) (demand : Demand) :
    o.meets demand = false ↔
      o = .absent ∧ demand = .byte ∨ (o = .absent ∨ o = .accumulator) ∧
        demand = .address := by
  cases o <;> cases demand <;> simp [meets]

/--
An instruction fails for want of its operand only, and then it has done nothing.
-/
theorem Instruction.execute_all_or_nothing (i : Instruction) (s : Machine) :
    ((∃ fault, (i.execute s).1 = .error fault) ↔
        i.operand = .absent ∧ i.mnemonic ∈ Mnemonic.workingOnByte ∨
          (i.operand = .absent ∨ i.operand = .accumulator) ∧
            i.mnemonic ∈ Mnemonic.goingToAddress) ∧
      ∀ fault, (i.execute s).1 = .error fault →
        fault = .missingOperand i.mnemonic i.mode ∧ (i.execute s).2 = s := by
  obtain ⟨hbyte, haddress⟩ := i.mnemonic.demand_operation
  rw [← hbyte, ← haddress, ← Operand.meets_eq_false_iff]
  cases hmeets : i.operand.meets i.mnemonic.operation.demand with
  | false =>
      rw [i.execute_of_not_meets s hmeets]
      refine ⟨⟨fun _ => rfl, fun _ => ⟨_, rfl⟩⟩, ?_⟩
      rintro fault h
      exact ⟨(Except.error.inj h).symm, rfl⟩
  | true =>
      have hok := i.execute_of_meets s hmeets
      rw [hok]
      exact ⟨⟨nofun, nofun⟩, nofun⟩

end Cpu6502
