import Cpu6502.Proofs.Addition
import Cpu6502.Proofs.Registers

/-!
# Flags after an operation

Each operation is about a few flags and leaves the others alone.  Zero and
negative go together: both are set from one byte, the result, or neither is
touched, unless the whole status byte is pulled.
-/

namespace Cpu6502

theorem Flag.mem_all (f : Flag) : f ∈ all := by
  cases f <;> decide

/-- A bit of the changed byte falls out into the carry. -/
def Change.shifts : Change → Bool
  | .increment | .decrement => false
  | .shiftLeft | .shiftRight | .rotateLeft | .rotateRight => true

namespace Operation

/-- The zero and negative flags tell the sign of the operation's result. -/
def records : Operation → Bool
  | .load _ | .pull _ | .combine _ | .testBits | .add | .subtract | .compare _
  | .modify _ | .adjust .. => true
  | .transfer _ target => target ≠ .sp
  | _ => false

/-- The flags that an operation sets or clears, but for its result's sign. -/
def assigned : Operation → List Flag
  | .testBits => [.overflow]
  | .add | .subtract => [.carry, .overflow]
  | .compare _ => [.carry]
  | .modify c | .adjust _ c => if c.shifts then [.carry] else []
  | .assign f _ => [f]
  | .interrupt => [.breakCommand]
  | .pullStatus | .returnFromInterrupt => Flag.all
  | _ => []

/-- All flags that may be others behind the operation. -/
def flags (op : Operation) : List Flag :=
  op.assigned ++ if op.records then [.zero, .negative] else []

end Operation

namespace Machine

variable (s : Machine)

@[simp] theorem p_produce (r : Register) (byte : Byte) :
    (s.produce r byte).regs.p = s.regs.p.recordResult byte := by
  cases r <;> rfl

theorem p_transfer (source target : Register) :
    (s.transfer source target).regs.p =
      if target = .sp then s.regs.p
        else s.regs.p.recordResult (s.get source) := by
  cases target <;> rfl

@[simp] theorem p_push (byte : Byte) : (s.push byte).regs.p = s.regs.p := rfl

@[simp] theorem p_pull : s.pull.2.regs.p = s.regs.p := rfl

theorem p_testBits (byte : Byte) :
    (s.testBits byte).regs.p =
      (s.regs.p.recordResult (s.regs.a &&& byte)).set .overflow
        (byte.getLsbD 6) := rfl

theorem p_compare (r : Register) (byte : Byte) :
    (s.compare r byte).regs.p =
      (s.regs.p.recordResult (s.get r - byte)).set .carry (byte ≤ s.get r) :=
  rfl

theorem get_flag_change (c : Change) (byte : Byte) {f : Flag}
    (h : c.shifts → f ≠ .carry) :
    (s.change c byte).2.regs.p.get f = s.regs.p.get f := by
  cases c with
  | increment => rfl
  | decrement => rfl
  | _ => exact (Status.get_set ..).trans (if_neg (h rfl))

@[simp] theorem p_branch (f : Flag) (value : Bool) (target : Word) :
    (s.branch f value target).regs.p = s.regs.p := by
  unfold branch
  split <;> rfl

end Machine

namespace Effect

variable {o : Operand} {s t : Machine} {op : Operation}

theorem p_of_write? {byte : Byte} (h : o.write? s byte = some t) :
    t.regs.p = s.regs.p := by
  rcases Operand.write?_eq_some h with ⟨-, rfl⟩ | ⟨address, -, rfl⟩
  · rfl
  · rfl

theorem get_flag_add (s : Machine) (byte : Byte) {f : Flag}
    (hf : f ∉ Operation.add.flags) :
    (s.add byte).regs.p.get f = s.regs.p.get f := by
  simp only [Operation.flags, Operation.assigned, Operation.records, if_true,
    List.cons_append, List.nil_append, List.mem_cons, List.not_mem_nil,
    or_false, not_or] at hf
  obtain ⟨hcarry, hoverflow, hzero, hnegative⟩ := hf
  rw [Machine.p_add, Status.get_recordResult, if_neg hnegative, if_neg hzero,
    Status.get_set, if_neg hoverflow, Status.get_set, if_neg hcarry]

/-- A flag that an operation is not about stays as it was. -/
theorem get_flag {f : Flag} (h : Effect o s op t) (hf : f ∉ op.flags) :
    t.regs.p.get f = s.regs.p.get f := by
  have hassigned : f ∉ op.assigned := fun h => hf (List.mem_append_left _ h)
  have hsign (p : Status) (byte : Byte) (hop : op.records = true) :
      (p.recordResult byte).get f = p.get f := by
    simp only [Operation.flags, hop, if_true, List.mem_append, List.mem_cons,
      List.not_mem_nil, or_false, not_or] at hf
    rw [Status.get_recordResult, if_neg hf.2.2, if_neg hf.2.1]
  have hchange (c : Change)
      (hop : op.assigned = if c.shifts then [.carry] else [])
      (u : Machine) (byte : Byte) : (u.change c byte).2.regs.p.get f =
        u.regs.p.get f := by
    apply Machine.get_flag_change
    intro hshifts
    simpa [hop, hshifts] using hassigned
  cases h with
  | load | combine => rw [Machine.p_produce, hsign _ _ rfl]
  | pull => rw [Machine.p_produce, hsign _ _ rfl, Machine.p_pull]
  | store stored => rw [p_of_write? stored]
  | transfer =>
      rw [Machine.p_transfer]
      split
      next => rfl
      next htarget => exact hsign _ _ (decide_eq_true htarget)
  | testBits =>
      rw [Machine.p_testBits, Status.get_set,
        if_neg (List.ne_of_not_mem_cons hassigned), hsign _ _ rfl]
  | add => exact get_flag_add s _ hf
  | subtract => exact get_flag_add s _ hf
  | compare =>
      rw [Machine.p_compare, Status.get_set,
        if_neg (List.ne_of_not_mem_cons hassigned), hsign _ _ rfl]
  | modify found stored =>
      have hstored := congrArg (Status.get · f) (p_of_write? stored)
      exact (hsign _ _ rfl).trans (hstored.trans (hchange _ rfl s _))
  | adjust => rw [Machine.p_produce, hsign _ _ rfl, hchange _ rfl]
  | branch => rw [Machine.p_branch]
  | assign =>
      exact (Status.get_set ..).trans
        (if_neg (List.ne_of_not_mem_cons hassigned))
  | interrupt =>
      exact (Status.get_set ..).trans
        (if_neg (List.ne_of_not_mem_cons hassigned))
  | pullStatus | returnFromInterrupt => exact absurd f.mem_all hassigned
  | _ => rfl

/-- Zero and negative behind an operation are those of its result. -/
theorem recorded (h : Effect o s op t) (hop : op.records) :
    ∃ byte : Byte, t.regs.p.get .zero = (byte == 0) ∧
      t.regs.p.get .negative = byte.msb := by
  have hsign (p : Status) (byte : Byte) : (p.recordResult byte).get .zero =
      (byte == 0) ∧
      (p.recordResult byte).get .negative = byte.msb := by
    simp [Status.get_recordResult]
  cases h with
  | load | pull | combine | adjust =>
      rw [Machine.p_produce]
      exact ⟨_, hsign _ _⟩
  | transfer =>
      rw [Machine.p_transfer, if_neg (of_decide_eq_true hop)]
      exact ⟨_, hsign _ _⟩
  | testBits =>
      rw [Machine.p_testBits, Status.get_set, Status.get_set]
      exact ⟨_, hsign _ _⟩
  | add | subtract => exact ⟨_, hsign _ _⟩
  | compare =>
      rw [Machine.p_compare, Status.get_set, Status.get_set]
      exact ⟨_, hsign _ _⟩
  | modify => exact ⟨_, hsign _ _⟩
  | _ => cases hop

end Effect

end Cpu6502
