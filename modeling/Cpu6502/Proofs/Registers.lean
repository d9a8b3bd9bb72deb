import Cpu6502.Proofs.Footprint

/-!
# Registers after an operation

What the parts of an operation leave in the registers, and which operations
leave an index register alone.  A result sets the zero and negative flags and no
others.
-/

namespace Cpu6502

theorem Status.get_recordResult (p : Status) (byte : Byte) (f : Flag) :
    (p.recordResult byte).get f =
      if f = .negative then byte.msb else if f = .zero then byte == 0
        else p.get f := by
  simp only [recordResult, get_set]

namespace Machine

variable (s : Machine) (r : Register)

theorem get_produce (target : Register) (byte : Byte) :
    (s.produce target byte).get r = if r = target then byte else s.get r := by
  cases target <;> cases r <;> rfl

theorem get_transfer (source target : Register) :
    (s.transfer source target).get r =
      if r = target then s.get source else s.get r := by
  cases target <;> cases r <;> rfl

theorem get_change (c : Change) (byte : Byte) :
    (s.change c byte).2.get r = s.get r := by
  cases c <;> cases r <;> rfl

theorem get_branch (f : Flag) (value : Bool) (target : Word) :
    (s.branch f value target).get r = s.get r := by
  unfold branch
  split <;> cases r <;> rfl

end Machine

namespace Effect

variable {o : Operand} {s t : Machine} {op : Operation} {r : Register}

theorem get_of_write? {byte : Byte} (h : o.write? s byte = some t)
    (hr : r = .a → o ≠ .accumulator) : t.get r = s.get r := by
  rcases Operand.write?_eq_some h with ⟨haccumulator, rfl⟩ | ⟨address, -, rfl⟩
  · exact (s.regs.get_set .a r byte).trans (if_neg fun ha => hr ha haccumulator)
  · rfl

/--
A register is changed only by operations that are about it, apart from the stack
pointer, and from the accumulator as an operand that is stored to.
-/
theorem get_kept (h : Effect o s op t) (hr : r ≠ .sp)
    (hop : op.target? ≠ some r)
    (ha : r = .a → op.stores → o ≠ .accumulator) : t.get r = s.get r := by
  have hne (target : Register) (htarget : op.target? = some target) :
      r ≠ target := by
    rintro rfl
    exact hop htarget
  cases h with
  | load | combine => rw [Machine.get_produce, if_neg (hne _ rfl)]
  | transfer => rw [Machine.get_transfer, if_neg (hne _ rfl)]
  | adjust => rw [Machine.get_produce, if_neg (hne _ rfl), Machine.get_change]
  | pull =>
      rw [Machine.get_produce, if_neg (hne _ rfl)]
      exact (s.regs.get_set .sp r _).trans (if_neg hr)
  | add | subtract =>
      refine ((Machine.get_produce ..).trans (if_neg (hne _ rfl))).trans ?_
      cases r <;> rfl
  | store stored => exact get_of_write? stored fun h => ha h rfl
  | modify found stored =>
      have hstored := get_of_write? stored fun h => ha h rfl
      rw [Machine.get_change] at hstored
      cases r <;> exact hstored
  | branch => exact Machine.get_branch ..
  | _ =>
      cases r with
      | sp => exact absurd rfl hr
      | _ => rfl

/-- An index register is changed only by operations that are about it. -/
theorem get_index (h : Effect o s op t) (hr : r = .x ∨ r = .y)
    (hop : op.target? ≠ some r) : t.get r = s.get r := by
  rcases hr with rfl | rfl
  · exact h.get_kept (by decide) hop nofun
  · exact h.get_kept (by decide) hop nofun

end Effect

end Cpu6502
