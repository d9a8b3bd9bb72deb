import Cpu6502.Instruction.Operation
import Cpu6502.Proofs.Number

/-!
# Addition of one byte

The sum that an addition leaves in the accumulator and the carry together are
the true sum.  The overflow flag tells that the bytes in two's complement have a
sum that is no byte in two's complement.  The decimal flag plays no part.
-/

namespace Cpu6502

namespace Status

theorem get_carry_recordResult (p : Status) (byte : Byte) :
    (p.recordResult byte).get .carry = p.get .carry := by
  simp [recordResult, get_set]

theorem get_overflow_recordResult (p : Status) (byte : Byte) :
    (p.recordResult byte).get .overflow = p.get .overflow := by
  simp [recordResult, get_set]

end Status

theorem Byte.toInt_cases (byte : Byte) :
    (byte.msb = false ∧ byte.toNat < 128 ∧ byte.toInt = byte.toNat) ∨
      (byte.msb = true ∧ 128 ≤ byte.toNat ∧ byte.toInt = byte.toNat - 256) := by
  have hbyte := byte.isLt
  rw [BitVec.msb_eq_decide, BitVec.toInt_eq_toNat_cond]
  by_cases h : 128 ≤ byte.toNat <;> simp [h] <;> omega

theorem signedFits_one {x : Int} : SignedFits 1 x ↔ -128 ≤ x ∧ x < 128 := by
  unfold SignedFits
  omega

/-- Two numbers of one sign have a sum of the other if it does not fit. -/
theorem Byte.signedOverflow_iff (left right : Byte) {carry : Nat}
    (hcarry : carry ≤ 1) :
    signedOverflow left right
      (BitVec.ofNat 8 (left.toNat + right.toNat + carry)) = true ↔
      ¬ SignedFits 1 (left.toInt + right.toInt + carry) := by
  have hsum : (BitVec.ofNat 8 (left.toNat + right.toNat + carry)).toNat =
      (left.toNat + right.toNat + carry) % 256 := BitVec.toNat_ofNat ..
  generalize BitVec.ofNat 8 (left.toNat + right.toNat + carry) = sum at hsum ⊢
  have hlt := sum.isLt
  rw [signedOverflow, BitVec.msb_and, BitVec.msb_not, BitVec.msb_xor,
    BitVec.msb_xor, signedFits_one]
  rcases toInt_cases left with ⟨hl, hleft, hleft'⟩ | ⟨hl, hleft, hleft'⟩ <;>
    rcases toInt_cases right with
        ⟨hr, hright, hright'⟩ | ⟨hr, hright, hright'⟩ <;>
      rcases toInt_cases sum with ⟨hs, hsign, -⟩ | ⟨hs, hsign, -⟩ <;>
        simp [hl, hr, hs] <;> omega

namespace Machine

def carry (s : Machine) : Nat :=
  (s.regs.p.get .carry).toNat

theorem carry_le (s : Machine) : s.carry ≤ 1 :=
  Bool.toNat_le _

variable (s : Machine) (byte : Byte)

theorem carry_produce (r : Register) : (s.produce r byte).carry = s.carry := by
  cases r <;> exact congrArg Bool.toNat (Status.get_carry_recordResult ..)

theorem a_add :
    (s.add byte).regs.a =
      BitVec.ofNat 8 (s.regs.a.toNat + byte.toNat + s.carry) :=
  rfl

theorem p_add :
    (s.add byte).regs.p =
      ((s.regs.p.set .carry
        (256 ≤ s.regs.a.toNat + byte.toNat + s.carry)).set .overflow
        (Byte.signedOverflow s.regs.a byte (s.add byte).regs.a)).recordResult
          (s.add byte).regs.a :=
  rfl

theorem carry_add :
    (s.add byte).carry =
      (decide (256 ≤ s.regs.a.toNat + byte.toNat + s.carry)).toNat := by
  rw [carry, p_add, Status.get_carry_recordResult, Status.get_set,
    Status.get_set]
  rfl

theorem total_add :
    (s.add byte).regs.a.toNat + 256 * (s.add byte).carry =
      s.regs.a.toNat + byte.toNat + s.carry := by
  have ha := s.regs.a.isLt
  have hbyte := byte.isLt
  have hcarry := s.carry_le
  rw [a_add, carry_add, BitVec.toNat_ofNat]
  by_cases h : 256 ≤ s.regs.a.toNat + byte.toNat + s.carry
  · simp only [h, decide_true, Bool.toNat_true]
    omega
  · simp only [h, decide_false, Bool.toNat_false]
    omega

theorem overflow_add :
    (s.add byte).regs.p.get .overflow = true ↔
      ¬ SignedFits 1 (s.regs.a.toInt + byte.toInt + s.carry) := by
  rw [← Byte.signedOverflow_iff s.regs.a byte s.carry_le, p_add,
    Status.get_overflow_recordResult, Status.get_set, if_pos rfl, a_add]

end Machine

end Cpu6502
