import Cpu6502.Proofs.Flags
import Cpu6502.Proofs.Refusal
import Cpu6502.Proofs.ReturnAddress
import Cpu6502.Proofs.Step

/-!
# Zero and negative exclude each other

The two flags tell the sign of a byte, and no byte is zero and negative.  Every
result sets both of them, and nothing sets one of them alone, so that they are
never both set unless a status byte is pulled that has them both.
-/

namespace Cpu6502

namespace Status

/-- The zero and negative flags can be those of a byte. -/
def HasSign (p : Status) : Prop :=
  ¬(p.get .zero = true ∧ p.get .negative = true)

instance (p : Status) : Decidable p.HasSign :=
  inferInstanceAs (Decidable (¬_))

theorem hasSign_of_byte {p : Status} {byte : Byte}
    (hzero : p.get .zero = (byte == 0))
    (hnegative : p.get .negative = byte.msb) : p.HasSign := by
  rintro ⟨hz, hn⟩
  rw [hzero, beq_iff_eq] at hz
  rw [hnegative, hz] at hn
  exact absurd hn (by decide)

end Status

/-- A pulled status byte tells all flags but the break flag. -/
theorem Effect.get_pulled {o : Operand} {s t : Machine}
    {op : Operation} {f : Flag}
    (h : Effect o s op t) (hop : op = .pullStatus ∨ op = .returnFromInterrupt)
    (hf : f ≠ .breakCommand) : t.regs.p.get f = Status.get ⟨s.pull.1⟩ f := by
  rcases hop with rfl | rfl
  · cases h
    rfl
  · cases h
    rw [Machine.p_returnFromInterrupt, Status.get_set, if_neg hf]
    rfl

/-- An instruction sets both flags by a byte, keeps both, or pulls them. -/
theorem Mnemonic.sign_operation (m : Mnemonic) :
    m.operation.records ∨
      (.zero ∉ m.operation.flags ∧ .negative ∉ m.operation.flags) ∨
      (m = .plp ∨ m = .rti) ∧
        (m.operation = .pullStatus ∨ m.operation = .returnFromInterrupt) := by
  cases m <;> decide

namespace Machine

/-- The byte that the next step pulls into the status register, if any. -/
def pulledStatus? (s : Machine) : Option Byte :=
  (Encoding.lookup (s.read s.regs.pc)).bind fun e =>
    if e.mnemonic = .plp ∨ e.mnemonic = .rti then
      some (s.read (Word.stackPage (s.regs.sp + 1)))
    else none

variable {s : Machine}

theorem hasSign_step (h : s.regs.p.HasSign)
    (hpulled : ∀ bits ∈ s.pulledStatus?, Status.HasSign ⟨bits⟩) :
    s.step.2.regs.p.HasSign := by
  cases hlookup : Encoding.lookup (s.read s.regs.pc) with
  | none =>
      rw [step_of_lookup_eq_none hlookup]
      exact h
  | some e =>
      have heffect := effect_of_documented hlookup
      unfold Status.HasSign
      rcases e.mnemonic.sign_operation with
          hrecords | ⟨hzero, hnegative⟩ | ⟨hmnemonic, hpulls⟩
      · obtain ⟨byte, hzero, hnegative⟩ := heffect.recorded hrecords
        exact Status.hasSign_of_byte hzero hnegative
      · rw [heffect.get_flag hzero, heffect.get_flag hnegative]
        exact h
      · rw [heffect.get_pulled hpulls (by decide),
          heffect.get_pulled hpulls (by decide)]
        apply hpulled
        rw [pulledStatus?, hlookup, Option.bind_some, if_pos hmnemonic]
        rfl

end Machine

/--
No machine is zero and negative at once.  A run that starts without both flags
set comes to no state with both, whatever it executes, as long as it pulls no
status byte that has both.
-/
theorem zero_excludes_negative {e : Emulator} {n : Nat}
    (start : e.machine.regs.p.HasSign)
    (pulled : ∀ k < n, ∀ bits ∈ (e.after k).machine.pulledStatus?,
      Status.HasSign ⟨bits⟩) :
    Machine.powerOn.regs.p.HasSign ∧
      ∀ k ≤ n, (e.after k).machine.regs.p.HasSign := by
  refine ⟨by decide, ?_⟩
  apply Emulator.machine_after_of_step (P := fun s => s.regs.p.HasSign) start
  intro k hk hsign
  exact Machine.hasSign_step hsign (pulled k hk)

/-- A status with the zero flag is pulled when the negative flag is set. -/
def pushedZero : Emulator :=
  .unlogged ⟨{ Registers.powerOn with pc := 0x0200 },
    Memory.zeroed.load 0x0200 [0xA9, 0x00, 0x08, 0xA9, 0xFF, 0x28]⟩

theorem pushedZero_excludes_negative :
    pushedZero.results 4 = [.ok (), .ok (), .ok (), .ok ()] ∧
      (pushedZero.after 3).machine.pulledStatus? = some 0x26 ∧
      ∀ k ≤ 4, (pushedZero.after k).machine.regs.p.HasSign := by
  have pulled : ∀ k < 4, ∀ bits ∈ (pushedZero.after k).machine.pulledStatus?,
      Status.HasSign ⟨bits⟩ := by
    decide +kernel
  obtain ⟨start, hruns⟩ :=
    zero_excludes_negative (e := pushedZero) (by decide) pulled
  exact ⟨rfl, by decide +kernel, hruns⟩

end Cpu6502
