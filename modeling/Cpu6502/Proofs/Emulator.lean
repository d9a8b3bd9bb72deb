import Cpu6502.Emulator
import Cpu6502.Proofs.Decoding

/-!
# Steps of an emulator

Notes of a step change nothing in it.  A step ends in one of three ways.  An
opcode that is not documented fails before the log is looked at, a log that
disagrees leaves the machine alone, and in all other cases the step is that of
the machine by itself.  So the opcode table and the execution of instructions
fit together: a machine stops at bytes that are missing from the table and
nowhere else.
-/

namespace Cpu6502

def Fault.fromLog : Fault → Bool
  | .traceMismatch .. | .unreadableLog _ => true
  | .unknownOpcode .. | .missingOperand .. => false

namespace Comparison

variable {actual : String} {reading : Log.Reading}

theorem fromLog_of_ofReading {fault : Fault}
    (h : (ofReading false actual reading).verdict = .error fault) :
    fault.fromLog := by
  cases reading with
  | exhausted => simp [ofReading] at h
  | failed cause rest =>
      cases h
      rfl
  | line expected rest =>
      simp only [ofReading] at h
      split at h
      · simp at h
      · cases h
        rfl

theorem ofReading_eq_quiet (verbose : Bool) (actual : String)
    (reading : Log.Reading) :
    (ofReading verbose actual reading).verdict =
        (ofReading false actual reading).verdict ∧
      (ofReading verbose actual reading).log =
        (ofReading false actual reading).log := by
  cases reading with
  | exhausted | failed => exact ⟨rfl, rfl⟩
  | line expected rest =>
      unfold ofReading
      dsimp only
      split <;> exact ⟨rfl, rfl⟩

end Comparison

namespace Emulator

variable {e : Emulator} {i : Instruction} {regs : Registers} {fault : Fault}

theorem compare_quiet (e : Emulator) (i : Instruction) :
    e.compare false i = e.compareLine false (Trace.line e.machine.regs i) := by
  unfold compare compareLine
  cases e.log <;> rfl

/-- A comparison that is made for a verbose step only has nothing to compare. -/
theorem compare_eq_quiet (verbose : Bool) (e : Emulator) (i : Instruction) :
    (e.compare verbose i).verdict = (e.compare false i).verdict ∧
      (e.compare verbose i).log = (e.compare false i).log := by
  rw [compare_quiet]
  unfold compare compareLine
  cases e.log with
  | none => cases verbose <;> exact ⟨rfl, rfl⟩
  | some log =>
      rw [Option.isSome_some, Bool.or_true, if_pos rfl]
      exact Comparison.ofReading_eq_quiet verbose _ log.next

/-- What a step does is the same whether or not notes are made of it. -/
theorem stepWith_eq_step (verbose : Bool) (e : Emulator) :
    (e.stepWith verbose).result = e.step.result ∧
      (e.stepWith verbose).emulator = e.step.emulator := by
  unfold step stepWith
  rcases Instruction.decode e.machine.regs e.machine.memory with ⟨_ | i, regs⟩
  · exact ⟨rfl, rfl⟩
  · obtain ⟨hverdict, hlog⟩ := e.compare_eq_quiet verbose i
    dsimp only
    rw [hverdict, hlog]
    cases (e.compare false i).verdict <;> exact ⟨rfl, rfl⟩

theorem fromLog_of_compare (h : (e.compare false i).verdict = .error fault) :
    fault.fromLog := by
  rw [compare_quiet] at h
  unfold compareLine at h
  cases hlog : e.log with
  | none => simp [hlog] at h
  | some log =>
      simp only [hlog] at h
      exact Comparison.fromLog_of_ofReading h

theorem step_of_undocumented
    (h : Encoding.lookup (e.machine.read e.machine.regs.pc) = none) :
    e.step.result = e.machine.step.1 ∧
      e.step.emulator = ⟨e.machine.step.2, e.log⟩ := by
  have hdecode := Instruction.decode_of_lookup_eq_none
    (r := e.machine.regs) (m := e.machine.memory) h
  simp [step, stepWith, Machine.step, hdecode]

theorem step_of_refused
    (h : Instruction.decode e.machine.regs e.machine.memory = (.ok i, regs))
    (hverdict : (e.compare false i).verdict = .error fault) :
    e.step.result = .error fault ∧
      e.step.emulator = ⟨e.machine, (e.compare false i).log⟩ := by
  simp [step, stepWith, h, hverdict]

theorem step_of_agreed
    (h : Instruction.decode e.machine.regs e.machine.memory = (.ok i, regs))
    (hverdict : (e.compare false i).verdict = .ok ()) :
    e.step.result = .ok () ∧
      e.step.emulator = ⟨e.machine.step.2, (e.compare false i).log⟩ := by
  have hok := Machine.step_fst_of_decode h
  rw [Machine.step_of_decode h] at hok
  simp [step, stepWith, Machine.step, h, hverdict, hok]

/-- The ways in which a step ends. -/
inductive Ending (e : Emulator) : Prop where
  | undocumented
      (missing : Encoding.lookup (e.machine.read e.machine.regs.pc) = none)
      (result : e.step.result = e.machine.step.1)
      (after : e.step.emulator = ⟨e.machine.step.2, e.log⟩)
  | refused {i : Instruction} {regs : Registers} {fault : Fault}
      (decoded : Instruction.decode e.machine.regs e.machine.memory =
        (.ok i, regs))
      (verdict : (e.compare false i).verdict = .error fault)
      (fromLog : fault.fromLog)
      (result : e.step.result = .error fault)
      (after : e.step.emulator = ⟨e.machine, (e.compare false i).log⟩)
  | agreed {i : Instruction} {regs : Registers}
      (decoded : Instruction.decode e.machine.regs e.machine.memory =
        (.ok i, regs))
      (verdict : (e.compare false i).verdict = .ok ())
      (result : e.step.result = .ok ())
      (after : e.step.emulator = ⟨e.machine.step.2, (e.compare false i).log⟩)

theorem ending (e : Emulator) : e.Ending := by
  cases hlookup : Encoding.lookup (e.machine.read e.machine.regs.pc) with
  | none =>
      obtain ⟨hresult, hafter⟩ := step_of_undocumented hlookup
      exact .undocumented hlookup hresult hafter
  | some encoding =>
      obtain ⟨i, regs, hdecode⟩ := Instruction.decode_of_lookup_eq_some
        (r := e.machine.regs) (m := e.machine.memory) hlookup
      cases hverdict : (e.compare false i).verdict with
      | error fault =>
          obtain ⟨hresult, hafter⟩ := step_of_refused hdecode hverdict
          exact .refused hdecode hverdict
            (fromLog_of_compare hverdict) hresult hafter
      | ok =>
          obtain ⟨hresult, hafter⟩ := step_of_agreed hdecode hverdict
          exact .agreed hdecode hverdict hresult hafter

end Emulator

/--
The opcode table and the execution of instructions fit together: a step without
a log succeeds exactly at documented opcodes.  An opcode that is not documented
is named with its address and uses up nothing of a log, and no step misses an
operand.
-/
theorem step_stops_only_at_undocumented (s : Machine) (log : Option Log) :
    ((Emulator.step ⟨s, none⟩).result = .ok () ↔
        (Encoding.lookup (s.read s.regs.pc)).isSome) ∧
      (Encoding.lookup (s.read s.regs.pc) = none →
        (Emulator.step ⟨s, log⟩).result =
            .error (.unknownOpcode (s.read s.regs.pc) s.regs.pc) ∧
          (Emulator.step ⟨s, log⟩).emulator =
            ⟨{ s with regs.pc := s.regs.pc + 1 }, log⟩) ∧
      (∀ mnemonic mode,
        (Emulator.step ⟨s, log⟩).result ≠
          .error (.missingOperand mnemonic mode)) ∧
      (∀ opcode address,
        (Emulator.step ⟨s, log⟩).result =
          .error (.unknownOpcode opcode address) →
          (Emulator.step ⟨s, log⟩).emulator.log = log) := by
  have hplain := (Emulator.step_unlogged s).1
  cases (Emulator.ending ⟨s, log⟩) with
  | undocumented missing result after =>
      have hstep := Machine.step_of_lookup_eq_none missing
      simp only [hstep] at hplain result after
      simp [hplain, result, after, missing, Registers.advance]
  | refused decoded verdict fromLog result after =>
      have hlookup := (Instruction.decodedFrom_of_decode decoded).1.encoding
      rw [Machine.step_fst_of_decode decoded] at hplain
      have hfromLog : ∀ f, (Emulator.step ⟨s, log⟩).result = .error f →
          f.fromLog := by
        rintro f h
        rw [result] at h
        cases h
        exact fromLog
      refine ⟨by simp [hplain, hlookup, Machine.read],
        by simp [hlookup, Machine.read], ?_, ?_⟩
      · rintro mnemonic mode h
        cases hfromLog _ h
      · rintro opcode address h
        cases hfromLog _ h
  | agreed decoded verdict result after =>
      have hlookup := (Instruction.decodedFrom_of_decode decoded).1.encoding
      rw [Machine.step_fst_of_decode decoded] at hplain
      simp [hplain, result, hlookup, Machine.read]

end Cpu6502
