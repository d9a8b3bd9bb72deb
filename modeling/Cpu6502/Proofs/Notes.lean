import Cpu6502.Proofs.Log
import Cpu6502.Proofs.TraceLine

/-!
# Notes of one line

A quiet step makes no notes, and no note of a verbose one has a newline in it.
The texts are made of digits, names and fixed words, but for the lines of the
log that are quoted, and these end before a newline.
-/

namespace Cpu6502

namespace Text

@[simp] theorem newline_not_mem_toDigits (n : Nat) :
    '\n' ∉ Nat.toDigits 10 n := by
  intro hmem
  exact absurd (Nat.isDigit_of_mem_toDigits (by decide) (by decide) hmem)
    (by decide)

theorem mem_of_mem_trimEnd {s : String} {c : Char}
    (h : c ∈ (trimEnd s).toList) : c ∈ s.toList := by
  rw [trimEnd, String.toList_ofList, List.mem_reverse] at h
  exact List.mem_reverse.mp ((List.dropWhile_suffix _).subset h)

namespace Utf8

theorem newline_mem_encode {s : String} (h : '\n' ∈ s.toList) :
    0x0A ∈ encode s := by
  rw [← String.ofList_toList (s := s)]
  simp only [encode, String.toByteArray_ofList, List.utf8Encode,
    List.toList_data_toByteArray, List.map_flatMap, List.mem_flatMap]
  exact ⟨'\n', h, by decide⟩

theorem encode_of_decode? {bytes : List Byte} {s : String}
    (h : decode? bytes = some s) : encode s = bytes := by
  unfold decode? String.fromUTF8? at h
  split at h
  · cases h
    simp [encode, String.fromUTF8, Function.comp_def]
  · cases h

end Utf8

end Text

namespace Note

/-- A note that takes one line. -/
def Unbroken (n : Note) : Prop :=
  '\n' ∉ n.tag.toList ∧ '\n' ∉ n.text.toList

theorem Unbroken.render {n : Note} (h : n.Unbroken) {time : String}
    (htime : '\n' ∉ time.toList) : '\n' ∉ (n.render time).toList := by
  simp [Note.render, htime, h.1, h.2]

theorem unbroken_of_mem_when {verbose : Bool} {tag text : String}
    (htag : '\n' ∉ tag.toList) (htext : '\n' ∉ text.toList) :
    ∀ n ∈ when verbose tag text, n.Unbroken := by
  intro n hn
  cases verbose with
  | false => cases hn
  | true =>
      rw [List.mem_singleton.mp hn]
      exact ⟨htag, htext⟩

end Note

namespace Instruction

theorem newline_not_mem_assembly (i : Instruction) :
    '\n' ∉ i.assembly.toList := by
  have hname : '\n' ∉ i.mnemonic.name.toList := by
    cases i.mnemonic <;> decide
  have hoperand : '\n' ∉ i.operandText.toList := by
    unfold operandText
    cases i.mode <;> simp
  simp [assembly, hname, hoperand]

end Instruction

theorem Trace.newline_not_mem_line (r : Registers) (i : Instruction) :
    '\n' ∉ (Trace.line r i).toList := by
  simp [Trace.line_eq_append, Trace.newline_not_mem_lead,
    Trace.newline_not_mem_tail, Text.toList_padEnd, i.newline_not_mem_assembly]

theorem Fault.newline_not_mem_unknownOpcode (opcode : Byte) (address : Word) :
    '\n' ∉ (unknownOpcode opcode address).message.toList := by
  delta message
  simp

/-- What is read of a log ends before a newline. -/
theorem Log.newline_not_mem_of_next {log rest : Log} {text : String}
    (h : log.next = .line text rest) : '\n' ∉ text.toList := by
  cases log with
  | unreadable => cases h
  | content bytes =>
      cases bytes with
      | nil => cases h
      | cons byte bytes =>
          rw [next_of_ne_nil (List.cons_ne_nil byte bytes)] at h
          cases hdecode : Text.Utf8.decode? (splitLine (byte :: bytes)).1 with
          | none =>
              rw [hdecode] at h
              cases h
          | some line =>
              rw [hdecode] at h
              cases h
              intro hmem
              have hnewline :=
                Text.Utf8.newline_mem_encode (Text.mem_of_mem_trimEnd hmem)
              rw [Text.Utf8.encode_of_decode? hdecode] at hnewline
              exact (splitLine_cases (byte :: bytes)).1 hnewline

namespace Comparison

variable {actual : String} {reading : Log.Reading}

theorem unbroken_of_mem_ofReading {verbose : Bool}
    (hactual : '\n' ∉ actual.toList)
    (hread : ∀ expected rest, reading = .line expected rest →
      '\n' ∉ expected.toList) :
    ∀ n ∈ (ofReading verbose actual reading).notes, n.Unbroken := by
  cases reading with
  | exhausted => exact Note.unbroken_of_mem_when (by simp) (by simp)
  | failed => exact nofun
  | line expected rest =>
      have hexpected := hread expected rest rfl
      unfold ofReading
      dsimp only
      split
      · exact nofun
      · simp only [List.forall_mem_append]
        exact ⟨⟨Note.unbroken_of_mem_when (by simp) (by simp),
            Note.unbroken_of_mem_when (by simp) (by simp [hactual])⟩,
          Note.unbroken_of_mem_when (by simp) (by simp [hexpected])⟩

theorem notes_ofReading_quiet (actual : String) (reading : Log.Reading) :
    (ofReading false actual reading).notes = [] := by
  cases reading with
  | exhausted | failed => rfl
  | line expected rest =>
      unfold ofReading
      dsimp only
      split <;> rfl

end Comparison

namespace Emulator

variable {verbose : Bool} (e : Emulator)

theorem unbroken_of_mem_compareLine {actual : String}
    (h : '\n' ∉ actual.toList) :
    ∀ n ∈ (e.compareLine verbose actual).notes, n.Unbroken := by
  unfold compareLine
  cases e.log with
  | none => exact nofun
  | some log =>
      exact Comparison.unbroken_of_mem_ofReading h
        fun _ _ hnext => Log.newline_not_mem_of_next hnext

theorem unbroken_of_mem_compare (i : Instruction) :
    ∀ n ∈ (e.compare verbose i).notes, n.Unbroken := by
  have hline := Trace.newline_not_mem_line e.machine.regs i
  unfold compare
  split
  · simp only [List.forall_mem_append]
    exact ⟨Note.unbroken_of_mem_when (by decide) hline,
      e.unbroken_of_mem_compareLine hline⟩
  · simp

theorem notes_stepWith_of_decode {i : Instruction} {regs : Registers}
    (h : Instruction.decode e.machine.regs e.machine.memory = (.ok i, regs)) :
    (e.stepWith verbose).notes = (e.compare verbose i).notes := by
  simp only [stepWith, h]
  cases (e.compare verbose i).verdict <;> rfl

/-- Whatever a step notes takes lines of its own. -/
theorem unbroken_of_mem_stepWith :
    ∀ n ∈ (e.stepWith verbose).notes, n.Unbroken := by
  cases hlookup : Encoding.lookup (e.machine.read e.machine.regs.pc) with
  | none =>
      have hdecode := Instruction.decode_of_lookup_eq_none
        (r := e.machine.regs) (m := e.machine.memory) hlookup
      simp only [stepWith, hdecode]
      refine Note.unbroken_of_mem_when (by decide) ?_
      simp [Fault.newline_not_mem_unknownOpcode]
  | some encoding =>
      obtain ⟨i, regs, hdecode⟩ := Instruction.decode_of_lookup_eq_some
        (r := e.machine.regs) (m := e.machine.memory) hlookup
      rw [notes_stepWith_of_decode e hdecode]
      exact e.unbroken_of_mem_compare i

theorem notes_compare_quiet (i : Instruction) :
    (e.compare false i).notes = [] := by
  rw [compare_quiet]
  unfold compareLine
  cases e.log with
  | none => rfl
  | some log => exact Comparison.notes_ofReading_quiet _ log.next

theorem notes_stepWith_quiet : (e.stepWith false).notes = [] := by
  rcases hdecode : Instruction.decode e.machine.regs e.machine.memory with
      ⟨_ | i, regs⟩
  · simp only [stepWith, hdecode]
    rfl
  · rw [notes_stepWith_of_decode e hdecode, notes_compare_quiet]

/-- A quiet run adds no notes to those made before. -/
theorem notes_runFrom_quiet (noted : Array Note) (n : Nat) :
    (runFrom false noted n e).notes = noted.toList := by
  induction n generalizing e with
  | zero => rfl
  | succ n ih =>
      cases hresult : (e.stepWith false).result with
      | error => simp [runFrom, hresult, notes_stepWith_quiet]
      | ok => simp [runFrom, hresult, notes_stepWith_quiet, ih]

end Emulator

end Cpu6502
