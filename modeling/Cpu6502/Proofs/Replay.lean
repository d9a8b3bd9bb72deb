import Cpu6502.Proofs.Log
import Cpu6502.Proofs.TraceLine

/-!
# Replay of golden logs

The trace lines of a run, with the assembly text changed and remarks added, are
a log that the same run agrees with.  Whatever is written in the free columns,
the log stops none of the steps it has lines for, and after these it is used up.
-/

namespace Cpu6502

open Text

/-- The line that a machine traces before its next step. -/
def Machine.traceLine (s : Machine) : String :=
  match (Instruction.decode s.regs s.memory).1 with
  | .ok i => Trace.line s.regs i
  | .error _ => ""

/-- What may be changed in a trace line: the assembly text and what follows. -/
structure Annotation where
  assembly : String
  remark : String
  utf8ByteSize_assembly : assembly.utf8ByteSize = 30
  newline_not_mem_assembly : '\n' ∉ assembly.toList
  newline_not_mem_remark : '\n' ∉ remark.toList

namespace Annotation

def apply (note : Annotation) (line : String) : List Byte :=
  (Utf8.encode line).take 16 ++ Utf8.encode note.assembly ++
    (Utf8.encode line).drop 46 ++
    Utf8.encode note.remark

end Annotation

/-- The annotated lines of a run, with a newline behind the last if closed. -/
def goldenLog (closed : Bool) : Machine → List Annotation → List Byte
  | _, [] => []
  | s, [note] => note.apply s.traceLine ++ if closed then [Log.newline] else []
  | s, note :: next :: notes =>
      note.apply s.traceLine ++ Log.newline ::
        goldenLog closed s.step.2 (next :: notes)

theorem exists_goldenLog_cons (closed : Bool) (s : Machine) (note : Annotation)
    (notes : List Annotation) :
    ∃ rest, goldenLog closed s (note :: notes) =
      note.apply s.traceLine ++ rest ∧
      (∀ byte ∈ rest.head?, byte = Log.newline) ∧
      rest.drop 1 = goldenLog closed s.step.2 notes := by
  cases notes with
  | nil =>
      refine ⟨_, rfl, ?_, ?_⟩
      · cases closed <;> simp
      · cases closed <;> simp [goldenLog]
  | cons next notes => exact ⟨_, rfl, by simp, rfl⟩

namespace Annotation

theorem apply_line (note : Annotation) (r : Registers) (i : Instruction) :
    note.apply (Trace.line r i) =
      Utf8.encode (Trace.lead r.pc i ++ note.assembly ++ Trace.tail r ++
        note.remark) := by
  obtain ⟨hplain, hlength⟩ := i.byteLength_assembly
  have hlead : (Utf8.encode (Trace.lead r.pc i)).length = 16 := by
    rw [Utf8.length_encode, Trace.utf8ByteSize_lead]
  have hassembly : (Utf8.encode (padEnd 30 i.assembly)).length = 30 := by
    rw [Utf8.length_encode, ← byteLength_toList,
      byteLength_padEnd hplain (Nat.le_trans hlength (by decide))]
  have hfront : (Utf8.encode (Trace.lead r.pc i) ++
      Utf8.encode (padEnd 30 i.assembly)).length = 46 := by
    rw [List.length_append, hlead, hassembly]
  rw [apply, Trace.line_eq_append]
  simp only [Utf8.encode_append]
  rw [List.drop_left' hfront,
    List.append_assoc (Utf8.encode (Trace.lead r.pc i)), List.take_left' hlead]

/-- The line with its annotation, as it is read. -/
def text (note : Annotation) (r : Registers) (i : Instruction) : String :=
  Trace.lead r.pc i ++ note.assembly ++ Trace.tail r ++ note.remark

theorem next_apply (note : Annotation) (r : Registers) (i : Instruction)
    {rest : List Byte} (hrest : ∀ byte ∈ rest.head?, byte = Log.newline) :
    (Log.content (note.apply (Trace.line r i) ++ rest)).next =
      .line (trimEnd (note.text r i)) (.content (rest.drop 1)) := by
  have hne : note.text r i ≠ "" := by
    intro h
    have hsize := congrArg String.utf8ByteSize h
    simp [text, Trace.utf8ByteSize_lead] at hsize
  have hline : '\n' ∉ (note.text r i).toList := by
    simp [text, Trace.newline_not_mem_lead, Trace.newline_not_mem_tail,
      note.newline_not_mem_assembly, note.newline_not_mem_remark]
  rw [apply_line]
  exact Log.next_encode hne hline hrest

theorem agree_text (note : Annotation) (r : Registers) (i : Instruction) :
    Log.agree (trimEnd (note.text r i)) (Trace.line r i) := by
  simp only [Log.agree, text,
    Trace.ofLine?_trimEnd r i note.utf8ByteSize_assembly, Trace.ofLine?_line,
    beq_self_eq_true]

end Annotation

namespace Emulator

/-- The log holds the golden lines of the steps to come, or nothing any more. -/
def Replays (e : Emulator) : Prop :=
  Log.Spent e.log ∨
    ∃ closed notes, e.log = some (.content (goldenLog closed e.machine notes)) ∧
      ∀ result ∈ (unlogged e.machine).results notes.length, result = .ok ()

theorem step_of_goldenLog {e : Emulator} {closed : Bool} {note : Annotation}
    {notes : List Annotation}
    (hlog : e.log = some
      (.content (goldenLog closed e.machine (note :: notes))))
    (hstep : e.machine.step.1 = .ok ()) :
    e.step.result = .ok () ∧
      e.step.emulator =
        logged e.machine.step.2 (goldenLog closed e.machine.step.2 notes) := by
  rcases hdecode : Instruction.decode e.machine.regs e.machine.memory with
      ⟨fault | i, regs⟩
  · simp [Machine.step, hdecode] at hstep
  · obtain ⟨rest, hlines, hhead, hrest⟩ :=
      exists_goldenLog_cons closed e.machine note notes
    have hline : e.machine.traceLine = Trace.line e.machine.regs i := by
      simp only [Machine.traceLine, hdecode]
    have hcompare : e.compare false i =
        ⟨.ok (), some (.content (goldenLog closed e.machine.step.2 notes)),
          []⟩ := by
      simp only [compare_quiet, compareLine, hlog, hlines, hline,
        note.next_apply e.machine.regs i hhead, hrest, Comparison.ofReading,
        note.agree_text, if_true]
    obtain ⟨hresult, hafter⟩ := step_of_agreed hdecode (by rw [hcompare])
    rw [hcompare] at hafter
    exact ⟨hresult, hafter⟩

theorem step_of_replays (e : Emulator) (h : e.Replays) :
    e.step.result = e.machine.step.1 ∧
      e.step.emulator.machine = e.machine.step.2 ∧
      e.step.emulator.Replays := by
  rcases h with hspent | ⟨closed, notes, hlog, hresults⟩
  · obtain ⟨hresult, hafter, hspent'⟩ := step_of_spent hspent
    exact ⟨hresult, hafter, .inl hspent'⟩
  · cases notes with
    | nil =>
        obtain ⟨hresult, hafter, hspent⟩ := step_of_spent (.inr hlog)
        exact ⟨hresult, hafter, .inl hspent⟩
    | cons note notes =>
        simp only [List.length_cons, results, result_step_unlogged,
          emulator_step_unlogged, List.forall_mem_cons] at hresults
        obtain ⟨hstep, hlater⟩ := hresults
        obtain ⟨hresult, hafter⟩ := step_of_goldenLog hlog hstep
        rw [hafter]
        exact ⟨hresult.trans hstep.symm, rfl, .inr ⟨closed, notes, rfl, hlater⟩⟩

end Emulator

/--
The trace lines of a run that succeeds, written down as a log, let the same run
pass, whatever stands in the columns that are free.  Behind the last line the
machine goes on as without a log.
-/
theorem golden_log_replays (s : Machine) (closed : Bool)
    (notes : List Annotation)
    (h : ∀ result ∈ (Emulator.unlogged s).results notes.length,
      result = .ok ()) :
    (∀ result ∈
      (Emulator.logged s (goldenLog closed s notes)).results notes.length,
        result = .ok ()) ∧
      ∀ n,
        (Emulator.logged s (goldenLog closed s notes)).results n =
            (Emulator.unlogged s).results n ∧
          ((Emulator.logged s (goldenLog closed s notes)).after n).machine =
            ((Emulator.unlogged s).after n).machine := by
  have hreplays : (Emulator.logged s (goldenLog closed s notes)).Replays :=
    .inr ⟨closed, notes, rfl, h⟩
  have hruns :=
    Emulator.results_and_after_eq_unlogged Emulator.step_of_replays hreplays
  refine ⟨?_, hruns⟩
  rw [(hruns notes.length).1]
  exact h

/-- A program that writes its third instruction. -/
def selfModifying : Machine :=
  ⟨{ Registers.powerOn with pc := 0x0200 },
    Memory.zeroed.load 0x0200 [0xA9, 0xE8, 0x8D, 0x05, 0x02]⟩

def selfModifyingNotes : List Annotation :=
  [ ⟨"LDA #$E8 → opcode of INX    ", " CYC:  0\r",
      by decide, by decide, by decide⟩,
    ⟨"STA $0205 stores «INX»      ", "", by decide, by decide, by decide⟩,
    ⟨"INX, as it was just written   ", " ✓ ", by decide, by decide, by decide⟩ ]

theorem selfModifying_replays :
    (∀ result ∈ (Emulator.unlogged selfModifying).results 3, result = .ok ()) ∧
      (∀ result ∈ (Emulator.logged selfModifying
        (goldenLog false selfModifying selfModifyingNotes)).results 3,
        result = .ok ()) ∧
      ((Emulator.logged selfModifying
        (goldenLog false selfModifying selfModifyingNotes)).after
          3).machine.regs.x = 1 := by
  have hresults : (Emulator.unlogged selfModifying).results 3 =
      [.ok (), .ok (), .ok ()] := rfl
  have hsucceeds : ∀ result ∈ (Emulator.unlogged selfModifying).results 3,
      result = .ok () := by
    simp [hresults]
  obtain ⟨hlogged, hruns⟩ :=
    golden_log_replays selfModifying false selfModifyingNotes hsucceeds
  refine ⟨hsucceeds, hlogged, ?_⟩
  rw [(hruns 3).2]
  rfl

end Cpu6502
