import Mathlib.Data.List.Basic
import Cpu6502.Proofs.Addressing
import Cpu6502.Proofs.Notes
import Cpu6502.Proofs.Numeral

/-!
# Lines that the log accepts

A log line is told by its bytes: it reaches up to its newline, or to the end of
the log.  It agrees with the machine exactly if it has the registers and the
instruction's bytes in their columns, in any way in which they can be written
there.
-/

namespace Cpu6502

namespace Text

/-- All white space at the end of a text is taken off, and nothing else. -/
def Trimmed (text front : String) : Prop :=
  ∃ blanks, text = front ++ blanks ∧ (∀ c ∈ blanks.toList, isBlank c) ∧
    ∀ c ∈ front.toList.getLast?, isBlank c = false

theorem trimmed_trimEnd (text : String) : Trimmed text (trimEnd text) := by
  refine ⟨String.ofList (text.toList.reverse.takeWhile isBlank).reverse, ?_,
    ?_, ?_⟩
  · apply String.toList_injective
    rw [String.toList_append, trimEnd, String.toList_ofList,
      String.toList_ofList, ← List.reverse_append,
      List.takeWhile_append_dropWhile, List.reverse_reverse]
  · intro c hc
    rw [String.toList_ofList, List.mem_reverse] at hc
    exact List.all_eq_true.mp List.all_takeWhile c hc
  · intro c hc
    rw [trimEnd, String.toList_ofList, List.getLast?_reverse] at hc
    have hstop := List.head?_dropWhile_not isBlank text.toList.reverse
    rw [hc] at hstop
    simpa using hstop

theorem trimEnd_newline (text : String) :
    trimEnd (text ++ "\n") = trimEnd text := by
  have hblank : isBlank '\n' = true := rfl
  simp [trimEnd, hblank]

namespace Utf8

theorem exists_of_encode_eq_newline {text : String} {bytes : List Byte}
    (h : encode text = bytes ++ [0x0A]) : ∃ front, encode front = bytes := by
  rcases List.eq_nil_or_concat text.toList with hempty | ⟨front, c, htext⟩
  · rw [String.toList_eq_nil_iff.mp hempty] at h
    cases bytes <;> cases h
  · have hsplit : text = String.ofList front ++ String.singleton c := by
      apply String.toList_injective
      simp [htext]
    have hlast : encode (String.singleton c) ≠ [] := by
      rw [← List.length_pos_iff, length_encode, String.utf8ByteSize_singleton]
      exact c.utf8Size_pos
    have hnewline : 0x0A ∈ encode (String.singleton c) := by
      apply List.mem_of_getLast?
      rw [← List.getLast?_append_of_ne_nil (encode (String.ofList front)) hlast,
        ← encode_append, ← hsplit, h]
      simp
    obtain ⟨c', hc', hbyte⟩ := mem_encode hnewline
    obtain rfl : c' = c := by simpa using hc'
    rw [eq_newline_of_mem_utf8EncodeChar hbyte] at hsplit
    refine ⟨String.ofList front, (List.append_left_inj [0x0A]).mp ?_⟩
    rw [← h, hsplit, encode_append]
    rfl

/-- Bytes with a newline behind them are text if they are without it. -/
theorem decode?_newline (bytes : List Byte) :
    decode? (bytes ++ [0x0A]) = (decode? bytes).map (· ++ "\n") := by
  cases hbytes : decode? bytes with
  | some text =>
      have hnewline : encode "\n" = [0x0A] := rfl
      rw [← encode_of_decode? hbytes, ← hnewline, ← encode_append,
        decode?_encode]
      rfl
  | none =>
      cases hline : decode? (bytes ++ [0x0A]) with
      | none => rfl
      | some text =>
          obtain ⟨front, rfl⟩ :=
            exists_of_encode_eq_newline (encode_of_decode? hline)
          rw [decode?_encode] at hbytes
          cases hbytes

end Utf8

end Text

open Text

namespace Log

def firstLine (bytes : List Byte) : List Byte :=
  bytes.take (bytes.idxOf newline + 1)

def behindLine (bytes : List Byte) : List Byte :=
  bytes.drop (bytes.idxOf newline + 1)

theorem firstLine_cases (bytes : List Byte) :
    behindLine bytes = (splitLine bytes).2 ∧
      (firstLine bytes = (splitLine bytes).1 ∨
        firstLine bytes = (splitLine bytes).1 ++ [newline]) := by
  unfold behindLine firstLine
  obtain ⟨hline, ⟨hrest, hbytes⟩ | hbytes⟩ := splitLine_cases bytes
  · have hend : bytes.idxOf newline = bytes.length :=
      List.idxOf_of_notMem (hbytes ▸ hline)
    rw [hend, hrest, ← hbytes]
    simp
  · generalize splitLine bytes = line at hline hbytes ⊢
    subst hbytes
    rw [List.idxOf_append_of_notMem hline, List.idxOf_cons_self, Nat.add_zero,
      List.drop_length_add_append, List.take_length_add_append]
    exact ⟨rfl, .inr rfl⟩

/-- The newline makes no difference to what is read of the line. -/
theorem decode?_firstLine (bytes : List Byte) :
    ∃ ending, Utf8.decode? (firstLine bytes) =
        (Utf8.decode? (splitLine bytes).1).map (· ++ ending) ∧
      ∀ text, trimEnd (text ++ ending) = trimEnd text := by
  rcases (firstLine_cases bytes).2 with hfirst | hfirst
  · exact ⟨"", by simp [hfirst], by simp⟩
  · exact ⟨"\n", by rw [hfirst, newline, Utf8.decode?_newline], trimEnd_newline⟩

theorem next_eq {bytes : List Byte} (h : bytes ≠ []) :
    (content bytes).next =
      match Utf8.decode? (firstLine bytes) with
      | none => .failed .invalidText (.content (behindLine bytes))
      | some line => .line (trimEnd line) (.content (behindLine bytes)) := by
  obtain ⟨ending, hline, htrim⟩ := decode?_firstLine bytes
  rw [next_of_ne_nil h, (firstLine_cases bytes).1, hline]
  cases Utf8.decode? (splitLine bytes).1 with
  | none => rfl
  | some text => simp only [Option.map_some, htrim]

end Log

namespace Trace

/-- A numeral between two columns. -/
def Column {w : Nat} (text : String) (first last : Nat) (value : BitVec w) :
    Prop :=
  ∃ part, Between first last text part ∧
    Numeral.Denotes 16 part.toList value.toNat

/-- A byte between two columns, or zero if there is none. -/
def ByteColumn (text : String) (first last : Nat) (byte : Byte) : Prop :=
  Column text first last byte ∨ byte = 0 ∧ ∀ b : Byte, ¬Column text first last b

/-- The line has the registers and the instruction's bytes in their columns. -/
structure Matches (text : String) (r : Registers) (bytes : List Byte) :
    Prop where
  pc : Column text 0 4 r.pc
  opcode : ByteColumn text 6 8 (bytes[0]?.getD 0)
  first : ByteColumn text 9 11 (bytes[1]?.getD 0)
  second : ByteColumn text 12 14 (bytes[2]?.getD 0)
  a : Column text 50 52 r.a
  x : Column text 55 57 r.x
  y : Column text 60 62 r.y
  p : Column text 65 67 r.p.bits
  sp : Column text 71 73 r.sp

theorem field?_eq_some_iff {w first last : Nat} (h : first ≤ last)
    {text : String} {value : BitVec w} :
    Frame.field? w first last text.toList = some value ↔
      Column text first last value := by
  rw [Frame.field?, Option.bind_eq_some_iff]
  constructor
  · rintro ⟨part, hpart, hvalue⟩
    refine ⟨String.ofList part, ?_, ?_⟩
    · rwa [← columns?_toList_eq_some_iff h, String.toList_ofList]
    · rwa [String.toList_ofList, ← Hex.read?_eq_some_iff]
  · rintro ⟨part, hpart, hvalue⟩
    exact ⟨part.toList, (columns?_toList_eq_some_iff h).mpr hpart,
      Hex.read?_eq_some_iff.mpr hvalue⟩

theorem getD_field?_eq_iff {first last : Nat} (h : first ≤ last) {text : String}
    {byte : Byte} :
    (Frame.field? 8 first last text.toList).getD 0 = byte ↔
      ByteColumn text first last byte := by
  unfold ByteColumn
  simp only [← field?_eq_some_iff h]
  cases Frame.field? 8 first last text.toList with
  | none =>
      simp only [Option.getD_none, reduceCtorEq, not_false_eq_true,
        implies_true, and_true, false_or]
      exact eq_comm
  | some b => simp

theorem ofLine?_eq_frame_iff {text : String} {r : Registers} {i : Instruction} :
    Frame.ofLine? text.toList = some (frame r i) ↔ Matches text r i.bytes := by
  simp only [Frame.ofLine?, frame, bind, Option.bind_eq_some_iff, pure,
    Option.some.injEq, Frame.mk.injEq, field?_eq_some_iff, getD_field?_eq_iff,
    Nat.reduceLeDiff]
  constructor
  · rintro ⟨_, hpc, _, ha, _, hx, _, hy, _, hp, _, hsp, rfl, hopcode, hfirst,
      hsecond, rfl, rfl, rfl, rfl, rfl⟩
    exact ⟨hpc, hopcode, hfirst, hsecond, ha, hx, hy, hp, hsp⟩
  · rintro ⟨hpc, hopcode, hfirst, hsecond, ha, hx, hy, hp, hsp⟩
    exact ⟨r.pc, hpc, r.a, ha, r.x, hx, r.y, hy, r.p.bits, hp, r.sp, hsp, rfl,
      hopcode, hfirst, hsecond, rfl, rfl, rfl, rfl, rfl⟩

theorem agree_line_iff {text : String} {r : Registers} {i : Instruction} :
    Log.agree text (line r i) = true ↔ Matches text r i.bytes := by
  rw [← ofLine?_eq_frame_iff, Log.agree, ofLine?_line]
  cases Frame.ofLine? text.toList with
  | none => simp only [Bool.false_eq_true, reduceCtorEq]
  | some f =>
      rw [beq_iff_eq, Option.some.injEq, Option.some.injEq]
      exact eq_comm

end Trace

namespace Emulator

/-- What becomes of a step with the instruction `i` and the rest of a log. -/
structure Judged (s : Machine) (i : Instruction) (bytes : List Byte) :
    Prop where
  exhausted : bytes = [] →
    (logged s bytes).step.result = .ok () ∧
      (logged s bytes).step.emulator = unlogged s.step.2
  unreadable : bytes ≠ [] → Utf8.decode? (Log.firstLine bytes) = none →
    (logged s bytes).step.result = .error (.unreadableLog .invalidText) ∧
      (logged s bytes).step.emulator = logged s (Log.behindLine bytes)
  compared : ∀ line, bytes ≠ [] →
    Utf8.decode? (Log.firstLine bytes) = some line →
    Trimmed line (trimEnd line) ∧
      (Trace.Matches (trimEnd line) s.regs i.bytes →
        (logged s bytes).step.result = .ok () ∧
          (logged s bytes).step.emulator =
            logged s.step.2 (Log.behindLine bytes)) ∧
      (¬Trace.Matches (trimEnd line) s.regs i.bytes →
        (logged s bytes).step.result =
            .error (.traceMismatch (trimEnd line) (Trace.line s.regs i)) ∧
          (logged s bytes).step.emulator = logged s (Log.behindLine bytes))

variable {s : Machine} {i : Instruction} {regs : Registers}
    {bytes rest : List Byte}

theorem compare_logged (s : Machine) (i : Instruction) (bytes : List Byte) :
    (logged s bytes).compare false i =
      .ofReading false (Trace.line s.regs i) (Log.content bytes).next := rfl

theorem step_of_compare_eq_error {fault : Fault} {notes : List Note}
    (h : Instruction.decode s.regs s.memory = (.ok i, regs))
    (hcompare : (logged s bytes).compare false i =
      ⟨.error fault, some (.content rest), notes⟩) :
    (logged s bytes).step.result = .error fault ∧
      (logged s bytes).step.emulator = logged s rest := by
  obtain ⟨hresult, hafter⟩ :=
    step_of_refused (e := logged s bytes) h (by rw [hcompare])
  rw [hcompare] at hafter
  exact ⟨hresult, hafter⟩

theorem step_of_compare_eq_ok {log : Option Log} {notes : List Note}
    (h : Instruction.decode s.regs s.memory = (.ok i, regs))
    (hcompare : (logged s bytes).compare false i = ⟨.ok (), log, notes⟩) :
    (logged s bytes).step.result = .ok () ∧
      (logged s bytes).step.emulator = ⟨s.step.2, log⟩ := by
  obtain ⟨hresult, hafter⟩ :=
    step_of_agreed (e := logged s bytes) h (by rw [hcompare])
  rw [hcompare] at hafter
  exact ⟨hresult, hafter⟩

theorem step_of_line {text : String}
    (h : Instruction.decode s.regs s.memory = (.ok i, regs))
    (hnext : (Log.content bytes).next = .line text (.content rest)) :
    (Trace.Matches text s.regs i.bytes →
        (logged s bytes).step.result = .ok () ∧
          (logged s bytes).step.emulator = logged s.step.2 rest) ∧
      (¬Trace.Matches text s.regs i.bytes →
        (logged s bytes).step.result =
            .error (.traceMismatch text (Trace.line s.regs i)) ∧
          (logged s bytes).step.emulator = logged s rest) := by
  have hcompare := compare_logged s i bytes
  rw [hnext, Comparison.ofReading] at hcompare
  rw [← Trace.agree_line_iff]
  constructor
  · intro hagree
    rw [if_pos hagree] at hcompare
    exact step_of_compare_eq_ok h hcompare
  · intro hagree
    rw [if_neg hagree] at hcompare
    exact step_of_compare_eq_error h hcompare

/-- A documented instruction is judged by the line, and the line is used up. -/
theorem judged_of_decode
    (h : Instruction.decode s.regs s.memory = (.ok i, regs))
    (bytes : List Byte) : Judged s i bytes where
  exhausted := by
    rintro rfl
    exact step_of_compare_eq_ok h (compare_logged s i [])
  unreadable := by
    intro hbytes hline
    have hcompare := compare_logged s i bytes
    rw [Log.next_eq hbytes, hline] at hcompare
    exact step_of_compare_eq_error h hcompare
  compared := by
    intro line hbytes hline
    have hnext := Log.next_eq hbytes
    rw [hline] at hnext
    exact ⟨trimmed_trimEnd line, step_of_line h hnext⟩

end Emulator

/--
The next line of a log decides whether a documented instruction is executed, by
what stands in its columns and by nothing else, and it is used up in any case.
-/
theorem log_line_decides_step {s : Machine} {e : Encoding}
    (h : Encoding.lookup (s.read s.regs.pc) = some e) (bytes : List Byte) :
    ∃ i next, Instruction.decode s.regs s.memory = (.ok i, next) ∧
      i.encoding = e ∧
      i.bytes = s.memory.stretch s.regs.pc e.length ∧
      Emulator.Judged s i bytes := by
  obtain ⟨i, hdecode, rfl, -⟩ := Instruction.exists_decode h
  exact ⟨i, _, hdecode, rfl, Instruction.bytes_of_decode hdecode,
    Emulator.judged_of_decode hdecode bytes⟩

def loadFive : Machine :=
  ⟨{ Registers.powerOn with pc := 0x0600 },
    Memory.zeroed.load 0x0600 [0xA9, 0x05]⟩

def lineInLowerCase : String :=
  "0600  a9 +5     lda #$05 → five               A:00 X:00 Y:00 P:24 SP:fd CYC: 0 \r\n"

def lineWithoutRegisters : String :=
  "0600  A9 05"

theorem loadFive_decided :
    Encoding.lookup (loadFive.read 0x0600) = some ⟨0xA9, .lda, .immediate⟩ ∧
      (Emulator.logged loadFive (Utf8.encode lineInLowerCase)).step.result =
        .ok () ∧
      (Emulator.logged loadFive (Utf8.encode lineInLowerCase)).step.emulator =
        Emulator.logged loadFive.step.2 [] ∧
      (Emulator.logged loadFive
        (Utf8.encode lineWithoutRegisters)).step.result =
        .error (.traceMismatch "0600  A9 05"
          "0600  A9 05     LDA #$05                        A:00 X:00 Y:00 P:24 SP:FD") ∧
      (Emulator.logged loadFive
        (Utf8.encode lineWithoutRegisters)).step.emulator =
        Emulator.logged loadFive [] := by
  have hlookup : Encoding.lookup (loadFive.read 0x0600) =
      some ⟨0xA9, .lda, .immediate⟩ := rfl
  obtain ⟨i, next, hi, -, -, hlower⟩ :=
    log_line_decides_step hlookup (Utf8.encode lineInLowerCase)
  obtain ⟨j, next', hj, -, -, hshort⟩ :=
    log_line_decides_step hlookup (Utf8.encode lineWithoutRegisters)
  cases hi
  cases hj
  have hline : Log.firstLine (Utf8.encode lineInLowerCase) =
      Utf8.encode lineInLowerCase := rfl
  have hend : Log.firstLine (Utf8.encode lineWithoutRegisters) =
      Utf8.encode lineWithoutRegisters := rfl
  obtain ⟨-, haccepted, -⟩ := hlower.compared lineInLowerCase (by decide)
    (by rw [hline, Utf8.decode?_encode])
  obtain ⟨-, -, hrefused⟩ := hshort.compared lineWithoutRegisters (by decide)
    (by rw [hend, Utf8.decode?_encode])
  obtain ⟨hresult, hafter⟩ :=
    haccepted (Trace.ofLine?_eq_frame_iff.mp (by decide +kernel))
  obtain ⟨hfault, hkept⟩ :=
    hrefused (mt Trace.ofLine?_eq_frame_iff.mpr (by decide))
  exact ⟨hlookup, hresult, hafter, hfault, hkept⟩

end Cpu6502
