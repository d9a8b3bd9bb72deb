import Mathlib.Data.List.TakeDrop
import Cpu6502.Proofs.Calls
import Cpu6502.Proofs.Utf8

/-!
# Reading of logs

A line of encoded text is read as that text, and reading goes on behind the
newline.  A log without any bytes left is as good as no log.
-/

namespace Cpu6502

namespace Log

open Text

theorem splitLine_append {line rest : List Byte} (hline : newline ∉ line)
    (hrest : ∀ byte ∈ rest.head?, byte = newline) :
    splitLine (line ++ rest) = (line, rest.drop 1) := by
  have hpos : ∀ byte ∈ line, (byte != newline) = true := by
    intro byte hbyte
    rw [bne_iff_ne]
    rintro rfl
    exact hline hbyte
  simp only [splitLine, List.span_eq_takeWhile_dropWhile,
    List.takeWhile_append_of_pos hpos, List.dropWhile_append_of_pos hpos]
  cases rest with
  | nil => simp
  | cons byte rest =>
      rw [hrest byte rfl]
      simp

theorem next_of_ne_nil {bytes : List Byte} (h : bytes ≠ []) :
    (content bytes).next =
      match Utf8.decode? (splitLine bytes).1 with
      | none => .failed .invalidText (.content (splitLine bytes).2)
      | some text => .line (trimEnd text) (.content (splitLine bytes).2) := by
  cases bytes with
  | nil => exact absurd rfl h
  | cons byte bytes => rfl

theorem next_encode {text : String} {rest : List Byte} (htext : text ≠ "")
    (hline : '\n' ∉ text.toList) (hrest : ∀ byte ∈ rest.head?, byte = newline) :
    (content (Utf8.encode text ++ rest)).next =
      .line (trimEnd text) (.content (rest.drop 1)) := by
  have hbytes : Utf8.encode text ≠ [] := by
    rw [← List.length_pos_iff, Utf8.length_encode]
    exact Nat.pos_of_ne_zero (mt String.utf8ByteSize_eq_zero_iff.mp htext)
  rw [next_of_ne_nil (List.append_ne_nil_of_left_ne_nil hbytes rest),
    splitLine_append (Utf8.newline_not_mem_encode hline) hrest]
  simp only [Utf8.decode?_encode]

/-- A line ends at a newline, or it is the last one. -/
theorem splitLine_cases (bytes : List Byte) :
    newline ∉ (splitLine bytes).1 ∧
      ((splitLine bytes).2 = [] ∧ bytes = (splitLine bytes).1 ∨
        bytes = (splitLine bytes).1 ++ newline :: (splitLine bytes).2) := by
  simp only [splitLine, List.span_eq_takeWhile_dropWhile]
  constructor
  · intro hmem
    simpa using List.all_eq_true.mp List.all_takeWhile _ hmem
  · have hjoin :=
      List.takeWhile_append_dropWhile (p := (· != newline)) (l := bytes)
    cases hrest : bytes.dropWhile (· != newline) with
    | nil =>
        rw [hrest, List.append_nil] at hjoin
        exact .inl ⟨rfl, hjoin.symm⟩
    | cons byte rest =>
        have hbyte : byte = newline := by
          have hstop := List.head?_dropWhile_not (· != newline) bytes
          rw [hrest] at hstop
          simpa using hstop
        rw [hrest, hbyte] at hjoin
        exact .inr hjoin.symm

/-- The first of the lines is the one that is read first. -/
theorem splitOn_newline (bytes : List Byte) :
    (splitLine bytes).2 = [] ∧ bytes.splitOn newline = [(splitLine bytes).1] ∨
      bytes.splitOn newline =
        (splitLine bytes).1 :: (splitLine bytes).2.splitOn newline := by
  obtain ⟨hline, ⟨hrest, hbytes⟩ | hbytes⟩ := splitLine_cases bytes
  · refine .inl ⟨hrest, ?_⟩
    exact (congrArg (List.splitOn newline) hbytes).trans
      (List.splitOn_eq_singleton hline)
  · refine .inr ?_
    exact (congrArg (List.splitOn newline) hbytes).trans
      (List.splitOn_append_cons_self_of_not_mem hline _)

/-- A log that can be read, with all of its lines among the given ones. -/
def Among (lines : List (List Byte)) : Option Log → Prop
  | none => True
  | some (.unreadable _) => False
  | some (.content rest) => rest = [] ∨ rest.splitOn newline ⊆ lines

theorem next_of_among {lines : List (List Byte)} {log : Log}
    (h : Among lines (some log)) :
    log.next = .exhausted ∨
      (∃ text rest, log.next = .line text rest ∧ Among lines (some rest)) ∨
      ∃ rest, log.next = .failed .invalidText rest ∧ Among lines (some rest) ∧
        ∃ line ∈ lines, Utf8.decode? line = none := by
  cases log with
  | unreadable => exact h.elim
  | content bytes =>
      cases bytes with
      | nil => exact .inl rfl
      | cons byte bytes =>
          have hlines : (byte :: bytes).splitOn newline ⊆ lines :=
            h.resolve_left (List.cons_ne_nil byte bytes)
          have hline : (splitLine (byte :: bytes)).1 ∈ lines := by
            rcases splitOn_newline (byte :: bytes) with ⟨-, hsplit⟩ | hsplit
            all_goals exact hlines (hsplit ▸ List.mem_cons_self)
          have hrest :
              Among lines (some (.content (splitLine (byte :: bytes)).2)) := by
            rcases splitOn_newline (byte :: bytes) with ⟨hend, -⟩ | hsplit
            · exact .inl hend
            · exact .inr fun line hmem =>
                hlines (hsplit ▸ List.mem_cons_of_mem _ hmem)
          rw [next_of_ne_nil (List.cons_ne_nil byte bytes)]
          cases hdecode : Utf8.decode? (splitLine (byte :: bytes)).1 with
          | none => exact .inr (.inr ⟨_, rfl, hrest, _, hline, hdecode⟩)
          | some text => exact .inr (.inl ⟨_, _, rfl, hrest⟩)

/-- No log, or one that has come to its end. -/
def Spent (log : Option Log) : Prop :=
  log = none ∨ log = some (.content [])

end Log

/-- The faults that a step may end in if these are the lines of its log. -/
inductive Fault.Arises (lines : List (List Byte)) : Fault → Prop where
  | unknownOpcode (opcode : Byte) (address : Word) :
      Arises lines (.unknownOpcode opcode address)
  | traceMismatch (expected actual : String) :
      Arises lines (.traceMismatch expected actual)
  | invalidText {line : List Byte} (mem : line ∈ lines)
      (undecoded : Text.Utf8.decode? line = none) :
      Arises lines (.unreadableLog .invalidText)

namespace Emulator

variable {e : Emulator} {lines : List (List Byte)}

theorem compare_of_among (h : Log.Among lines e.log) (i : Instruction) :
    Log.Among lines (e.compare false i).log ∧
      ∀ fault, (e.compare false i).verdict = .error fault →
        fault.Arises lines := by
  rw [compare_quiet]
  cases hlog : e.log with
  | none =>
      simp only [compareLine, hlog]
      exact ⟨trivial, nofun⟩
  | some log =>
      rw [hlog] at h
      simp only [compareLine, hlog]
      rcases Log.next_of_among h with hnext | ⟨text, rest, hnext, hrest⟩ |
        ⟨rest, hnext, hrest, line, hline, hdecode⟩
      · rw [hnext]
        exact ⟨trivial, nofun⟩
      · rw [hnext]
        unfold Comparison.ofReading
        dsimp only
        split
        · exact ⟨hrest, nofun⟩
        · refine ⟨hrest, fun fault hfault => ?_⟩
          cases hfault
          exact .traceMismatch _ _
      · rw [hnext]
        refine ⟨hrest, fun fault hfault => ?_⟩
        cases hfault
        exact .invalidText hline hdecode

/-- With the lines of the log go the faults that steps may end in. -/
theorem step_of_among (h : Log.Among lines e.log) :
    Log.Among lines e.step.emulator.log ∧
      ∀ fault, e.step.result = .error fault → fault.Arises lines := by
  cases e.ending with
  | undocumented missing result after =>
      rw [after]
      refine ⟨h, fun fault hfault => ?_⟩
      rw [result, Machine.step_of_lookup_eq_none missing] at hfault
      cases hfault
      exact .unknownOpcode _ _
  | refused _ verdict _ result after =>
      obtain ⟨hlog, harises⟩ := compare_of_among h _
      rw [after]
      refine ⟨hlog, fun fault hfault => ?_⟩
      rw [← Except.error.inj (result.symm.trans hfault)]
      exact harises _ verdict
  | agreed _ _ result after =>
      rw [after, result]
      exact ⟨(compare_of_among h _).1, nofun⟩

theorem compare_of_spent (h : Log.Spent e.log) (i : Instruction) :
    (e.compare false i).verdict = .ok () ∧ (e.compare false i).log = none := by
  rw [compare_quiet]
  unfold compareLine
  rcases h with h | h
  · rw [h]
    exact ⟨rfl, rfl⟩
  · rw [h]
    exact ⟨rfl, rfl⟩

theorem step_of_spent (h : Log.Spent e.log) :
    e.step.result = e.machine.step.1 ∧
      e.step.emulator.machine = e.machine.step.2 ∧
      Log.Spent e.step.emulator.log := by
  cases e.ending with
  | undocumented missing result after =>
      rw [after]
      exact ⟨result, rfl, h⟩
  | refused _ verdict _ _ _ =>
      rw [(compare_of_spent h _).1] at verdict
      cases verdict
  | agreed decoded _ result after =>
      rw [after]
      refine ⟨?_, rfl, .inl (compare_of_spent h _).2⟩
      rw [result, Machine.step_fst_of_decode decoded]

end Emulator

end Cpu6502
