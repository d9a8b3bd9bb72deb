import Cpu6502.Proofs.Addressing
import Cpu6502.Proofs.TraceLine

/-!
# Trace lines read back

A trace line is as long for one instruction as for another and has plain
characters only, so that its columns can be counted in bytes and in characters
alike.  What is read from it are the registers and the bytes of the instruction,
with zeros for those that the instruction does not have.  Since the opcode tells
how many there are, lines of decoded instructions are equal only if the
registers and the bytes are.
-/

namespace Cpu6502

open Text

namespace Trace

theorem byteLength_line (r : Registers) (i : Instruction) :
    byteLength (line r i).toList = 73 := by
  rw [toList_line, byteLength_flatten,
    map_byteLength_pieces r i (byteLength_padEnd_assembly i)]
  rfl

theorem length_byteColumn (i : Instruction) (n : Nat) :
    (byteColumn i n).length = 2 := by
  unfold byteColumn
  split
  · exact Hex.length_byte _
  · rfl

theorem byteLength_line_eq_length (r : Registers) (i : Instruction) :
    byteLength (line r i).toList = (line r i).length := by
  have hassembly : (padEnd 30 i.assembly).length = 30 :=
    length_padEnd (Nat.le_trans i.byteLength_assembly.2 (by decide))
  rw [← String.length_toList, toList_line]
  apply byteLength_flatten_eq_length
  simp [pieces, leadPieces, tailPieces, byteLength_padEnd_assembly,
    length_byteColumn, String.length_toList, hassembly, Char.utf8Size]

/-- The bytes of the instruction as they stand in a frame. -/
theorem bytes_frame (r : Registers) (i : Instruction) :
    [(frame r i).opcode, (frame r i).first, (frame r i).second] =
      i.bytes ++ List.replicate (3 - i.bytes.length) 0 := by
  unfold frame Instruction.bytes
  rcases i.encoding.length_cases with h | h | h <;> simp [h]

end Trace

namespace Instruction

variable {r r' next next' : Registers} {m m' : Memory} {i j : Instruction}

/-- No decoded instruction is the beginning of another one. -/
theorem bytes_eq_of_append_eq (h : decode r m = (.ok i, next))
    (h' : decode r' m' = (.ok j, next'))
    {rest rest' : List Byte} (hbytes : i.bytes ++ rest = j.bytes ++ rest') :
    i.bytes = j.bytes := by
  have hopcode : i.opcode = j.opcode := by
    rw [bytes_eq_cons, bytes_eq_cons] at hbytes
    exact (List.cons.inj hbytes).1
  have hencoding : i.encoding = j.encoding := by
    rw [← Option.some.injEq, ← lookup_opcode_of_decode h, hopcode,
      lookup_opcode_of_decode h']
  have hlength : i.bytes.length = j.bytes.length := by
    rw [length_bytes, length_bytes, hencoding]
  exact List.append_inj_left hbytes hlength

end Instruction

theorem Trace.registers_eq_of_frame_eq {r r' : Registers} {i j : Instruction}
    (h : frame r i = frame r' j) : r = r' := by
  obtain ⟨pc, sp, a, x, y, ⟨p⟩⟩ := r
  obtain ⟨pc', sp', a', x', y', ⟨p'⟩⟩ := r'
  obtain ⟨rfl, -, -, -, rfl, rfl, rfl, rfl, rfl⟩ := Frame.mk.inj h
  rfl

/--
A trace line is 73 characters of ASCII, and reading its columns gives the
registers and the bytes back that it was written of.  So lines that agree are of
the same registers and bytes.
-/
theorem trace_lines_are_read_back :
    (∀ r i, (Trace.line r i).length = 73 ∧
      (∀ c ∈ (Trace.line r i).toList, c.toNat < 128) ∧
      Frame.ofLine? (Trace.line r i).toList = some (Trace.frame r i) ∧
      [(Trace.frame r i).opcode, (Trace.frame r i).first,
        (Trace.frame r i).second] =
        i.bytes ++ List.replicate (3 - i.bytes.length) 0) ∧
    ∀ r r' q q' m m' i j next next', Instruction.decode q m = (.ok i, next) →
      Instruction.decode q' m' = (.ok j, next') →
        Trace.line r i = Trace.line r' j →
        r = r' ∧ i.bytes = j.bytes := by
  constructor
  · intro r i
    have hplain := Trace.byteLength_line_eq_length r i
    refine ⟨?_, ?_, Trace.ofLine?_line r i, Trace.bytes_frame r i⟩
    · rw [← hplain, Trace.byteLength_line]
    · rw [← byteLength_eq_length_iff, hplain, String.length_toList]
  · intro r r' q q' m m' i j next next' hi hj hline
    have hframe : Trace.frame r i = Trace.frame r' j := by
      rw [← Option.some.injEq, ← Trace.ofLine?_line, hline, Trace.ofLine?_line]
    have hbytes := Trace.bytes_frame r i
    rw [hframe, Trace.bytes_frame] at hbytes
    exact ⟨Trace.registers_eq_of_frame_eq hframe,
      Instruction.bytes_eq_of_append_eq hi hj hbytes.symm⟩

/-- The registers with which `wrappedLoad` is decoded. -/
def wrappedRegisters : Registers :=
  { Registers.powerOn with pc := 0xFFFF, y := 0xF0 }

/-- What is decoded of a load through the pointer, which may lead anywhere. -/
def loadFrom (address : Word) : Instruction :=
  ⟨0xFFFF, ⟨0xB1, .lda, .indirectIndexed⟩, .cell address, 0xB1, 0xFF, 0x00⟩

theorem loads_of_one_line_agree :
    Instruction.decode wrappedRegisters wrappedLoad =
        (.ok (loadFrom 0x0024), wrappedRegisters.advance 2) ∧
      Instruction.decode wrappedRegisters (wrappedLoad.write 0x00FF 0x35) =
        (.ok (loadFrom 0x0025), wrappedRegisters.advance 2) ∧
      Trace.line wrappedRegisters (loadFrom 0x0024) =
        "FFFF  B1 FF     LDA ($FF),Y                     A:00 X:00 Y:F0 P:24 SP:FD" ∧
      (loadFrom 0x0024).bytes = (loadFrom 0x0025).bytes := by
  have hi : Instruction.decode wrappedRegisters wrappedLoad =
      (.ok (loadFrom 0x0024), wrappedRegisters.advance 2) := rfl
  have hj :
      Instruction.decode wrappedRegisters (wrappedLoad.write 0x00FF 0x35) =
      (.ok (loadFrom 0x0025), wrappedRegisters.advance 2) := rfl
  have hline : Trace.line wrappedRegisters (loadFrom 0x0024) =
      Trace.line wrappedRegisters (loadFrom 0x0025) := rfl
  exact ⟨hi, hj, by decide +kernel,
    (trace_lines_are_read_back.2 _ _ _ _ _ _ _ _ _ _ hi hj hline).2⟩

end Cpu6502
