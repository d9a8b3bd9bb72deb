import Cpu6502.Proofs.Columns
import Cpu6502.Trace.Frame
import Cpu6502.Trace.Line

/-!
# Frames of trace lines

The columns of a trace line are pieces of fixed lengths, so that its frame can
be read from it: the registers and the bytes of the instruction, with zeros for
the bytes that it does not have.  The assembly text and whatever follows the
registers make no difference.
-/

namespace Cpu6502

open Text

theorem Mnemonic.byteLength_name (m : Mnemonic) :
    byteLength m.name.toList = 3 ∧ m.name.length = 3 := by
  cases m <;> decide

namespace Instruction

theorem byteLength_operandText (i : Instruction) :
    byteLength i.operandText.toList = i.operandText.length ∧
      i.operandText.length ≤ 8 := by
  unfold operandText
  cases i.mode <;> simp [Char.utf8Size] <;> decide

theorem byteLength_assembly (i : Instruction) :
    byteLength i.assembly.toList = i.assembly.length ∧
      i.assembly.length ≤ 11 := by
  obtain ⟨hname, hnameLength⟩ := i.mnemonic.byteLength_name
  obtain ⟨hoperand, hoperandLength⟩ := i.byteLength_operandText
  simp only [assembly, String.toList_append, byteLength_append,
    String.length_append]
  omega

end Instruction

namespace Trace

/-- A byte of the instruction as it stands in the line, blank if none. -/
def byteColumn (i : Instruction) (n : Nat) : List Char :=
  match i.bytes[n]? with
  | some byte => (Hex.byte byte).toList
  | none => [' ', ' ']

def leadPieces (pc : Word) (i : Instruction) : List (List Char) :=
  [ (Hex.word pc).toList, [' ', ' '], byteColumn i 0, [' '],
    byteColumn i 1, [' '], byteColumn i 2, [' ', ' '] ]

def tailPieces (r : Registers) : List (List Char) :=
  [ [' ', ' ', 'A', ':'], (Hex.byte r.a).toList, [' ', 'X', ':'],
    (Hex.byte r.x).toList, [' ', 'Y', ':'], (Hex.byte r.y).toList,
    [' ', 'P', ':'], (Hex.byte r.p.bits).toList,
    [' ', 'S', 'P', ':'], (Hex.byte r.sp).toList ]

/-- A line in columns, with any assembly text and anything at its end. -/
def pieces (r : Registers) (i : Instruction) (assembly rest : List Char) :
    List (List Char) :=
  leadPieces r.pc i ++ assembly :: (tailPieces r ++ [rest])

def frame (r : Registers) (i : Instruction) : Frame where
  pc := r.pc
  opcode := i.bytes[0]?.getD 0
  first := i.bytes[1]?.getD 0
  second := i.bytes[2]?.getD 0
  a := r.a
  x := r.x
  y := r.y
  p := r.p.bits
  sp := r.sp

@[simp] theorem byteLength_byteColumn (i : Instruction) (n : Nat) :
    byteLength (byteColumn i n) = 2 := by
  unfold byteColumn
  split
  · exact Hex.byteLength_byte _
  · rfl

theorem read?_byteColumn (i : Instruction) (n : Nat) :
    (Hex.read? 8 (byteColumn i n)).getD 0 = i.bytes[n]?.getD 0 := by
  unfold byteColumn
  split
  case h_1 byte hbyte => rw [Hex.read?_byte, hbyte]
  case h_2 hnone =>
    rw [hnone]
    rfl

theorem toList_padEnd_bytesText (i : Instruction) :
    (padEnd 8 (bytesText i.bytes)).toList =
      byteColumn i 0 ++ [' '] ++ byteColumn i 1 ++ [' '] ++ byteColumn i 2 := by
  have hblank : " ".length = 1 := rfl
  rw [toList_padEnd]
  unfold byteColumn Instruction.bytes
  rcases i.encoding.length_cases with h | h | h <;>
    simp [h, bytesText, hblank, List.replicate]

theorem toList_line (r : Registers) (i : Instruction) :
    (line r i).toList =
      (pieces r i (padEnd 30 i.assembly).toList []).flatten := by
  delta line registersText
  simp [toList_padEnd_bytesText, pieces, leadPieces, tailPieces]

theorem map_byteLength_pieces (r : Registers) (i : Instruction)
    {assembly : List Char}
    (hassembly : byteLength assembly = 30) (rest : List Char) :
    (pieces r i assembly rest).map byteLength =
      [4, 2, 2, 1, 2, 1, 2, 2, 30, 4, 2, 3, 2, 3, 2, 3, 2, 4, 2,
        byteLength rest] := by
  simp [pieces, leadPieces, tailPieces, hassembly, Char.utf8Size]

theorem ofLine?_pieces (r : Registers) (i : Instruction) {assembly : List Char}
    (hassembly : byteLength assembly = 30) (rest : List Char) :
    Frame.ofLine? (pieces r i assembly rest).flatten = some (frame r i) := by
  have hwidths := map_byteLength_pieces r i hassembly rest
  have hpc : columns? 0 4 (pieces r i assembly rest).flatten =
      some (Hex.word r.pc).toList :=
    columns?_flatten hwidths 0 rfl (by simp) (by simp)
  have hopcode : columns? 6 8 (pieces r i assembly rest).flatten =
      some (byteColumn i 0) :=
    columns?_flatten hwidths 2 rfl (by simp) (by simp)
  have hfirst : columns? 9 11 (pieces r i assembly rest).flatten =
      some (byteColumn i 1) :=
    columns?_flatten hwidths 4 rfl (by simp) (by simp)
  have hsecond : columns? 12 14 (pieces r i assembly rest).flatten =
      some (byteColumn i 2) :=
    columns?_flatten hwidths 6 rfl (by simp) (by simp)
  have ha : columns? 50 52 (pieces r i assembly rest).flatten =
      some (Hex.byte r.a).toList :=
    columns?_flatten hwidths 10 rfl (by simp) (by simp)
  have hx : columns? 55 57 (pieces r i assembly rest).flatten =
      some (Hex.byte r.x).toList :=
    columns?_flatten hwidths 12 rfl (by simp) (by simp)
  have hy : columns? 60 62 (pieces r i assembly rest).flatten =
      some (Hex.byte r.y).toList :=
    columns?_flatten hwidths 14 rfl (by simp) (by simp)
  have hp : columns? 65 67 (pieces r i assembly rest).flatten =
      some (Hex.byte r.p.bits).toList :=
    columns?_flatten hwidths 16 rfl (by simp) (by simp)
  have hsp : columns? 71 73 (pieces r i assembly rest).flatten =
      some (Hex.byte r.sp).toList :=
    columns?_flatten hwidths 18 rfl (by simp) (by simp)
  simp only [Frame.ofLine?, Frame.field?, hpc, hopcode, hfirst, hsecond, ha,
    hx, hy, hp, hsp, Option.bind_some, Hex.read?_word, Hex.read?_byte,
    read?_byteColumn]
  rfl

theorem byteLength_padEnd_assembly (i : Instruction) :
    byteLength (padEnd 30 i.assembly).toList = 30 := by
  obtain ⟨hplain, hlength⟩ := i.byteLength_assembly
  exact byteLength_padEnd hplain (Nat.le_trans hlength (by decide))

theorem ofLine?_line (r : Registers) (i : Instruction) :
    Frame.ofLine? (line r i).toList = some (frame r i) := by
  rw [toList_line]
  exact ofLine?_pieces r i (byteLength_padEnd_assembly i) []

def lead (pc : Word) (i : Instruction) : String :=
  String.ofList (leadPieces pc i).flatten

def tail (r : Registers) : String :=
  String.ofList (tailPieces r).flatten

theorem line_eq_append (r : Registers) (i : Instruction) :
    line r i = lead r.pc i ++ padEnd 30 i.assembly ++ tail r := by
  apply String.toList_injective
  simp [toList_line, pieces, lead, tail]

theorem utf8ByteSize_lead (pc : Word) (i : Instruction) :
    (lead pc i).utf8ByteSize = 16 := by
  simp [← byteLength_toList, lead, leadPieces, Char.utf8Size]

theorem newline_not_mem_lead (pc : Word) (i : Instruction) :
    '\n' ∉ (lead pc i).toList := by
  have hcolumn : ∀ n, '\n' ∉ byteColumn i n := by
    intro n
    unfold byteColumn
    split <;> simp
  simp [lead, leadPieces, hcolumn]

theorem newline_not_mem_tail (r : Registers) : '\n' ∉ (tail r).toList := by
  simp [tail, tailPieces]

/-- The registers end in a digit and lose no part with the blanks. -/
theorem exists_flatten_tailPieces (r : Registers) :
    ∃ front d, (tailPieces r).flatten = front ++ [Hex.digit d] := by
  refine ⟨(tailPieces r).dropLast.flatten ++ [Hex.digit (r.sp.extractLsb' 4 4)],
    r.sp.setWidth 4, ?_⟩
  simp [tailPieces, Hex.toList_byte r.sp]

theorem ofLine?_trimEnd (r : Registers) (i : Instruction) {assembly : String}
    (hassembly : assembly.utf8ByteSize = 30) (remark : String) :
    Frame.ofLine? (trimEnd
      (lead r.pc i ++ assembly ++ tail r ++ remark)).toList =
      some (frame r i) := by
  obtain ⟨front, d, htail⟩ := exists_flatten_tailPieces r
  have htext : (lead r.pc i ++ assembly ++ tail r ++ remark).toList =
      (lead r.pc i ++ assembly).toList ++ front ++ Hex.digit d ::
        remark.toList := by
    simp [tail, htail]
  obtain ⟨rest, hrest⟩ := toList_trimEnd htext (Hex.isBlank_digit d)
  have hpieces : (lead r.pc i ++ assembly).toList ++ front ++
      Hex.digit d :: rest =
      (pieces r i assembly.toList rest).flatten := by
    simp [pieces, lead, htail]
  rw [hrest, hpieces, ofLine?_pieces r i (by rw [byteLength_toList, hassembly])]

end Trace

end Cpu6502
