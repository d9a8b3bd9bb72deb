import Cpu6502.Proofs.Branch
import Cpu6502.Proofs.Numeral
import Cpu6502.Proofs.RoundTrip

/-!
# What assembly text tells

The text of an instruction begins with the name and goes on with the operand,
whose digits stand between signs that belong to the mode.  With the digits made
zeros the text tells the row of the opcode table, and the digits then tell the
bytes of the operand, so that nothing of an instruction is lost at a known
address.  A branch shows its target in place of its byte, which is where it
leads.
-/

namespace Cpu6502

open Text

namespace Text

/-- The text with its digits made zeros. -/
def shape (cs : List Char) : List Char :=
  cs.map fun c => if (Numeral.digitValue? c).isSome then '0' else c

theorem shape_append (cs ds : List Char) :
    shape (cs ++ ds) = shape cs ++ shape ds :=
  List.map_append

theorem shape_byte (b : Byte) :
    shape (Hex.byte b).toList = List.replicate 2 '0' := by
  simp [shape, Hex.toList_byte, Hex.digitValue?_digit]

theorem shape_word (w : Word) :
    shape (Hex.word w).toList = List.replicate 4 '0' := by
  simp [shape, Hex.toList_word, Hex.digitValue?_digit]

end Text

namespace Mode

/-- What stands before the digits of an operand. -/
def opening : Mode → String
  | .implicit => ""
  | .accumulator => " A"
  | .immediate => " #$"
  | .indirect | .indexedIndirect | .indirectIndexed => " ($"
  | _ => " $"

/-- What stands behind the digits of an operand. -/
def closing : Mode → String
  | .zeroPageX | .absoluteX => ",X"
  | .zeroPageY | .absoluteY => ",Y"
  | .indirect => ")"
  | .indexedIndirect => ",X)"
  | .indirectIndexed => "),Y"
  | _ => ""

/-- Targets of branches are written as words. -/
def digitCount (mode : Mode) : Nat :=
  if mode = .relative then 4 else 2 * mode.operandLength

/-- The shape of the operands of a mode; branches share it with others. -/
def form (mode : Mode) : List Char :=
  shape mode.opening.toList ++ List.replicate mode.digitCount '0' ++
    shape mode.closing.toList

end Mode

namespace Encoding

/-- A row of the table is found by its name and the form of its operands. -/
theorem find?_documented :
    ∀ e ∈ documented,
      documented.find? (fun row =>
        decide (row.mnemonic.name = e.mnemonic.name) &&
        row.mode.form == e.mode.form) = some e := by
  decide +kernel

theorem eq_of_mem_documented {e e' : Encoding} (h : e ∈ documented)
    (h' : e' ∈ documented) (hname : e.mnemonic.name = e'.mnemonic.name)
    (hform : e.mode.form = e'.mode.form) : e = e' := by
  have hfound := find?_documented e h
  rw [hname, hform, find?_documented e' h'] at hfound
  exact (Option.some.inj hfound).symm

end Encoding

namespace Instruction

variable {r r' next next' : Registers} {m m' : Memory} {i j : Instruction}

def operandDigits (i : Instruction) : String :=
  if i.mode = .relative then Hex.word i.branchTarget
  else
    match i.mode.operandLength with
    | 0 => ""
    | 1 => Hex.byte i.first
    | _ => Hex.word i.word

theorem operandText_eq_append (i : Instruction) :
    i.operandText = i.mode.opening ++ i.operandDigits ++ i.mode.closing := by
  unfold operandText operandDigits
  cases i.mode <;>
    simp [Mode.opening, Mode.closing, Mode.operandLength, String.append_assoc]

theorem shape_operandDigits (i : Instruction) :
    shape i.operandDigits.toList = List.replicate i.mode.digitCount '0' := by
  unfold operandDigits
  cases i.mode with
  | implicit | accumulator => rfl
  | relative | absolute | absoluteX | absoluteY | indirect => exact shape_word _
  | _ => exact shape_byte _

theorem shape_operandText (i : Instruction) :
    shape i.operandText.toList = i.mode.form := by
  rw [operandText_eq_append, String.toList_append, String.toList_append,
    shape_append, shape_append, shape_operandDigits, Mode.form]

/-- Names are of one length, so that the text tells where the operand begins. -/
theorem name_and_operandText_eq (h : i.assembly = j.assembly) :
    i.mnemonic.name = j.mnemonic.name ∧ i.operandText = j.operandText := by
  have hlist := congrArg String.toList h
  rw [assembly, assembly, String.toList_append, String.toList_append] at hlist
  have hlength : i.mnemonic.name.toList.length =
      j.mnemonic.name.toList.length := by
    rw [String.length_toList, String.length_toList,
      i.mnemonic.byteLength_name.2, j.mnemonic.byteLength_name.2]
  obtain ⟨hname, htext⟩ := List.append_inj hlist hlength
  exact ⟨String.toList_injective hname, String.toList_injective htext⟩

theorem operandDigits_eq (hmode : i.mode = j.mode)
    (h : i.operandText = j.operandText) :
    i.operandDigits = j.operandDigits := by
  rw [operandText_eq_append, operandText_eq_append, hmode] at h
  have hlist := congrArg String.toList h
  simp only [String.toList_append, List.append_assoc] at hlist
  exact String.toList_injective
    (List.append_cancel_right (List.append_cancel_left hlist))

theorem operandBytes_eq (hmode : i.mode = j.mode)
    (haddress : i.address = j.address) (h : i.operandDigits = j.operandDigits) :
    [i.first, i.second].take i.mode.operandLength =
      [j.first, j.second].take j.mode.operandLength := by
  unfold operandDigits at h
  rw [hmode] at h ⊢
  cases hj : j.mode with
  | implicit | accumulator => rfl
  | relative =>
      rw [hj] at h
      have htarget : i.branchTarget = j.branchTarget := Hex.word_injective h
      rw [branchTarget, branchTarget, haddress] at htarget
      exact congrArg ([·]) (Word.displace_injective htarget)
  | absolute | absoluteX | absoluteY | indirect =>
      rw [hj] at h
      obtain ⟨hfirst, hsecond⟩ := Word.ofBytes_injective (Hex.word_injective h)
      rw [hfirst, hsecond]
  | _ =>
      rw [hj] at h
      exact congrArg ([·]) (Hex.byte_injective h)

/-- At a known address the text tells the instruction. -/
theorem bytes_eq_of_assembly_eq (h : decode r m = (.ok i, next))
    (h' : decode r' m' = (.ok j, next')) (hpc : r.pc = r'.pc)
    (heq : i.assembly = j.assembly) : i.bytes = j.bytes := by
  obtain ⟨hname, htext⟩ := name_and_operandText_eq heq
  have hform : i.mode.form = j.mode.form := by
    rw [← shape_operandText, htext, shape_operandText]
  have hlookup := lookup_opcode_of_decode h
  have hlookup' := lookup_opcode_of_decode h'
  have hencoding : i.encoding = j.encoding :=
    Encoding.eq_of_mem_documented (Encoding.mem_of_lookup hlookup)
      (Encoding.mem_of_lookup hlookup') hname hform
  have hmode : i.mode = j.mode := congrArg Encoding.mode hencoding
  have hopcode : i.opcode = j.opcode := by
    rw [← Encoding.byte_of_lookup hlookup, hencoding,
      Encoding.byte_of_lookup hlookup']
  have haddress : i.address = j.address := by
    rw [(decodedFrom_of_decode h).1.address, hpc,
      (decodedFrom_of_decode h').1.address]
  rw [bytes_eq_cons, bytes_eq_cons, hopcode,
    operandBytes_eq hmode haddress (operandDigits_eq hmode htext)]

theorem first_of_decode (h : decode r m = (.ok i, next))
    (hlength : 1 < i.encoding.length) : i.first = m.read (r.pc + 1) := by
  have hread := getElem?_bytes_of_decode h hlength
  rw [bytes, List.getElem?_take_of_lt hlength] at hread
  exact Option.some.inj hread

/-- The target that a branch shows is the one that has been found for it. -/
theorem branchTarget_of_decode (h : decode r m = (.ok i, next))
    (hmode : i.mode = .relative) : i.branchTarget = r.branchTarget m := by
  have hlength : 1 < i.encoding.length := by
    rw [Encoding.length_eq_two hmode]
    decide
  have hbehind : r.pc + 2 = r.pc + 1 + 1 := (BitVec.add_assoc r.pc 1 1).symm
  have hfound : .cell (Word.displace (r.pc + 1 + 1) (m.read (r.pc + 1))) =
      Operand.cell (r.branchTarget m) :=
    (Mode.resolve_fst .relative r m).trans
      (Mode.operand_eq_branchTarget rfl r m)
  rw [branchTarget, (decodedFrom_of_decode h).1.address,
    first_of_decode h hlength, hbehind]
  exact Operand.cell.inj hfound

theorem assembly_of_relative (hmode : i.mode = .relative) :
    i.assembly = i.mnemonic.name ++ " $" ++ Hex.word i.branchTarget := by
  have htext : i.operandText = " $" ++ Hex.word i.branchTarget := by
    simp only [operandText, hmode]
  rw [assembly, htext, String.append_assoc]

end Instruction

/--
The assembly text of an instruction tells its bytes to those who know its
address.  That of a branch names the address that the branch goes to.
-/
theorem assembly_tells_bytes_and_targets :
    (∀ r r' m m' i j next next', r.pc = r'.pc →
      Instruction.decode r m = (.ok i, next) →
      Instruction.decode r' m' = (.ok j, next') → i.assembly = j.assembly →
      i.bytes = j.bytes) ∧
    ∀ r m i next, Instruction.decode r m = (.ok i, next) →
      i.mnemonic ∈ Mnemonic.branching →
      i.assembly = i.mnemonic.name ++ " $" ++ Hex.word (r.branchTarget m) ∧
      (Hex.word (r.branchTarget m)).length = 4 ∧
      Numeral.Denotes 16 (Hex.word (r.branchTarget m)).toList
        (r.branchTarget m).toNat ∧
      i.operand = .cell (r.branchTarget m) ∧
      ∀ s, i.mnemonic.taken s.regs.p = true →
        i.execute s = (.ok (), s.goto (r.branchTarget m)) := by
  constructor
  · intro r r' m m' i j next next' hpc hi hj heq
    exact Instruction.bytes_eq_of_assembly_eq hi hj hpc heq
  · intro r m i next h hbranching
    obtain ⟨hfrom, -⟩ := Instruction.decodedFrom_of_decode h
    have hmode : i.mode = .relative :=
      Encoding.mode_eq_relative
        (Encoding.mem_of_lookup hfrom.encoding) hbranching
    have hoperand : i.operand = .cell (r.branchTarget m) := by
      rw [hfrom.operand, Mode.resolve_fst, Mode.operand_eq_branchTarget hmode]
    refine ⟨?_, Hex.length_word _, Hex.denotes_word _, hoperand, ?_⟩
    · rw [Instruction.assembly_of_relative hmode,
        Instruction.branchTarget_of_decode h hmode]
    · intro s htaken
      obtain ⟨f, value, hop, hflag⟩ := Mnemonic.exists_branch hbranching
      rw [hflag, beq_iff_eq] at htaken
      rw [Instruction.execute_of_branch hop hoperand, Machine.branch,
        if_pos htaken]

/-- A branch back across the beginning of memory. -/
def backwardBranch : Instruction :=
  ⟨0x0001, ⟨0xD0, .bne, .relative⟩, .cell 0xFF83, 0xD0, 0x80, 0x00⟩

theorem loads_and_backwardBranch_tell :
    Instruction.decode wrappedRegisters wrappedLoad =
        (.ok (loadFrom 0x0024), wrappedRegisters.advance 2) ∧
      Instruction.decode wrappedRegisters (wrappedLoad.write 0x00FF 0x35) =
        (.ok (loadFrom 0x0025), wrappedRegisters.advance 2) ∧
      (loadFrom 0x0024).assembly = (loadFrom 0x0025).assembly ∧
      (loadFrom 0x0024).bytes = (loadFrom 0x0025).bytes ∧
      Instruction.decode { Registers.powerOn with pc := 0x0001 }
          (Memory.zeroed.load 0x0001 [0xD0, 0x80]) =
        (.ok backwardBranch, { Registers.powerOn with pc := 0x0003 }) ∧
      backwardBranch.assembly = "BNE $FF83" ∧
      ∀ s, s.regs.p.get .zero = false →
        backwardBranch.execute s = (.ok (), s.goto 0xFF83) := by
  have hi : Instruction.decode wrappedRegisters wrappedLoad =
      (.ok (loadFrom 0x0024), wrappedRegisters.advance 2) := rfl
  have hj :
      Instruction.decode wrappedRegisters (wrappedLoad.write 0x00FF 0x35) =
      (.ok (loadFrom 0x0025), wrappedRegisters.advance 2) := rfl
  have hbranch : Instruction.decode { Registers.powerOn with pc := 0x0001 }
      (Memory.zeroed.load 0x0001 [0xD0, 0x80]) =
        (.ok backwardBranch, { Registers.powerOn with pc := 0x0003 }) := rfl
  obtain ⟨hbytes, htargets⟩ := assembly_tells_bytes_and_targets
  obtain ⟨hassembly, -, -, -, hexecute⟩ := htargets _ _ _ _ hbranch (by decide)
  refine ⟨hi, hj, rfl, hbytes _ _ _ _ _ _ _ _ rfl hi hj rfl, hbranch,
    hassembly, ?_⟩
  intro s hzero
  have htaken : Mnemonic.bne.taken s.regs.p = true := by
    rw [Mnemonic.taken, hzero]
    rfl
  exact hexecute s htaken

end Cpu6502
