import Cpu6502.Proofs.Decoding
import Cpu6502.Proofs.Stretch

/-!
# Addressing modes in numbers

Where the operand of an instruction lies, told in numbers: memory is a sequence
of bytes that starts again behind its end, words are made of two bytes, and what
has to stay in page zero is taken modulo the size of a page.  Decoding finds the
operand that these rules give, and keeps the bytes that the instruction is made
of.
-/

namespace Cpu6502

namespace Memory

def byteAt (m : Memory) (n : Nat) : Nat :=
  (m.read (BitVec.ofNat 16 n)).toNat

/-- The number with its low byte at one address and its high byte at another. -/
def wordAt (m : Memory) (low high : Nat) : Nat :=
  m.byteAt low + 256 * m.byteAt high

end Memory

def signedByte (n : Nat) : Int :=
  if n < 128 then n else n - 256

/-- The operand of an instruction whose opcode is at the program counter. -/
def Mode.operand (mode : Mode) (r : Registers) (m : Memory) : Operand :=
  let pc := r.pc.toNat
  let first := m.byteAt (pc + 1)
  let word := m.wordAt (pc + 1) (pc + 2)
  let cell (n : Nat) : Operand := .cell (BitVec.ofNat 16 n)
  match mode with
  | .implicit => .absent
  | .accumulator => .accumulator
  | .immediate => cell (pc + 1)
  | .zeroPage => cell first
  | .zeroPageX => cell ((first + r.x.toNat) % 256)
  | .zeroPageY => cell ((first + r.y.toNat) % 256)
  | .relative => .cell (BitVec.ofInt 16 (pc + 2 + signedByte first))
  | .absolute => cell word
  | .absoluteX => cell (word + r.x.toNat)
  | .absoluteY => cell (word + r.y.toNat)
  | .indirect => cell (m.wordAt word (word + 1))
  | .indexedIndirect =>
      let pointer := (first + r.x.toNat) % 256
      cell (m.wordAt pointer ((pointer + 1) % 256))
  | .indirectIndexed => cell (m.wordAt first ((first + 1) % 256) + r.y.toNat)

namespace Word

theorem ofBytes_eq_ofNat (low high : Byte) :
    ofBytes low high = BitVec.ofNat 16 (low.toNat + 256 * high.toNat) := by
  rw [← toNat_ofBytes, BitVec.ofNat_toNat, BitVec.setWidth_eq]

theorem low_eq_ofNat (w : Word) : low w = BitVec.ofNat 8 (w.toNat % 256) := by
  apply BitVec.eq_of_toNat_eq
  simp [low]

theorem high_eq_ofNat (w : Word) : high w = BitVec.ofNat 8 (w.toNat / 256) := by
  apply BitVec.eq_of_toNat_eq
  simp [high, Nat.shiftRight_eq_div_pow]

theorem zeroPage_eq_ofNat (offset : Byte) :
    zeroPage offset = BitVec.ofNat 16 offset.toNat := by
  simp [zeroPage, ofBytes_eq_ofNat]

theorem displace_ofNat (n : Nat) (displacement : Byte) :
    displace (BitVec.ofNat 16 n) displacement =
      BitVec.ofInt 16 (n + signedByte displacement.toNat) := by
  have hsigned : displacement.toInt = signedByte displacement.toNat := by
    rw [BitVec.toInt_eq_toNat_cond, signedByte]
    split <;> split <;> omega
  rw [displace, BitVec.signExtend, hsigned, BitVec.ofInt_add,
    BitVec.ofInt_natCast]

end Word

namespace Memory

variable (m : Memory)

theorem byteAt_add (address : Word) (n : Nat) :
    m.byteAt (address.toNat + n) =
      (m.read (address + BitVec.ofNat 16 n)).toNat := by
  rw [byteAt, BitVec.ofNat_add, BitVec.ofNat_toNat, BitVec.setWidth_eq]

theorem byteAt_offset (offset : Byte) :
    m.byteAt offset.toNat = (m.read (Word.zeroPage offset)).toNat := by
  rw [byteAt, Word.zeroPage_eq_ofNat]

theorem toNat_readWord (address : Word) :
    (m.readWord address).toNat =
      m.wordAt address.toNat (address.toNat + 1) := by
  rw [readWord, Word.toNat_ofBytes, wordAt, ← Nat.add_zero address.toNat,
    Nat.add_assoc, byteAt_add, byteAt_add, BitVec.add_zero]
  rfl

theorem toNat_readZeroPageWord (offset : Byte) :
    (m.readZeroPageWord offset).toNat =
      m.wordAt offset.toNat ((offset.toNat + 1) % 256) := by
  have hnext : (offset + 1).toNat = (offset.toNat + 1) % 256 :=
    BitVec.toNat_add offset 1
  rw [readZeroPageWord, Word.toNat_ofBytes, wordAt, ← hnext, byteAt_offset,
    byteAt_offset]

end Memory

theorem Mode.resolve_fst (mode : Mode) (r : Registers) (m : Memory) :
    (mode.resolve (r.advance 1) m).1 = mode.operand r m := by
  have hfirst : m.byteAt (r.pc.toNat + 1) = (m.read (r.pc + 1)).toNat :=
    m.byteAt_add r.pc 1
  have hword : m.wordAt (r.pc.toNat + 1) (r.pc.toNat + 2) =
      (m.readWord (r.pc + 1)).toNat := by
    rw [Memory.readWord, Word.toNat_ofBytes, Memory.wordAt, hfirst,
      m.byteAt_add, BitVec.add_assoc]
    rfl
  simp only [operand, hfirst, hword]
  cases mode with
  | implicit => rfl
  | accumulator => rfl
  | immediate => simp [resolve, Registers.advance, BitVec.ofNat_add]
  | zeroPage =>
      simp [resolve, Registers.advance, Registers.fetch, Word.zeroPage_eq_ofNat]
  | zeroPageX =>
      simp [resolve, Registers.advance, Registers.fetch, Word.zeroPage_eq_ofNat]
  | zeroPageY =>
      simp [resolve, Registers.advance, Registers.fetch, Word.zeroPage_eq_ofNat]
  | relative =>
      have hbase : r.pc + 1 + 1 = BitVec.ofNat 16 (r.pc.toNat + 2) := by
        simp [BitVec.ofNat_add, BitVec.add_assoc]
      simp only [resolve, Registers.advance, Registers.fetch, hbase,
        Word.displace_ofNat]
      rfl
  | absolute => simp [resolve, Registers.advance, Registers.fetchWord]
  | absoluteX =>
      simp [resolve, Registers.advance, Registers.fetchWord, BitVec.ofNat_add]
  | absoluteY =>
      simp [resolve, Registers.advance, Registers.fetchWord, BitVec.ofNat_add]
  | indirect =>
      rw [← Memory.toNat_readWord]
      simp [resolve, Registers.advance, Registers.fetchWord]
  | indexedIndirect =>
      rw [← BitVec.toNat_add, ← Memory.toNat_readZeroPageWord]
      simp [resolve, Registers.advance, Registers.fetch]
  | indirectIndexed =>
      rw [← Memory.toNat_readZeroPageWord]
      simp [resolve, Registers.advance, Registers.fetch, BitVec.ofNat_add]

namespace Instruction

variable {r next : Registers} {m : Memory} {i : Instruction}

theorem bytes_of_decode (h : decode r m = (.ok i, next)) :
    i.bytes = m.stretch r.pc i.encoding.length := by
  have hlookup := (decodedFrom_of_decode h).1.encoding
  have hlength := i.encoding.length_cases
  generalize i.encoding = e at hlookup hlength ⊢
  simp only [decode, Registers.fetch, hlookup, Prod.mk.injEq,
    Except.ok.injEq] at h
  obtain ⟨rfl, -⟩ := h
  rcases hlength with h | h | h <;>
    simp [bytes, Memory.stretch, h, List.range_succ]

theorem getElem?_bytes_of_decode (h : decode r m = (.ok i, next)) {k : Nat}
    (hk : k < i.encoding.length) :
    i.bytes[k]? = some (m.read (r.pc + BitVec.ofNat 16 k)) := by
  rw [bytes_of_decode h, Memory.getElem?_stretch m r.pc hk]

theorem exists_decode {e : Encoding}
    (h : Encoding.lookup (m.read r.pc) = some e) :
    ∃ i, decode r m = (.ok i, r.advance (BitVec.ofNat 16 e.length)) ∧
      i.encoding = e ∧
      i.operand = e.mode.operand r m := by
  obtain ⟨i, next, hdecode⟩ := decode_of_lookup_eq_some h
  obtain ⟨hfrom, hnext⟩ := decodedFrom_of_decode hdecode
  obtain rfl : i.encoding = e := by
    rw [← Option.some.injEq, ← hfrom.encoding, h]
  exact ⟨i, by rw [hdecode, hnext], rfl,
    hfrom.operand.trans (Mode.resolve_fst ..)⟩

end Instruction

/--
A documented instruction is decoded from the bytes at the program counter, which
it is moved past, and its operand is the one that its addressing mode tells in
numbers.
-/
theorem decoding_finds_operands {r : Registers} {m : Memory} {e : Encoding}
    (h : Encoding.lookup (m.read r.pc) = some e) :
    ∃ i, Instruction.decode r m =
      (.ok i, { r with pc := r.pc + BitVec.ofNat 16 e.length }) ∧
      i.encoding = e ∧ i.bytes = m.stretch r.pc e.length ∧
      i.operand = e.mode.operand r m := by
  obtain ⟨i, hdecode, rfl, hoperand⟩ := Instruction.exists_decode h
  exact ⟨i, hdecode, rfl, Instruction.bytes_of_decode hdecode, hoperand⟩

/-- A load whose bytes, pointer and operand lie across the end of a page. -/
def wrappedLoad : Memory :=
  (Memory.zeroed.load 0xFFFF [0xB1, 0xFF]).write 0x00FF 0x34

theorem wrappedLoad_decodes :
    Encoding.lookup (wrappedLoad.read 0xFFFF) =
      some ⟨0xB1, .lda, .indirectIndexed⟩ ∧
      ∃ i, Instruction.decode
          { Registers.powerOn with pc := 0xFFFF, y := 0xF0 } wrappedLoad =
          (.ok i, { Registers.powerOn with pc := 0x0001, y := 0xF0 }) ∧
        i.bytes = [0xB1, 0xFF] ∧ i.operand = .cell 0x0024 := by
  have hlookup : Encoding.lookup (wrappedLoad.read 0xFFFF) =
      some ⟨0xB1, .lda, .indirectIndexed⟩ := rfl
  obtain ⟨i, hdecode, -, hbytes, hoperand⟩ := decoding_finds_operands
    (r := { Registers.powerOn with pc := 0xFFFF, y := 0xF0 }) hlookup
  exact ⟨hlookup, i, hdecode, hbytes, hoperand⟩

end Cpu6502
