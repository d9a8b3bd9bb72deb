/-!
# Bytes and words

The processor computes on bytes and addresses memory by words.  Both are bit
vectors, so sums and differences wrap.  A word is made of an offset byte within
a page and the page's number, and is kept in memory with the offset byte first.
-/

namespace Cpu6502

abbrev Byte := BitVec 8

abbrev Word := BitVec 16

namespace Byte

/-- Two bytes of one sign whose sum has the other sign. -/
def signedOverflow (left right sum : Byte) : Bool :=
  (~~~(left ^^^ right) &&& (left ^^^ sum)).msb

end Byte

namespace Word

def ofBytes (low high : Byte) : Word := high ++ low

def low (w : Word) : Byte := w.setWidth 8

def high (w : Word) : Byte := w.extractLsb' 8 8

def zeroPage (offset : Byte) : Word := ofBytes offset 0x00

/-- The address of a byte in page one, where the stack lives. -/
def stackPage (offset : Byte) : Word := ofBytes offset 0x01

def displace (base : Word) (displacement : Byte) : Word :=
  base + displacement.signExtend 16

@[simp] theorem low_ofBytes (l h : Byte) : low (ofBytes l h) = l := by
  simp only [low, ofBytes]
  exact BitVec.setWidth_append_eq_right

@[simp] theorem high_ofBytes (l h : Byte) : high (ofBytes l h) = h := by
  simp only [high, ofBytes]
  exact BitVec.extractLsb'_append_eq_left

@[simp] theorem ofBytes_low_high (w : Word) : ofBytes (low w) (high w) = w := by
  apply BitVec.eq_of_toNat_eq
  simp only [ofBytes, low, high, BitVec.toNat_append, BitVec.toNat_setWidth,
    BitVec.extractLsb'_toNat]
  rw [← Nat.shiftLeft_add_eq_or_of_lt (Nat.mod_lt _ (by decide))]
  simp only [Nat.shiftLeft_eq, Nat.shiftRight_eq_div_pow]
  have h := w.isLt
  omega

theorem toNat_ofBytes (l h : Byte) :
    (ofBytes l h).toNat = l.toNat + 256 * h.toNat := by
  simp only [ofBytes, BitVec.toNat_append]
  rw [← Nat.shiftLeft_add_eq_or_of_lt l.isLt, Nat.shiftLeft_eq]
  omega

theorem ofBytes_injective {l h l' h' : Byte}
    (heq : ofBytes l h = ofBytes l' h') : l = l' ∧ h = h' := by
  constructor
  · rw [← low_ofBytes l h, heq, low_ofBytes]
  · rw [← high_ofBytes l h, heq, high_ofBytes]

theorem displace_injective {base : Word} {b c : Byte}
    (h : displace base b = displace base c) : b = c := by
  have hsigned : b.signExtend 16 = c.signExtend 16 :=
    (BitVec.add_right_inj base).mp h
  apply BitVec.eq_of_toInt_eq
  rw [← BitVec.toInt_signExtend_of_le (by decide : 8 ≤ 16), hsigned,
    BitVec.toInt_signExtend_of_le (by decide)]

end Word

end Cpu6502
