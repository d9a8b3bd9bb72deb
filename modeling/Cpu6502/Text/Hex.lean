import Cpu6502.Word
import Cpu6502.Text.Numeral

/-!
# Hexadecimal

Bytes and words are written in upper-case digits at their full width and read
back from numerals of any length that stay in range.
-/

namespace Cpu6502.Text.Hex

open Numeral

def digit (n : BitVec 4) : Char :=
  Char.ofNat (if n.toNat < 10 then 48 + n.toNat else 55 + n.toNat)

def byte (b : Byte) : String :=
  String.ofList [digit (b.extractLsb' 4 4), digit (b.setWidth 4)]

def word (w : Word) : String :=
  byte (Word.high w) ++ byte (Word.low w)

def read? (width : Nat) (cs : List Char) : Option (BitVec width) :=
  match Numeral.read 16 (1 <<< width) cs with
  | .ok n => some (BitVec.ofNat width n)
  | .error _ => none

/-- The number with the given digits, behind digits of value `n`. -/
def value (n : Nat) : List (BitVec 4) → Nat
  | [] => n
  | d :: ds => value (16 * n + d.toNat) ds

theorem le_value (n : Nat) (ds : List (BitVec 4)) : n ≤ value n ds := by
  induction ds generalizing n with
  | nil => exact Nat.le_refl n
  | cons d ds ih => exact Nat.le_trans (by omega) (ih (16 * n + d.toNat))

theorem digitValue?_digit (n : BitVec 4) :
    digitValue? (digit n) = some n.toNat := by
  revert n
  decide

theorem digit_ne_plus (n : BitVec 4) : digit n ≠ '+' := by
  revert n
  decide

theorem digit?_digit (n : BitVec 4) : digit? 16 (digit n) = some n.toNat := by
  have h := n.isLt
  simp only [digit?, digitValue?_digit, Option.filter_some, decide_eq_true_eq]
  rw [if_pos (by omega)]

theorem readDigits_digits {limit n : Nat} {ds : List (BitVec 4)}
    (h : value n ds < limit) :
    readDigits 16 limit n (ds.map digit) = .ok (value n ds) := by
  induction ds generalizing n with
  | nil => rfl
  | cons d ds ih =>
      have hd := Nat.lt_of_le_of_lt (le_value (16 * n + d.toNat) ds) h
      simp only [List.map_cons, readDigits, digit?_digit, if_pos hd]
      exact ih h

theorem read_digits {limit : Nat} {d : BitVec 4} {ds : List (BitVec 4)}
    (h : value 0 (d :: ds) < limit) :
    Numeral.read 16 limit ((d :: ds).map digit) = .ok (value 0 (d :: ds)) := by
  rw [← readDigits_digits h]
  simp [Numeral.read, digit_ne_plus]

theorem toList_byte (b : Byte) :
    (byte b).toList = [b.extractLsb' 4 4, b.setWidth 4].map digit := by
  simp [byte]

theorem value_byte (b : Byte) (n : Nat) :
    value n [b.extractLsb' 4 4, b.setWidth 4] = 256 * n + b.toNat := by
  have h := b.isLt
  simp only [value, BitVec.extractLsb'_toNat, BitVec.toNat_setWidth,
    Nat.shiftRight_eq_div_pow]
  omega

theorem read?_byte (b : Byte) : read? 8 (byte b).toList = some b := by
  have h := value_byte b 0
  rw [read?, toList_byte, read_digits (by rw [h]; simpa using b.isLt), h]
  simp

theorem toList_word (w : Word) :
    (word w).toList = [(Word.high w).extractLsb' 4 4, (Word.high w).setWidth 4,
      (Word.low w).extractLsb' 4 4, (Word.low w).setWidth 4].map digit := by
  simp [word, toList_byte]

theorem read?_word (w : Word) : read? 16 (word w).toList = some w := by
  have h : value 0 [(Word.high w).extractLsb' 4 4, (Word.high w).setWidth 4,
      (Word.low w).extractLsb' 4 4, (Word.low w).setWidth 4] = w.toNat := by
    have hh := value_byte (Word.high w) 0
    have hl := value_byte (Word.low w) (Word.high w).toNat
    have hw := Word.toNat_ofBytes (Word.low w) (Word.high w)
    rw [Word.ofBytes_low_high] at hw
    simp only [value] at hh hl ⊢
    omega
  rw [read?, toList_word, read_digits (by rw [h]; simpa using w.isLt), h]
  simp

theorem byte_injective {b c : Byte} (h : byte b = byte c) : b = c := by
  rw [← Option.some.injEq, ← read?_byte, h, read?_byte]

theorem word_injective {v w : Word} (h : word v = word w) : v = w := by
  rw [← Option.some.injEq, ← read?_word, h, read?_word]

end Cpu6502.Text.Hex
