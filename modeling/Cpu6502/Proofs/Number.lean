import Mathlib.Data.Nat.Digits.Defs
import Mathlib.Algebra.Ring.Int.Defs
import Cpu6502.Machine

/-!
# Numbers of several bytes

A number lies in memory as a row of bytes, the lowest first.  It may also be
read in two's complement, where the complement of all bytes is the number's
complement, and a byte more at the low end makes it 256 times as large.
-/

namespace Cpu6502

def number (bytes : List Byte) : Nat :=
  Nat.ofDigits 256 (bytes.map BitVec.toNat)

/-- The number that the bytes are in two's complement. -/
def signedNumber (bytes : List Byte) : Int :=
  (BitVec.ofNat (8 * bytes.length) (number bytes)).toInt

/-- The numbers that `n` bytes can be in two's complement. -/
def SignedFits (n : Nat) (x : Int) : Prop :=
  -2 ^ (8 * n - 1) ≤ x ∧ x ≤ 2 ^ (8 * n - 1) - 1

instance (n : Nat) (x : Int) : Decidable (SignedFits n x) :=
  inferInstanceAs (Decidable (_ ∧ _))

@[simp] theorem number_nil : number [] = 0 := rfl

@[simp] theorem number_cons (byte : Byte) (bytes : List Byte) :
    number (byte :: bytes) = byte.toNat + 256 * number bytes := by
  simp [number, Nat.ofDigits_cons]

theorem number_lt (bytes : List Byte) : number bytes < 256 ^ bytes.length := by
  induction bytes with
  | nil => simp
  | cons byte bytes ih =>
      have hbyte := byte.isLt
      rw [number_cons, List.length_cons, Nat.pow_succ]
      omega

theorem number_injective {xs ys : List Byte} (hlength : xs.length = ys.length)
    (h : number xs = number ys) : xs = ys := by
  have hdigit (bytes : List Byte) : ∀ d ∈ bytes.map BitVec.toNat, d < 256 := by
    intro d hd
    obtain ⟨byte, -, rfl⟩ := List.mem_map.mp hd
    exact byte.isLt
  have hdigits :=
    Nat.ofDigits_inj_of_len_eq (by decide) (by simpa using hlength) (hdigit xs)
    (hdigit ys) h
  exact (List.map_inj_right fun _ _ => BitVec.eq_of_toNat_eq).mp hdigits

theorem number_complement (bytes : List Byte) :
    number (bytes.map (~~~·)) + number bytes + 1 = 256 ^ bytes.length := by
  induction bytes with
  | nil => rfl
  | cons byte bytes ih =>
      have hbyte := byte.isLt
      have hnot : (~~~byte).toNat = 255 - byte.toNat := BitVec.toNat_not
      rw [List.map_cons, number_cons, number_cons, List.length_cons,
        Nat.pow_succ]
      omega

theorem signedNumber_cases (bytes : List Byte) :
    (2 * number bytes < 256 ^ bytes.length ∧
      signedNumber bytes = number bytes) ∨
      (256 ^ bytes.length ≤ 2 * number bytes ∧
        signedNumber bytes = number bytes - (256 ^ bytes.length : Nat)) := by
  have hpow : 2 ^ (8 * bytes.length) = 256 ^ bytes.length := by
    rw [Nat.pow_mul]
  have hmod : (BitVec.ofNat (8 * bytes.length) (number bytes)).toNat =
      number bytes := by
    rw [BitVec.toNat_ofNat, hpow, Nat.mod_eq_of_lt (number_lt bytes)]
  rw [signedNumber, BitVec.toInt_eq_toNat_cond, hmod, hpow]
  by_cases h : 2 * number bytes < 256 ^ bytes.length
  · exact .inl ⟨h, if_pos h⟩
  · exact .inr ⟨Nat.not_lt.mp h, if_neg h⟩

theorem signedNumber_singleton (byte : Byte) :
    signedNumber [byte] = byte.toInt := by
  have hbyte : number [byte] = byte.toNat := by simp
  rw [signedNumber, hbyte, BitVec.ofNat_toNat]
  exact congrArg BitVec.toInt (BitVec.setWidth_eq byte)

/-- The sign is in the highest byte, whatever stands at the low end. -/
theorem signedNumber_cons (byte : Byte) {bytes : List Byte} (h : bytes ≠ []) :
    signedNumber (byte :: bytes) = byte.toNat + 256 * signedNumber bytes := by
  have hbyte := byte.isLt
  obtain ⟨next, rest, rfl⟩ := List.exists_cons_of_ne_nil h
  have hlong := signedNumber_cases (byte :: next :: rest)
  have hshort := signedNumber_cases (next :: rest)
  rw [number_cons byte] at hlong
  simp only [List.length_cons, Nat.pow_succ] at hlong hshort
  generalize 256 ^ rest.length = m at hlong hshort
  omega

theorem signedNumber_complement {bytes : List Byte} (h : bytes ≠ []) :
    signedNumber (bytes.map (~~~·)) = -1 - signedNumber bytes := by
  have hsum := number_complement bytes
  have hcomplement := signedNumber_cases (bytes.map (~~~·))
  have hcases := signedNumber_cases bytes
  obtain ⟨next, rest, rfl⟩ := List.exists_cons_of_ne_nil h
  rw [List.length_map] at hcomplement
  simp only [List.length_cons, Nat.pow_succ] at hsum hcomplement hcases
  generalize 256 ^ rest.length = m at hsum hcomplement hcases
  omega

theorem signedFits_cons {n d : Nat} {x : Int} (hn : 0 < n) (hd : d < 256) :
    SignedFits (n + 1) (d + 256 * x) ↔ SignedFits n x := by
  have hpow : (2 : Int) ^ (8 * (n + 1) - 1) = 256 * 2 ^ (8 * n - 1) := by
    rw [show 8 * (n + 1) - 1 = 8 + (8 * n - 1) by omega, pow_add]
    rfl
  unfold SignedFits
  rw [hpow]
  omega

end Cpu6502
