import Cpu6502.Text.Utf8

/-!
# Encoded text

Encoding goes character by character, can be undone, and writes no newline byte
but for a newline.
-/

namespace Cpu6502.Text.Utf8

@[simp] theorem encode_append (s t : String) :
    encode (s ++ t) = encode s ++ encode t := by
  simp [encode]

@[simp] theorem length_encode (s : String) :
    (encode s).length = s.utf8ByteSize := by
  simp [encode]

theorem bytes_encode (s : String) :
    ((encode s).map UInt8.ofBitVec).toByteArray = s.toByteArray := by
  apply ByteArray.ext
  simp [encode, Function.comp_def]

@[simp] theorem decode?_encode (s : String) : decode? (encode s) = some s := by
  simp only [decode?, bytes_encode]
  rw [String.fromUTF8?, dif_pos s.isValidUTF8]
  rfl

theorem mem_encode {s : String} {byte : Byte} (h : byte ∈ encode s) :
    ∃ c ∈ s.toList, byte ∈ (String.utf8EncodeChar c).map UInt8.toBitVec := by
  rw [← String.ofList_toList (s := s)] at h
  simp only [encode, String.toByteArray_ofList, List.utf8Encode,
    List.toList_data_toByteArray, List.map_flatMap, List.mem_flatMap] at h
  exact h

theorem eq_of_newline_eq_ofNat {n : Nat} (hn : n < 256)
    (h : (0x0A : Byte) = (UInt8.ofNat n).toBitVec) : n = 10 := by
  have hnat : 10 = n % 256 := congrArg BitVec.toNat h
  omega

/-- In an encoding of two bytes or more, each byte is at least 0x80. -/
theorem eq_newline_of_mem_utf8EncodeChar {c : Char}
    (h : (0x0A : Byte) ∈ (String.utf8EncodeChar c).map UInt8.toBitVec) :
    c = '\n' := by
  obtain ⟨byte, hbyte, hnewline⟩ := List.mem_map.mp h
  unfold String.utf8EncodeChar at hbyte
  simp only at hbyte
  split at hbyte
  · rw [List.mem_singleton] at hbyte
    subst hbyte
    have hval := eq_of_newline_eq_ofNat (by omega) hnewline.symm
    apply Char.ext
    apply UInt32.toNat_inj.mp
    exact hval
  · exfalso
    have hlarge : ∃ n, 128 ≤ n ∧ n < 256 ∧ byte = UInt8.ofNat n := by
      split at hbyte
      · simp only [List.mem_cons, List.not_mem_nil, or_false] at hbyte
        rcases hbyte with h | h
        all_goals exact ⟨_, by omega, by omega, h⟩
      · split at hbyte
        · simp only [List.mem_cons, List.not_mem_nil, or_false] at hbyte
          rcases hbyte with h | h | h
          all_goals exact ⟨_, by omega, by omega, h⟩
        · simp only [List.mem_cons, List.not_mem_nil, or_false] at hbyte
          rcases hbyte with h | h | h | h
          all_goals exact ⟨_, by omega, by omega, h⟩
    obtain ⟨n, hlow, hn, rfl⟩ := hlarge
    have := eq_of_newline_eq_ofNat hn hnewline.symm
    omega

theorem newline_not_mem_encode {s : String} (h : '\n' ∉ s.toList) :
    0x0A ∉ encode s := by
  intro hmem
  obtain ⟨c, hc, hbyte⟩ := mem_encode hmem
  rw [eq_newline_of_mem_utf8EncodeChar hbyte] at hc
  exact h hc

end Cpu6502.Text.Utf8
