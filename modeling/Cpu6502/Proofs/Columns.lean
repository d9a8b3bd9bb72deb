import Mathlib.Algebra.GroupWithZero.Nat
import Cpu6502.Text.Blank
import Cpu6502.Text.Columns
import Cpu6502.Text.Hex

/-!
# Columns of composed text

A text that is put together from pieces has each piece between the columns at
which it was put down, whatever the other pieces are, as long as their lengths
in bytes are right.
-/

namespace Cpu6502.Text

def byteLength (cs : List Char) : Nat :=
  (cs.map Char.utf8Size).sum

@[simp] theorem byteLength_nil : byteLength [] = 0 := rfl

@[simp] theorem byteLength_cons (c : Char) (cs : List Char) :
    byteLength (c :: cs) = c.utf8Size + byteLength cs := rfl

@[simp] theorem byteLength_append (cs ds : List Char) :
    byteLength (cs ++ ds) = byteLength cs + byteLength ds := by
  simp [byteLength]

theorem byteLength_flatten (pieces : List (List Char)) :
    byteLength pieces.flatten = (pieces.map byteLength).sum := by
  induction pieces with
  | nil => rfl
  | cons piece pieces ih => simp [ih]

theorem byteLength_toList (s : String) :
    byteLength s.toList = s.utf8ByteSize := by
  have h : ∀ cs : List Char, byteLength cs =
      (String.ofList cs).utf8ByteSize := by
    intro cs
    induction cs with
    | nil => rfl
    | cons c cs ih =>
        rw [byteLength_cons, ih, ← List.singleton_append, String.ofList_append,
          String.utf8ByteSize_append, ← String.singleton_eq_ofList,
          String.utf8ByteSize_singleton]
  rw [h, String.ofList_toList]

theorem length_le_byteLength (cs : List Char) : cs.length ≤ byteLength cs := by
  induction cs with
  | nil => exact Nat.le_refl 0
  | cons c cs ih =>
      have hsize := c.utf8Size_pos
      rw [List.length_cons, byteLength_cons]
      omega

/-- Only characters of ASCII take one byte. -/
theorem byteLength_eq_length_iff {cs : List Char} :
    byteLength cs = cs.length ↔ ∀ c ∈ cs, c.toNat < 128 := by
  induction cs with
  | nil => simp
  | cons c cs ih =>
      have hsize := c.utf8Size_pos
      have hlength := length_le_byteLength cs
      have hone : c.utf8Size = 1 ↔ c.toNat < 128 :=
        Char.utf8Size_eq_one_iff.trans Nat.lt_succ_iff.symm
      rw [List.forall_mem_cons, ← ih, ← hone, byteLength_cons, List.length_cons]
      omega

theorem byteLength_flatten_eq_length {pieces : List (List Char)}
    (h : ∀ piece ∈ pieces, byteLength piece = piece.length) :
    byteLength pieces.flatten = pieces.flatten.length := by
  rw [byteLength_flatten, List.length_flatten, List.map_congr_left h]

theorem dropBytes?_append (front cs : List Char) :
    dropBytes? (byteLength front) (front ++ cs) = some cs := by
  induction front with
  | nil => cases cs <;> rfl
  | cons c front ih =>
      have hsize := c.utf8Size_pos
      obtain ⟨n, hn⟩ := Nat.exists_eq_add_of_le' hsize
      rw [byteLength_cons, hn, Nat.add_right_comm, List.cons_append,
        dropBytes?, hn, if_pos (by omega), ← ih]
      congr 1
      omega

theorem takeBytes?_append (front cs : List Char) :
    takeBytes? (byteLength front) (front ++ cs) = some front := by
  induction front with
  | nil => cases cs <;> rfl
  | cons c front ih =>
      have hsize := c.utf8Size_pos
      obtain ⟨n, hn⟩ := Nat.exists_eq_add_of_le' hsize
      have hrest : n + byteLength front + 1 - (n + 1) = byteLength front := by
        omega
      rw [byteLength_cons, hn, Nat.add_right_comm, List.cons_append,
        takeBytes?, hn, if_pos (by omega), hrest, ih]
      rfl

theorem dropBytes?_eq_some_iff {n : Nat} {cs back : List Char} :
    dropBytes? n cs = some back ↔
      ∃ front, cs = front ++ back ∧ byteLength front = n := by
  constructor
  · intro h
    fun_induction dropBytes? n cs with
    | case1 cs =>
        cases h
        exact ⟨[], rfl, rfl⟩
    | case2 => cases h
    | case3 n c cs hsize ih =>
        obtain ⟨front, rfl, hfront⟩ := ih h
        exact ⟨c :: front, rfl, by rw [byteLength_cons]; omega⟩
    | case4 => cases h
  · rintro ⟨front, rfl, rfl⟩
    exact dropBytes?_append front back

theorem takeBytes?_eq_some_iff {n : Nat} {cs front : List Char} :
    takeBytes? n cs = some front ↔
      ∃ back, cs = front ++ back ∧ byteLength front = n := by
  constructor
  · intro h
    fun_induction takeBytes? n cs generalizing front with
    | case1 cs =>
        cases h
        exact ⟨cs, rfl, rfl⟩
    | case2 => cases h
    | case3 n c cs hsize ih =>
        obtain ⟨rest, hrest, rfl⟩ := Option.map_eq_some_iff.mp h
        obtain ⟨back, rfl, hlength⟩ := ih hrest
        exact ⟨back, rfl, by rw [byteLength_cons]; omega⟩
    | case4 => cases h
  · rintro ⟨back, rfl, rfl⟩
    exact takeBytes?_append front back

theorem columns?_eq_some_iff {first last : Nat} (h : first ≤ last)
    {cs part : List Char} :
    columns? first last cs = some part ↔
      ∃ front back, cs = front ++ part ++ back ∧ byteLength front = first ∧
        first + byteLength part = last := by
  simp only [columns?, Option.bind_eq_some_iff, dropBytes?_eq_some_iff,
    takeBytes?_eq_some_iff]
  constructor
  · rintro ⟨_, ⟨front, rfl, hfront⟩, back, rfl, hpart⟩
    exact ⟨front, back, by rw [List.append_assoc], hfront, by omega⟩
  · rintro ⟨front, back, rfl, hfront, hpart⟩
    exact ⟨part ++ back, ⟨front, List.append_assoc front part back, hfront⟩,
      back, rfl, by omega⟩

/-- The part of a text between two columns, both of them between characters. -/
def Between (first last : Nat) (text part : String) : Prop :=
  ∃ front back, text = front ++ part ++ back ∧ front.utf8ByteSize = first ∧
    first + part.utf8ByteSize = last

theorem columns?_toList_eq_some_iff {first last : Nat} (h : first ≤ last)
    {text part : String} :
    columns? first last text.toList = some part.toList ↔
      Between first last text part := by
  rw [columns?_eq_some_iff h]
  constructor
  · rintro ⟨front, back, htext, hfront, hpart⟩
    refine ⟨String.ofList front, String.ofList back, ?_, ?_, ?_⟩
    · apply String.toList_injective
      simp [htext]
    · rw [← byteLength_toList, String.toList_ofList, hfront]
    · rw [← byteLength_toList, hpart]
  · rintro ⟨front, back, rfl, hfront, hpart⟩
    refine ⟨front.toList, back.toList, by simp, ?_, ?_⟩
    · rw [byteLength_toList, hfront]
    · rw [byteLength_toList, hpart]

theorem columns?_flatten {pieces : List (List Char)} {widths : List Nat}
    (hwidths : pieces.map byteLength = widths) (k : Nat) {piece : List Char}
    {first last : Nat} (hpiece : pieces[k]? = some piece)
    (hfirst : (widths.take k).sum = first)
    (hlast : (widths.take (k + 1)).sum = last) :
    columns? first last pieces.flatten = some piece := by
  obtain ⟨hk, rfl⟩ := List.getElem?_eq_some_iff.mp hpiece
  have hpieces : pieces.flatten =
      (pieces.take k).flatten ++
        (pieces[k] ++ (pieces.drop (k + 1)).flatten) := by
    rw [← List.flatten_cons, ← List.flatten_append,
      ← List.drop_eq_getElem_cons hk, List.take_append_drop]
  have hstart : byteLength (pieces.take k).flatten = first := by
    rw [byteLength_flatten, List.map_take, hwidths, hfirst]
  have hend : first + byteLength pieces[k] = last := by
    rw [← hlast, ← hfirst, ← hwidths,
      List.take_succ_eq_append_getElem (by simpa using hk)]
    simp
  rw [columns?_eq_some_iff (by omega)]
  exact ⟨_, _, by rw [hpieces, List.append_assoc], hstart, hend⟩

theorem toList_padEnd (width : Nat) (s : String) :
    (padEnd width s).toList =
      s.toList ++ List.replicate (width - s.length) ' ' := by
  simp [padEnd, spaces]

theorem length_padEnd {width : Nat} {s : String} (hs : s.length ≤ width) :
    (padEnd width s).length = width := by
  rw [← String.length_toList, toList_padEnd, List.length_append,
    List.length_replicate, String.length_toList]
  omega

theorem byteLength_padEnd {width : Nat} {s : String}
    (hplain : byteLength s.toList = s.length)
    (hs : s.length ≤ width) : byteLength (padEnd width s).toList = width := by
  have hblanks : ∀ n, byteLength (List.replicate n ' ') = n := by
    intro n
    simp [byteLength, Char.utf8Size]
  rw [toList_padEnd, byteLength_append, hblanks, hplain]
  omega

/-- Only blanks behind the last character that is not blank are taken off. -/
theorem toList_trimEnd {s : String} {front rest : List Char} {c : Char}
    (hs : s.toList = front ++ c :: rest) (hc : isBlank c = false) :
    ∃ rest', (trimEnd s).toList = front ++ c :: rest' := by
  have hreverse : s.toList.reverse = rest.reverse ++ c :: front.reverse := by
    simp [hs]
  rw [trimEnd, String.toList_ofList, hreverse, List.dropWhile_append]
  split
  · refine ⟨[], ?_⟩
    simp [hc]
  · refine ⟨(rest.reverse.dropWhile isBlank).reverse, ?_⟩
    simp

namespace Hex

theorem utf8Size_digit (n : BitVec 4) : (digit n).utf8Size = 1 := by
  revert n
  decide

theorem isBlank_digit (n : BitVec 4) : isBlank (digit n) = false := by
  revert n
  decide

theorem digit_ne_newline (n : BitVec 4) : digit n ≠ '\n' := by
  revert n
  decide

@[simp] theorem byteLength_byte (b : Byte) :
    byteLength (byte b).toList = 2 := by
  simp [toList_byte, utf8Size_digit]

@[simp] theorem byteLength_word (w : Word) :
    byteLength (word w).toList = 4 := by
  simp [toList_word, utf8Size_digit]

@[simp] theorem length_byte (b : Byte) : (byte b).length = 2 := by
  simp [byte]

@[simp] theorem length_word (w : Word) : (word w).length = 4 := by
  simp [word]

@[simp] theorem newline_not_mem_byte (b : Byte) : '\n' ∉ (byte b).toList := by
  simp [toList_byte, (digit_ne_newline _).symm]

@[simp] theorem newline_not_mem_word (w : Word) : '\n' ∉ (word w).toList := by
  simp [toList_word, (digit_ne_newline _).symm]

end Hex

end Cpu6502.Text
