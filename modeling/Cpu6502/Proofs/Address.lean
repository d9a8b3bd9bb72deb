import Mathlib.Data.List.Basic
import Cpu6502.Address
import Cpu6502.Proofs.Numeral

/-!
# What address texts denote

An address text is a hexadecimal numeral behind its marks.  The marks are taken
off from the front as far as they reach, and this leaves the numeral whole: a
numeral may begin with the zero of a mark, but the letter of a mark is no digit.
So reading accepts the texts that denote the number of a word and no others.
-/

namespace Cpu6502

open Text

namespace Address

/-- A zero and the letter, as often as the count says. -/
def marks (letter : Char) (count : Nat) : List Char :=
  (List.replicate count ['0', letter]).flatten

/--
Dollar signs, then `0x`, then `0X`, each any number of times, and behind them a
numeral with at most one plus sign.
-/
def Denotes (text : List Char) (n : Nat) : Prop :=
  ∃ dollars lower upper numeral,
    text = List.replicate dollars '$' ++
      (marks 'x' lower ++ (marks 'X' upper ++ numeral)) ∧
      Numeral.Denotes 16 numeral n

theorem marks_succ_append (letter : Char) (count : Nat) (rest : List Char) :
    marks letter (count + 1) ++ rest =
      '0' :: letter :: (marks letter count ++ rest) := by
  simp [marks, List.replicate_succ]

theorem mem_marks {letter c : Char} {count : Nat} (h : c ∈ marks letter count) :
    c = '0' ∨ c = letter := by
  obtain ⟨mark, hmark, hc⟩ := List.mem_flatten.mp h
  rw [List.eq_of_mem_replicate hmark] at hc
  simpa using hc

theorem exists_eq_marks_append (letter : Char) (text : List Char) :
    ∃ count, text = marks letter count ++ dropMark letter text := by
  fun_induction dropMark letter text with
  | case1 c d cs hmark ih =>
      obtain ⟨rfl, rfl⟩ := hmark
      obtain ⟨count, hcount⟩ := ih
      exact ⟨count + 1, by rw [marks_succ_append, ← hcount]⟩
  | case2 | case3 => exact ⟨0, rfl⟩

theorem dropMark_marks_append (letter : Char) (count : Nat) (rest : List Char) :
    dropMark letter (marks letter count ++ rest) = dropMark letter rest := by
  induction count with
  | zero => rfl
  | succ count ih => rw [marks_succ_append, dropMark, if_pos ⟨rfl, rfl⟩, ih]

theorem dropMark_of_not_mem {letter : Char} {text : List Char}
    (h : letter ∉ text) : dropMark letter text = text := by
  fun_cases dropMark letter text with
  | case1 c d cs hmark => simp [hmark.2] at h
  | case2 | case3 => rfl

theorem exists_eq_dollars_append (text : List Char) :
    ∃ count, text = List.replicate count '$' ++ text.dropWhile (· == '$') := by
  refine ⟨(text.takeWhile (· == '$')).length, ?_⟩
  have hdollars : ∀ c ∈ text.takeWhile (· == '$'), c = '$' := by
    intro c hc
    simpa using List.all_eq_true.mp List.all_takeWhile c hc
  rw [← List.eq_replicate_of_mem hdollars, List.takeWhile_append_dropWhile]

theorem dropWhile_dollars_append {rest : List Char} (h : '$' ∉ rest)
    (count : Nat) :
    (List.replicate count '$' ++ rest).dropWhile (· == '$') = rest := by
  rw [List.dropWhile_append_of_pos (by simp)]
  cases rest with
  | nil => rfl
  | cons c rest =>
      have hc : c ≠ '$' := fun hc => h (by simp [hc])
      simp [hc]

/-- Taking off the marks loses nothing of the numeral. -/
theorem denotes_iff {text : List Char} {n : Nat} :
    Denotes text n ↔
      Numeral.Denotes 16
        (dropMark 'X' (dropMark 'x' (text.dropWhile (· == '$')))) n := by
  constructor
  · rintro ⟨dollars, lower, upper, numeral, rfl, hnumeral⟩
    have hdollar : '$' ∉ numeral :=
      hnumeral.not_mem (Nat.le_refl 16) rfl (by decide)
    have hlower : 'x' ∉ numeral :=
      hnumeral.not_mem (Nat.le_refl 16) rfl (by decide)
    have hupper : 'X' ∉ numeral :=
      hnumeral.not_mem (Nat.le_refl 16) rfl (by decide)
    have hmarks {letter c : Char} {count : Nat} (hzero : c ≠ '0')
        (hletter : c ≠ letter) :
        c ∉ marks letter count := fun hc => (mem_marks hc).elim hzero hletter
    have hdollar' : '$' ∉ marks 'x' lower ++ (marks 'X' upper ++ numeral) := by
      simp [hdollar, hmarks]
    have hlower' : 'x' ∉ marks 'X' upper ++ numeral := by
      simp [hlower, hmarks]
    rwa [dropWhile_dollars_append hdollar', dropMark_marks_append,
      dropMark_of_not_mem hlower', dropMark_marks_append,
      dropMark_of_not_mem hupper]
  · intro h
    obtain ⟨dollars, hdollars⟩ := exists_eq_dollars_append text
    obtain ⟨lower, hlower⟩ :=
      exists_eq_marks_append 'x' (text.dropWhile (· == '$'))
    obtain ⟨upper, hupper⟩ :=
      exists_eq_marks_append 'X' (dropMark 'x' (text.dropWhile (· == '$')))
    exact ⟨dollars, lower, upper, _, by rw [← hupper, ← hlower, ← hdollars], h⟩

theorem ofText?_eq_some_iff {text : String} {w : Word} :
    ofText? text = some w ↔ Denotes text.toList w.toNat := by
  rw [denotes_iff]
  exact Hex.read?_eq_some_iff

theorem Denotes.of_marked {mark : String} (hmark : mark ∈ ["", "$", "0x", "0X"])
    {numeral : List Char} {n : Nat} (h : Numeral.Denotes 16 numeral n) :
    Denotes (mark.toList ++ numeral) n := by
  simp only [List.mem_cons, List.not_mem_nil, or_false] at hmark
  rcases hmark with rfl | rfl | rfl | rfl
  · exact ⟨0, 0, 0, numeral, rfl, h⟩
  · exact ⟨1, 0, 0, numeral, rfl, h⟩
  · exact ⟨0, 1, 0, numeral, rfl, h⟩
  · exact ⟨0, 0, 1, numeral, rfl, h⟩

end Address

/--
The texts that are read as addresses are the hexadecimal numerals below 65536
behind any marks, with the number they denote.  All words can be written behind
any of the marks, in either case.
-/
theorem addresses_are_marked_numerals :
    (∀ text n, (Address.ofText? text).map BitVec.toNat = some n ↔
        Address.Denotes text.toList n ∧ n ≤ 0xFFFF) ∧
      (∀ text, Address.ofText? text = none ↔
        ¬∃ n ≤ 0xFFFF, Address.Denotes text.toList n) ∧
      ∀ w : Word, ∀ mark ∈ ["", "$", "0x", "0X"],
        Address.ofText? (mark ++ Hex.word w) = some w ∧
          Address.ofText? (mark ++ (Hex.word w).map Char.toLower) = some w := by
  have hread (text : String) (n : Nat) :
      (Address.ofText? text).map BitVec.toNat = some n ↔
        Address.Denotes text.toList n ∧ n ≤ 0xFFFF := by
    rw [Option.map_eq_some_iff]
    constructor
    · rintro ⟨w, hw, rfl⟩
      exact ⟨Address.ofText?_eq_some_iff.mp hw, Nat.le_of_lt_succ w.isLt⟩
    · rintro ⟨hdenotes, hn⟩
      have htoNat : (BitVec.ofNat 16 n).toNat = n := by
        rw [BitVec.toNat_ofNat, Nat.mod_eq_of_lt (Nat.lt_succ_of_le hn)]
      exact ⟨BitVec.ofNat 16 n,
        Address.ofText?_eq_some_iff.mpr (by rwa [htoNat]), htoNat⟩
  refine ⟨hread, fun text => ?_, fun w mark hmark => ⟨?_, ?_⟩⟩
  · constructor
    · rintro hnone ⟨n, hn, hdenotes⟩
      have := (hread text n).mpr ⟨hdenotes, hn⟩
      rw [hnone] at this
      cases this
    · intro h
      rw [Option.eq_none_iff_forall_ne_some]
      intro w hw
      exact h ⟨w.toNat, Nat.le_of_lt_succ w.isLt,
        Address.ofText?_eq_some_iff.mp hw⟩
  · rw [Address.ofText?_eq_some_iff, String.toList_append]
    exact .of_marked hmark (Hex.denotes_word w)
  · rw [Address.ofText?_eq_some_iff, String.toList_append, String.toList_map]
    exact .of_marked hmark ((Hex.denotes_word w).map_toLower (Nat.le_refl 16))

/-- Each mark twice, a sign, zeros of no mark and digits of either case. -/
def muchMarked : String := "$$0x0x0X0X+00bEeF"

theorem muchMarked_read :
    Address.Denotes muchMarked.toList 0xBEEF ∧
      (Address.ofText? muchMarked).map BitVec.toNat = some 0xBEEF ∧
      Address.ofText? ("0X" ++ (Hex.word 0xBEEF).map Char.toLower) =
        some 0xBEEF := by
  have hdenotes : Address.Denotes muchMarked.toList 0xBEEF := by
    refine ⟨2, 2, 2, ['+', '0', '0', 'b', 'E', 'e', 'F'], rfl,
      ['0', '0', 'b', 'E', 'e', 'F'], [0, 0, 11, 14, 14, 15],
      .inr rfl, by decide, ⟨by decide, by decide⟩, by decide⟩
  obtain ⟨hread, -, hword⟩ := addresses_are_marked_numerals
  exact ⟨hdenotes, (hread muchMarked 0xBEEF).mpr ⟨hdenotes, by decide⟩,
    (hword 0xBEEF "0X" (by decide)).2⟩

end Cpu6502
