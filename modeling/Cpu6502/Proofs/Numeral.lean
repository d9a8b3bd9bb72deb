import Mathlib.Data.Nat.Digits.Defs
import Cpu6502.Text.Hex

/-!
# Numbers that numerals denote

A numeral denotes what its digits are worth, the highest first, in either case
and with any number of zeros in front.  Reading accepts the numerals of numbers
below the limit and nothing else.
-/

namespace Cpu6502.Text

namespace Numeral

/-- The digits with the given values, in either case. -/
def Spells (base : Nat) (digits : List Char) (values : List Nat) : Prop :=
  (∀ d ∈ values, d < base) ∧ digits.map Char.toLower = values.map Nat.digitChar

/-- At most one plus sign and at least one digit. -/
def Denotes (base : Nat) (text : List Char) (n : Nat) : Prop :=
  ∃ digits values, (text = digits ∨ text = '+' :: digits) ∧ digits ≠ [] ∧
    Spells base digits values ∧ n = Nat.ofDigits base values.reverse

theorem digitValue?_ofNat (n : Fin 128) :
    (∀ d ∈ digitValue? (Char.ofNat n), d < 16) ∧
      ∀ d : Fin 16, digitValue? (Char.ofNat n) = some d.val ↔
        (Char.ofNat n).toLower = Nat.digitChar d := by
  revert n
  decide +kernel

theorem digitChar_lt (d : Fin 16) : (Nat.digitChar d).toNat < 128 := by
  revert d
  decide

theorem digitValue?_eq_some_iff {c : Char} {d : Nat} :
    digitValue? c = some d ↔ d < 16 ∧ c.toLower = Nat.digitChar d := by
  by_cases hc : c.toNat < 128
  · obtain ⟨hlt, hiff⟩ := digitValue?_ofNat ⟨c.toNat, hc⟩
    simp only [Char.ofNat_toNat] at hlt hiff
    constructor
    · intro h
      exact ⟨hlt d h, (hiff ⟨d, hlt d h⟩).mp h⟩
    · rintro ⟨hd, h⟩
      exact (hiff ⟨d, hd⟩).mpr h
  · have hlarge : ∀ n : Char, n.toNat < 128 → ¬c ≤ n := by
      intro n hn hle
      exact hc (Nat.lt_of_le_of_lt (UInt32.le_iff_toNat_le.mp hle) hn)
    have hnone : digitValue? c = none := by
      simp [digitValue?, hlarge]
    have hlower : c.toLower = c := dif_neg fun h => hlarge 'Z' (by decide) h.2
    rw [hnone, hlower]
    constructor
    · intro h
      cases h
    · rintro ⟨hd, h⟩
      exact absurd (h ▸ digitChar_lt ⟨d, hd⟩) hc

theorem digit?_eq_some_iff {base d : Nat} {c : Char} (hbase : base ≤ 16) :
    digit? base c = some d ↔ d < base ∧ c.toLower = Nat.digitChar d := by
  simp only [digit?, Option.filter_eq_some_iff, digitValue?_eq_some_iff,
    decide_eq_true_eq]
  constructor
  · rintro ⟨⟨-, hc⟩, hd⟩
    exact ⟨hd, hc⟩
  · rintro ⟨hd, hc⟩
    exact ⟨⟨by omega, hc⟩, hd⟩

theorem spells_nil {base : Nat} {values : List Nat} :
    Spells base [] values ↔ values = [] := by
  constructor
  · rintro ⟨-, h⟩
    exact List.map_eq_nil_iff.mp h.symm
  · rintro rfl
    exact ⟨by simp, rfl⟩

theorem spells_cons {base : Nat} (hbase : base ≤ 16) {c : Char}
    {digits : List Char} {values : List Nat} :
    Spells base (c :: digits) values ↔
      ∃ d rest, values = d :: rest ∧ digit? base c = some d ∧
        Spells base digits rest := by
  constructor
  · rintro ⟨hlt, h⟩
    obtain ⟨d, rest, rfl, hd, hrest⟩ := List.map_eq_cons_iff.mp h.symm
    rw [List.forall_mem_cons] at hlt
    exact ⟨d, rest, rfl, (digit?_eq_some_iff hbase).mpr ⟨hlt.1, hd.symm⟩,
      hlt.2, hrest.symm⟩
  · rintro ⟨d, rest, rfl, hd, hlt, h⟩
    obtain ⟨hdbase, hc⟩ := (digit?_eq_some_iff hbase).mp hd
    exact ⟨List.forall_mem_cons.mpr ⟨hdbase, hlt⟩, by rw [List.map_cons,
      List.map_cons, hc, h]⟩

/-- What digits of the given values are worth behind digits of value `n`. -/
def worth (base n : Nat) (values : List Nat) : Nat :=
  values.foldl (fun n d => base * n + d) n

@[simp] theorem worth_cons (base n d : Nat) (values : List Nat) :
    worth base n (d :: values) = worth base (base * n + d) values := rfl

theorem worth_zero (base : Nat) (values : List Nat) :
    worth base 0 values = Nat.ofDigits base values.reverse := by
  simp [worth, Nat.ofDigits_eq_foldr, Nat.add_comm]

theorem le_worth {base : Nat} {values : List Nat}
    (h : ∀ d ∈ values, d < base) (n : Nat) : n ≤ worth base n values := by
  induction values generalizing n with
  | nil => exact Nat.le_refl n
  | cons d values ih =>
      rw [List.forall_mem_cons] at h
      have hn : n ≤ base * n := Nat.le_mul_of_pos_left n (Nat.zero_lt_of_lt h.1)
      exact Nat.le_trans (Nat.le_add_right_of_le hn) (ih h.2 _)

theorem readDigits_eq_ok_iff {base limit n m : Nat} {digits : List Char}
    (hbase : base ≤ 16) (hn : n < limit) :
    readDigits base limit n digits = .ok m ↔
      ∃ values, Spells base digits values ∧ m = worth base n values ∧
        m < limit := by
  induction digits generalizing n with
  | nil =>
      simp only [readDigits, Except.ok.injEq, spells_nil]
      constructor
      · rintro rfl
        exact ⟨[], rfl, rfl, hn⟩
      · rintro ⟨values, rfl, rfl, -⟩
        rfl
  | cons c digits ih =>
      simp only [readDigits, spells_cons hbase]
      cases hd : digit? base c with
      | none => simp
      | some d =>
          by_cases hlimit : base * n + d < limit
          · simp only [if_pos hlimit, ih hlimit]
            constructor
            · rintro ⟨values, hvalues, hm⟩
              exact ⟨d :: values, ⟨d, values, rfl, rfl, hvalues⟩, hm⟩
            · rintro ⟨_, ⟨_, values, rfl, ⟨⟩, hvalues⟩, hm⟩
              exact ⟨values, hvalues, hm⟩
          -- More digits only make the value larger, so that reading may stop
          -- here.
          · simp only [if_neg hlimit, reduceCtorEq, false_iff]
            rintro ⟨_, ⟨_, values, rfl, ⟨⟩, hvalues⟩, rfl, hm⟩
            exact hlimit (Nat.lt_of_le_of_lt (le_worth hvalues.1 _) hm)

def unsigned (text : List Char) : List Char :=
  if text.head? = some '+' then text.tail else text

theorem read_eq_ok_iff_unsigned {base limit n : Nat} {text : List Char} :
    read base limit text = .ok n ↔
      unsigned text ≠ [] ∧ readDigits base limit 0 (unsigned text) = .ok n := by
  rw [read, ← unsigned]
  split
  · case isTrue h => simp [h, unsigned]
  · split
    · case isTrue h => simp [h]
    · case isFalse h => simp [h]

theorem not_spells_plus {base : Nat} (hbase : base ≤ 16) {digits : List Char}
    {values : List Nat} : ¬Spells base ('+' :: digits) values := by
  rw [spells_cons hbase]
  rintro ⟨d, rest, -, hd, -⟩
  cases hd

/-- A plus sign is no digit, so that one in front can only be the sign. -/
theorem denotes_iff_unsigned {base n : Nat} {text : List Char}
    (hbase : base ≤ 16) :
    Denotes base text n ↔ unsigned text ≠ [] ∧
      ∃ values, Spells base (unsigned text) values ∧
      n = Nat.ofDigits base values.reverse := by
  unfold unsigned
  constructor
  · rintro ⟨digits, values, rfl | rfl, hdigits, hspells, hn⟩
    · have hplain : text.head? ≠ some '+' := by
        intro hhead
        obtain ⟨rest, rfl⟩ := List.head?_eq_some_iff.mp hhead
        exact not_spells_plus hbase hspells
      rw [if_neg hplain]
      exact ⟨hdigits, values, hspells, hn⟩
    · exact ⟨hdigits, values, hspells, hn⟩
  · split
    · case isTrue hhead =>
        obtain ⟨rest, rfl⟩ := List.head?_eq_some_iff.mp hhead
        rintro ⟨hdigits, values, hspells, hn⟩
        exact ⟨rest, values, .inr rfl, hdigits, hspells, hn⟩
    · case isFalse =>
        rintro ⟨hdigits, values, hspells, hn⟩
        exact ⟨text, values, .inl rfl, hdigits, hspells, hn⟩

theorem read_eq_ok_iff {base limit n : Nat} {text : List Char}
    (hbase : base ≤ 16) (hlimit : 0 < limit) :
    read base limit text = .ok n ↔ Denotes base text n ∧ n < limit := by
  rw [read_eq_ok_iff_unsigned, denotes_iff_unsigned hbase,
    readDigits_eq_ok_iff hbase hlimit, and_assoc]
  simp only [worth_zero, ← and_assoc, exists_and_right]

theorem Spells.digit?_isSome {base : Nat} (hbase : base ≤ 16)
    {digits : List Char}
    {values : List Nat} (h : Spells base digits values) {c : Char}
    (hc : c ∈ digits) : (digit? base c).isSome := by
  induction digits generalizing values with
  | nil => cases hc
  | cons first rest ih =>
      obtain ⟨d, others, rfl, hd, hothers⟩ := (spells_cons hbase).mp h
      rcases List.mem_cons.mp hc with rfl | hc
      · rw [hd]
        rfl
      · exact ih hothers hc

theorem Denotes.not_mem {base n : Nat} (hbase : base ≤ 16) {text : List Char}
    (h : Denotes base text n) {c : Char} (hdigit : digit? base c = none)
    (hsign : c ≠ '+') : c ∉ text := by
  obtain ⟨digits, values, htext, -, hspells, -⟩ := h
  have hdigits : c ∉ digits := by
    intro hc
    have hsome := hspells.digit?_isSome hbase hc
    rw [hdigit] at hsome
    cases hsome
  rcases htext with rfl | rfl
  · exact hdigits
  · rw [List.mem_cons]
    exact not_or.mpr ⟨hsign, hdigits⟩

theorem toLower_digitChar (d : Fin 16) :
    (Nat.digitChar d).toLower = Nat.digitChar d := by
  revert d
  decide

/-- The case of the digits makes no difference. -/
theorem Denotes.map_toLower {base n : Nat} (hbase : base ≤ 16)
    {text : List Char}
    (h : Denotes base text n) : Denotes base (text.map Char.toLower) n := by
  obtain ⟨digits, values, htext, hdigits, ⟨hlt, hvalues⟩, hn⟩ := h
  refine ⟨digits.map Char.toLower, values, ?_, by simpa using hdigits,
    ⟨hlt, ?_⟩, hn⟩
  · rcases htext with rfl | rfl
    · exact .inl rfl
    · exact .inr rfl
  · rw [hvalues, List.map_map]
    apply List.map_congr_left
    intro d hd
    exact toLower_digitChar ⟨d, Nat.lt_of_lt_of_le (hlt d hd) hbase⟩

end Numeral

theorem Hex.read?_eq_some_iff {w : Nat} {text : List Char} {value : BitVec w} :
    Hex.read? w text = some value ↔ Numeral.Denotes 16 text value.toNat := by
  have hread : ∀ n, Numeral.read 16 (1 <<< w) text = .ok n ↔
      Numeral.Denotes 16 text n ∧ n < 1 <<< w :=
    fun n => Numeral.read_eq_ok_iff (Nat.le_refl 16) (by simp)
  have hvalue : value.toNat < 1 <<< w := by
    rw [Nat.one_shiftLeft]
    exact value.isLt
  unfold Hex.read?
  constructor
  · intro h
    split at h
    · case h_1 n hn =>
        cases h
        obtain ⟨hdenotes, hlt⟩ := (hread n).mp hn
        rw [Nat.one_shiftLeft] at hlt
        rwa [BitVec.toNat_ofNat, Nat.mod_eq_of_lt hlt]
    · cases h
  · intro h
    rw [(hread value.toNat).mpr ⟨h, hvalue⟩]
    simp

theorem Hex.denotes_word (w : Word) :
    Numeral.Denotes 16 (Hex.word w).toList w.toNat :=
  Hex.read?_eq_some_iff.mp (Hex.read?_word w)

end Cpu6502.Text
