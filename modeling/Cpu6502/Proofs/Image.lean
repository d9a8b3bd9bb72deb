import Mathlib.Order.Bounds.Defs
import Cpu6502.Image
import Cpu6502.Machine
import Cpu6502.Proofs.Stretch

/-!
# Loaded images

The bytes of an image go to one cell after the other, and behind the last cell
to the first again, so that a long image writes over its own beginning.  A cell
has the last of the bytes that came to it.  The images that are valid at an
origin are those that are not empty and end before memory does.
-/

namespace Cpu6502

namespace Memory

/-- The indices of the bytes that come to the cell when so many are loaded. -/
def arrivals (address cell : Word) (count : Nat) : Set Nat :=
  { i | i < count ∧ (address.toNat + i) % size = cell.toNat }

theorem mem_arrivals_iff {address cell : Word} {i count : Nat} :
    i ∈ arrivals address cell count ↔
      i < count ∧ address + BitVec.ofNat 16 i = cell := by
  rw [← BitVec.toNat_inj, BitVec.toNat_add, BitVec.toNat_ofNat, Nat.add_mod_mod]
  exact Iff.rfl

theorem zero_mem_arrivals_succ {address cell : Word} {count : Nat} :
    0 ∈ arrivals address cell (count + 1) ↔ cell = address := by
  rw [mem_arrivals_iff, BitVec.add_zero]
  simp [eq_comm]

theorem succ_mem_arrivals_succ {address cell : Word} {i count : Nat} :
    i + 1 ∈ arrivals address cell (count + 1) ↔
      i ∈ arrivals (address + 1) cell count := by
  have hnext : address + BitVec.ofNat 16 (i + 1) =
      address + 1 + BitVec.ofNat 16 i := by
    bv_omega
  rw [mem_arrivals_iff, mem_arrivals_iff, hnext, Nat.succ_lt_succ_iff]

theorem read_load_cases (m : Memory) (address cell : Word) (bytes : List Byte) :
    (∃ i, IsGreatest (arrivals address cell bytes.length) i ∧
        bytes[i]? = some ((m.load address bytes).read cell)) ∨
      (∀ i, i ∉ arrivals address cell bytes.length) ∧
        (m.load address bytes).read cell = m.read cell := by
  induction bytes generalizing m address with
  | nil => exact .inr ⟨fun i hi => Nat.not_lt_zero i hi.1, rfl⟩
  | cons byte bytes ih =>
      rw [load, List.length_cons]
      rcases ih (m.write address byte) (address + 1) with
        ⟨i, ⟨hi, hgreatest⟩, hbyte⟩ | ⟨hnone, hread⟩
      · refine .inl ⟨i + 1, ⟨succ_mem_arrivals_succ.mpr hi, ?_⟩, hbyte⟩
        rintro (_ | j) hj
        · exact Nat.zero_le _
        · exact Nat.succ_le_succ (hgreatest (succ_mem_arrivals_succ.mp hj))
      -- No later byte comes to the cell, so that the first is the last or there
      -- is none.
      · have hlater : ∀ j, j + 1 ∉ arrivals address cell (bytes.length + 1) :=
          fun j hj => hnone j (succ_mem_arrivals_succ.mp hj)
        by_cases hcell : cell = address
        · refine .inl ⟨0, ⟨zero_mem_arrivals_succ.mpr hcell, ?_⟩, ?_⟩
          · rintro (_ | j) hj
            · exact Nat.le_refl 0
            · exact absurd hj (hlater j)
          · rw [hread, hcell, read_write_self]
            rfl
        · refine .inr ⟨?_, by rw [hread, m.read_write_of_ne byte hcell]⟩
          rintro (_ | j) hj
          · exact hcell (zero_mem_arrivals_succ.mp hj)
          · exact hlater j hj

end Memory

namespace Image

/-- A byte of the image lies behind the last address. -/
def Wraps (image : List Byte) (origin : Word) : Prop :=
  ∃ i < image.length, Memory.size ≤ origin.toNat + i

theorem wraps_iff {image : List Byte} {origin : Word} :
    Wraps image origin ↔ Memory.size < origin.toNat + image.length := by
  have horigin : origin.toNat < Memory.size := origin.isLt
  constructor
  · rintro ⟨i, hi, hwraps⟩
    omega
  · intro h
    exact ⟨image.length - 1, by omega, by omega⟩

theorem validate_eq_ok_iff {image : List Byte} {origin : Word} :
    validate image origin = .ok () ↔ image ≠ [] ∧ ¬Wraps image origin := by
  rw [wraps_iff, validate]
  cases image with
  | nil => simp
  | cons byte image =>
      by_cases hlarge : Memory.size < origin.toNat + (image.length + 1) <;>
        simp [maxSize, hlarge]

theorem validate_eq_ok_iff_length {image : List Byte} {origin : Word} :
    validate image origin = .ok () ↔
      1 ≤ image.length ∧ image.length ≤ Memory.size - origin.toNat := by
  have horigin : origin.toNat < Memory.size := origin.isLt
  rw [validate_eq_ok_iff, wraps_iff, ← List.length_pos_iff]
  omega

end Image

namespace Memory

variable (m : Memory) {image : List Byte} {origin : Word}

theorem read_load_of_valid (hvalid : Image.validate image origin = .ok ())
    {i : Nat} {byte : Byte} (hbyte : image[i]? = some byte) :
    (m.load origin image).read (BitVec.ofNat 16 (origin.toNat + i)) = byte := by
  obtain ⟨-, hlength⟩ := Image.validate_eq_ok_iff_length.mp hvalid
  rw [BitVec.ofNat_add, BitVec.ofNat_toNat, BitVec.setWidth_eq]
  exact (Holds.of_load m origin
    (Nat.le_trans hlength (Nat.sub_le _ _))).read hbyte

theorem read_load_of_outside (hvalid : Image.validate image origin = .ok ())
    {cell : Word} (hcell : cell.toNat < origin.toNat ∨
      origin.toNat + image.length ≤ cell.toNat) :
    (m.load origin image).read cell = m.read cell := by
  obtain ⟨-, hlength⟩ := Image.validate_eq_ok_iff_length.mp hvalid
  have hsize : size = 65536 := rfl
  apply read_load_of_ne
  intro k hk
  bv_omega

/-- A byte that comes to the first cell again begins a new turn. -/
theorem mem_arrivals_zero_iff {i count : Nat} (hi : 0 < origin.toNat + i) :
    i ∈ arrivals origin 0 count ↔
      i < count ∧ ∃ turn ≥ 1, i = 65536 * turn - origin.toNat := by
  have horigin : origin.toNat < 65536 := origin.isLt
  apply and_congr_right
  intro _
  change (origin.toNat + i) % 65536 = 0 ↔ _
  constructor
  · intro hturn
    exact ⟨(origin.toNat + i) / 65536, by omega, by omega⟩
  · rintro ⟨turn, hturn, rfl⟩
    omega

theorem read_load_zero_of_wraps (hwraps : Image.Wraps image origin) :
    ∃ i, IsGreatest { i | i < image.length ∧ ∃ turn ≥ 1,
      i = 65536 * turn - origin.toNat } i ∧
      image[i]? = some ((m.load origin image).read 0) := by
  have horigin : origin.toNat < 65536 := origin.isLt
  have hlength : 65536 < origin.toNat + image.length :=
    Image.wraps_iff.mp hwraps
  have hfirst : 65536 - origin.toNat ∈ arrivals origin 0 image.length :=
    (mem_arrivals_zero_iff (by omega)).mpr ⟨by omega, 1, Nat.le_refl 1, rfl⟩
  rcases m.read_load_cases origin 0 image with
      ⟨i, ⟨hi, hgreatest⟩, hbyte⟩ | ⟨hnone, -⟩
  · have hturned : 65536 - origin.toNat ≤ i := hgreatest hfirst
    refine ⟨i, ⟨(mem_arrivals_zero_iff (by omega)).mp hi, ?_⟩, hbyte⟩
    rintro j ⟨hj, turn, hturn, hjturn⟩
    exact hgreatest ((mem_arrivals_zero_iff (by omega)).mpr
      ⟨hj, turn, hturn, hjturn⟩)
  · exact absurd hfirst (hnone _)

end Memory

/--
A cell has the last of the bytes that came to it in loading, or what it had
before.  The images that are valid at an origin are those that are not empty and
end before memory does; a valid image lies in memory as it is, and one that
wraps writes over the first cell.
-/
theorem images_are_loaded (s : Machine) (image : List Byte) (origin : Word) :
    (∀ cell, (∃ i, IsGreatest (Memory.arrivals origin cell image.length) i ∧
          image[i]? = some ((s.load origin image).read cell)) ∨
        (∀ i, i ∉ Memory.arrivals origin cell image.length) ∧
          (s.load origin image).read cell = s.read cell) ∧
      (Image.validate image origin = .ok () ↔
        image ≠ [] ∧ ¬Image.Wraps image origin) ∧
      (Image.validate image origin = .ok () ↔
        1 ≤ image.length ∧ image.length ≤ 65536 - origin.toNat) ∧
      (Image.validate image origin = .ok () →
        (∀ i byte, image[i]? = some byte →
          (s.load origin image).read (BitVec.ofNat 16 (origin.toNat + i)) =
            byte) ∧
        ∀ cell, cell.toNat < origin.toNat ∨
            origin.toNat + image.length ≤ cell.toNat →
          (s.load origin image).read cell = s.read cell) ∧
      (Image.validate image origin ≠ .ok () → image ≠ [] →
        Image.Wraps image origin ∧
          ∃ i, IsGreatest
              { i | i < image.length ∧ ∃ turn ≥ 1,
                i = 65536 * turn - origin.toNat } i ∧
            image[i]? = some ((s.load origin image).read 0)) := by
  refine ⟨fun cell => s.memory.read_load_cases origin cell image,
    Image.validate_eq_ok_iff, Image.validate_eq_ok_iff_length,
    fun hvalid => ⟨?_, ?_⟩, fun hrejected hnonempty => ?_⟩
  · intro i byte hbyte
    exact s.memory.read_load_of_valid hvalid hbyte
  · intro cell hcell
    exact s.memory.read_load_of_outside hvalid hcell
  · have hwraps : Image.Wraps image origin := Classical.not_not.mp fun hfits =>
      hrejected (Image.validate_eq_ok_iff.mpr ⟨hnonempty, hfits⟩)
    exact ⟨hwraps, s.memory.read_load_zero_of_wraps hwraps⟩

/-- One byte more than memory has cells. -/
def overlong : List Byte :=
  List.replicate 65536 0x11 ++ [0x22]

theorem overlong_loaded :
    Image.validate [0xEA, 0x60] 0xFFFE = .ok () ∧
      (Machine.powerOn.load 0xFFFE [0xEA, 0x60]).read 0xFFFF = 0x60 ∧
      overlong ≠ [] ∧ Image.validate overlong 0x0000 ≠ .ok () ∧
      (Machine.powerOn.load 0x0000 overlong).read 0x0000 = 0x22 := by
  have hlength : overlong.length = 65537 := by
    rw [overlong, List.length_append, List.length_replicate,
      List.length_singleton]
  obtain ⟨-, -, -, hvalid, -⟩ :=
    images_are_loaded Machine.powerOn [0xEA, 0x60] 0xFFFE
  obtain ⟨-, -, hsize, -, hrejected⟩ :=
    images_are_loaded Machine.powerOn overlong 0x0000
  have haccepted : Image.validate [0xEA, 0x60] 0xFFFE = .ok () := rfl
  have htoolong : Image.validate overlong 0x0000 ≠ .ok () := by
    rw [Ne, hsize, hlength]
    decide
  have hnonempty : overlong ≠ [] := by
    rw [← List.length_pos_iff, hlength]
    decide
  refine ⟨haccepted, (hvalid haccepted).1 1 0x60 rfl, hnonempty, htoolong, ?_⟩
  obtain ⟨-, i, ⟨⟨hi, turn, hturn, hiturn⟩, -⟩, hbyte⟩ :=
    hrejected htoolong hnonempty
  rw [hlength] at hi
  have hlast : i = 65536 := by
    change i = 65536 * turn - 0 at hiturn
    omega
  have hbehind : (List.replicate 65536 (0x11 : Byte)).length ≤ 65536 :=
    Nat.le_of_eq List.length_replicate
  rw [hlast, overlong, List.getElem?_append_right hbehind,
    List.length_replicate] at hbyte
  exact (Option.some.inj hbyte).symm

end Cpu6502
