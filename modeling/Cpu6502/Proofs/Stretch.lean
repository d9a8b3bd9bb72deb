import Cpu6502.Memory

/-!
# Stretches of memory

The bytes that lie one behind the other from an address on.  A stretch that
comes to the end of memory goes on at its beginning.
-/

namespace Cpu6502.Memory

variable (m : Memory) (address : Word)

def stretch (count : Nat) : List Byte :=
  (List.range count).map fun k => m.read (address + BitVec.ofNat 16 k)

/-- The bytes lie in memory from the address on. -/
def Holds (bytes : List Byte) : Prop :=
  m.stretch address bytes.length = bytes

instance (bytes : List Byte) : Decidable (m.Holds address bytes) :=
  inferInstanceAs (Decidable (_ = _))

@[simp] theorem length_stretch (count : Nat) :
    (m.stretch address count).length = count := by
  simp [stretch]

theorem getElem?_stretch {k count : Nat} (h : k < count) :
    (m.stretch address count)[k]? =
      some (m.read (address + BitVec.ofNat 16 k)) := by
  simp [stretch, h]

theorem stretch_add (j k : Nat) :
    m.stretch address (j + k) =
      m.stretch address j ++ m.stretch (address + BitVec.ofNat 16 j) k := by
  simp [stretch, List.range_add, BitVec.ofNat_add, BitVec.add_assoc]

theorem stretch_write_of_ne {count : Nat} {cell : Word} (byte : Byte)
    (h : ∀ k < count, cell ≠ address + BitVec.ofNat 16 k) :
    (m.write cell byte).stretch address count = m.stretch address count := by
  unfold stretch
  apply List.map_congr_left
  intro k hk
  exact m.read_write_of_ne byte (h k (List.mem_range.mp hk)).symm

theorem load_append (front rest : List Byte) :
    m.load address (front ++ rest) =
      (m.load address front).load
        (address + BitVec.ofNat 16 front.length) rest := by
  induction front generalizing m address with
  | nil => simp [load]
  | cons byte front ih =>
      have hnext : address + 1 + BitVec.ofNat 16 front.length =
          address + BitVec.ofNat 16 (front.length + 1) := by
        bv_omega
      rw [List.cons_append, load, load, ih, hnext, List.length_cons]

theorem read_load_of_ne {bytes : List Byte} {cell : Word}
    (h : ∀ k < bytes.length, cell ≠ address + BitVec.ofNat 16 k) :
    (m.load address bytes).read cell = m.read cell := by
  induction bytes generalizing m address with
  | nil => rfl
  | cons byte bytes ih =>
      have hfirst : cell ≠ address := by
        simpa using h 0 (Nat.succ_pos _)
      rw [load, ih, m.read_write_of_ne byte hfirst]
      intro k hk
      have hnext : address + 1 + BitVec.ofNat 16 k =
          address + BitVec.ofNat 16 (k + 1) := by
        bv_omega
      rw [hnext]
      exact h (k + 1) (Nat.succ_lt_succ hk)

variable {m address}

theorem read_of_stretch_eq {m' : Memory} {address' : Word} {count : Nat}
    (h : m'.stretch address' count = m.stretch address count) {k : Nat}
    (hk : k < count) :
    m'.read (address' + BitVec.ofNat 16 k) =
      m.read (address + BitVec.ofNat 16 k) := by
  rw [← Option.some.injEq, ← getElem?_stretch m' address' hk, h,
    getElem?_stretch m address hk]

namespace Holds

theorem read {bytes : List Byte} (h : m.Holds address bytes) {k : Nat}
    {byte : Byte} (hbyte : bytes[k]? = some byte) :
    m.read (address + BitVec.ofNat 16 k) = byte := by
  obtain ⟨hk, -⟩ := List.getElem?_eq_some_iff.mp hbyte
  rw [← Option.some.injEq, ← getElem?_stretch m address hk, h, hbyte]

theorem of_append {front rest : List Byte}
    (h : m.Holds address (front ++ rest)) :
    m.Holds address front ∧
      m.Holds (address + BitVec.ofNat 16 front.length) rest := by
  rw [Holds, List.length_append, stretch_add] at h
  exact List.append_inj h (by simp)

theorem write {bytes : List Byte} (h : m.Holds address bytes) {cell : Word}
    (byte : Byte)
    (hcell : ∀ k < bytes.length, cell ≠ address + BitVec.ofNat 16 k) :
    (m.write cell byte).Holds address bytes := by
  rw [Holds, stretch_write_of_ne m address byte hcell]
  exact h

/-- What has been loaded lies where it was loaded, unless it was too long. -/
theorem of_load (m : Memory) (address : Word) {bytes : List Byte}
    (h : bytes.length ≤ size) : (m.load address bytes).Holds address bytes := by
  induction bytes generalizing m address with
  | nil => rfl
  | cons byte bytes ih =>
      have hlength : bytes.length + 1 ≤ 65536 := h
      have hfirst :
          ((m.write address byte).load (address + 1) bytes).read address =
            byte := by
        rw [read_load_of_ne, read_write_self]
        intro k hk
        bv_omega
      have hrest :=
        ih (m.write address byte) (address + 1) (Nat.le_of_succ_le h)
      rw [Holds, List.length_cons, Nat.add_comm, stretch_add]
      change [((m.write address byte).load (address + 1) bytes).read
        (address + 0#16)] ++
        stretch ((m.write address byte).load (address + 1) bytes)
          (address + 1) bytes.length = _
      rw [BitVec.add_zero, hfirst, hrest]
      rfl

end Holds

end Cpu6502.Memory
