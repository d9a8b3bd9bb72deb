import Cpu6502.Proofs.Flags

/-!
# Shifts of numbers of several bytes

A number in memory is shifted byte by byte: to the left from its lowest byte up,
to the right from its highest byte down.  The bit that falls out of a byte waits
in the carry until the next byte takes it in, so that the number and the carry
together lose nothing, and a rotation to one side is undone by one to the other.
A shift of the first byte takes in a zero, as a rotation does when the carry is
clear.
-/

namespace Cpu6502

namespace Change

/-- The shifts, with the rotations that do the same when the carry is clear. -/
def shifting : List (Change × Change) :=
  [(.shiftLeft, .rotateLeft), (.shiftRight, .rotateRight)]

theorem toNat_rotateLeft (carry : Bool) (byte : Byte) :
    (rotateLeft.result carry byte).toNat + 256 * byte.msb.toNat =
      2 * byte.toNat + carry.toNat := by
  have hbyte := byte.isLt
  have hcarry := carry.toNat_le
  rw [result, BitVec.toNat_setWidth, BitVec.toNat_concat, BitVec.msb_eq_decide]
  by_cases h : 128 ≤ byte.toNat
  · simp [h]
    omega
  · simp [h]
    omega

theorem toNat_rotateRight (carry : Bool) (byte : Byte) :
    2 * (rotateRight.result carry byte).toNat + (byte.getLsbD 0).toNat =
      byte.toNat + 256 * carry.toNat := by
  have hbyte := byte.isLt
  have hcarry := carry.toNat_le
  have hlow : (byte.getLsbD 0).toNat = byte.toNat % 2 := by
    rw [BitVec.getLsbD, Nat.testBit_zero]
    rcases Nat.mod_two_eq_zero_or_one byte.toNat with h | h <;> simp [h]
  rw [hlow, result, BitVec.extractLsb'_toNat, BitVec.toNat_cons',
    Nat.shiftLeft_eq, Nat.shiftRight_eq_div_pow]
  omega

end Change

/-- The zero and negative flags are those of the byte. -/
def Status.Describes (p : Status) (byte : Byte) : Prop :=
  p.get .zero = (byte == 0) ∧ p.get .negative = byte.msb

theorem Status.describes_recordResult (p : Status) (byte : Byte) :
    (p.recordResult byte).Describes byte := by
  simp [Describes, get_recordResult]

namespace Machine

/-! ## What is left alone -/

/-- The machines differ at most in the cells and the flags of shifts. -/
structure Spares (cells : List Word) (s t : Machine) : Prop where
  read : ∀ cell ∉ cells, t.read cell = s.read cell
  register : ∀ r, t.get r = s.get r
  pc : t.regs.pc = s.regs.pc
  flag : ∀ f ∉ [Flag.carry, .zero, .negative], t.regs.p.get f = s.regs.p.get f

namespace Spares

variable {cells more : List Word} {s t u : Machine}

theorem refl (cells : List Word) (s : Machine) : Spares cells s s :=
  ⟨fun _ _ => rfl, fun _ => rfl, rfl, fun _ _ => rfl⟩

theorem trans (first : Spares cells s t) (rest : Spares more t u) :
    Spares (cells ++ more) s u where
  read cell hcell := by
    rw [List.mem_append, not_or] at hcell
    rw [rest.read cell hcell.2, first.read cell hcell.1]
  register r := (rest.register r).trans (first.register r)
  pc := rest.pc.trans first.pc
  flag f hf := (rest.flag f hf).trans (first.flag f hf)

theorem mono (h : Spares cells s t) (hsub : cells ⊆ more) : Spares more s t :=
  { h with read := fun cell hcell => h.read cell fun hmem => hcell (hsub hmem) }

theorem setCarry (cells : List Word) (s : Machine) (value : Bool) :
    Spares cells s (s.setFlag .carry value) where
  read _ _ := rfl
  register r := by cases r <;> rfl
  pc := rfl
  flag f hf := by
    rw [List.mem_cons, not_or] at hf
    exact (Status.get_set ..).trans (if_neg hf.1)

end Spares

/-! ## One cell -/

variable (s : Machine) (c : Change) (cell : Word)

theorem setFlag_setFlag (f : Flag) (v w : Bool) :
    (s.setFlag f v).setFlag f w = s.setFlag f w := by
  unfold setFlag Registers.setFlag
  rw [Status.set_set]

theorem get_carry_setFlag (value : Bool) :
    (s.setFlag .carry value).regs.p.get .carry = value :=
  (Status.get_set ..).trans (if_pos rfl)

theorem carry_clear : (s.setFlag .carry false).carry = 0 :=
  congrArg Bool.toNat (s.get_carry_setFlag false)

/-- The machine when an instruction has changed the cell. -/
def changeCell : Machine :=
  let changed := s.change c (s.read cell)
  (changed.2.write cell changed.1).recordResult changed.1

theorem read_changeCell (other : Word) :
    (s.changeCell c cell).read other =
      if other = cell then c.result (s.regs.p.get .carry) (s.read cell)
        else s.read other := by
  cases c <;> exact Memory.read_write ..

theorem map_read_changeCell {cell : Word} {cells : List Word}
    (h : cell ∉ cells) :
    cells.map (s.changeCell c cell).read = cells.map s.read := by
  apply List.map_congr_left
  intro other hother
  rw [read_changeCell, if_neg]
  rintro rfl
  exact h hother

theorem spares_changeCell : Spares [cell] s (s.changeCell c cell) where
  read other h := by
    rw [read_changeCell, if_neg (List.ne_of_not_mem_cons h)]
  register r := by
    cases c <;> cases r <;> rfl
  pc := by
    cases c <;> rfl
  flag f hf := by
    simp only [List.mem_cons, List.not_mem_nil, or_false, not_or] at hf
    have hchange : (s.changeCell c cell).regs.p.get f =
        (s.change c (s.read cell)).2.regs.p.get f := by
      rw [changeCell]
      exact (Status.get_recordResult ..).trans
        (by rw [if_neg hf.2.2, if_neg hf.2.1]; rfl)
    rw [hchange, get_flag_change _ _ _ fun _ => hf.1]

theorem describes_changeCell :
    (s.changeCell c cell).regs.p.Describes
      ((s.changeCell c cell).read cell) := by
  have hbyte : (s.changeCell c cell).read cell =
      (s.change c (s.read cell)).1 := by
    rw [changeCell]
    exact Memory.read_write_self ..
  rw [hbyte]
  exact Status.describes_recordResult ..

theorem carry_changeCell {carry : Bool}
    (h : c.carryOut? (s.read cell) = some carry) :
    (s.changeCell c cell).carry = carry.toNat := by
  have hchange : (s.change c (s.read cell)).2 = s.setFlag .carry carry := by
    rw [change, h]
  have hcarry : (s.change c (s.read cell)).2.regs.p.get .carry = carry := by
    rw [hchange, get_carry_setFlag]
  exact congrArg Bool.toNat ((Status.get_carry_recordResult ..).trans hcarry)

theorem changeCell_clear {shift rotation : Change}
    (h : (shift, rotation) ∈ Change.shifting) :
    (s.setFlag .carry false).changeCell rotation cell =
      s.changeCell shift cell := by
  have hchange (byte : Byte) :
      (s.setFlag .carry false).change rotation byte = s.change shift byte := by
    simp only [Change.shifting, List.mem_cons, Prod.mk.injEq, List.not_mem_nil,
      or_false] at h
    rcases h with ⟨rfl, rfl⟩ | ⟨rfl, rfl⟩ <;>
      simp only [change, Change.carryOut?, setFlag_setFlag, get_carry_setFlag,
        Change.result]
  rw [changeCell, changeCell, ← hchange]
  rfl

/-! ## Cells in a row -/

/-- The machine when the cells have been changed one after the other. -/
def changeEach (cells : List Word) : Machine :=
  cells.foldl (fun s cell => s.changeCell c cell) s

@[simp] theorem changeEach_nil : s.changeEach c [] = s := rfl

@[simp] theorem changeEach_cons (cells : List Word) :
    s.changeEach c (cell :: cells) =
      (s.changeCell c cell).changeEach c cells := rfl

theorem changeEach_append (cells more : List Word) :
    s.changeEach c (cells ++ more) = (s.changeEach c cells).changeEach c more :=
  List.foldl_append

theorem spares_changeEach (cells : List Word) :
    Spares cells s (s.changeEach c cells) := by
  induction cells generalizing s with
  | nil => exact .refl [] s
  | cons cell cells ih =>
      exact (s.spares_changeCell c cell).trans (ih (s.changeCell c cell))

theorem describes_changeEach {cells : List Word} (h : cells ≠ []) :
    (s.changeEach c cells).regs.p.Describes
      ((s.changeEach c cells).read (cells.getLast h)) := by
  have hcells := List.dropLast_concat_getLast h
  generalize cells.dropLast = front at hcells
  generalize cells.getLast h = last at hcells ⊢
  subst hcells
  rw [changeEach_append]
  exact describes_changeCell ..

/-- What a shift of the cells leaves alone, and the sign that it leaves. -/
structure Shifted (cells : List Word) (last : Word) (s t : Machine) : Prop where
  spares : Spares cells s t
  sign : t.regs.p.Describes (t.read last)

section

variable {cells : List Word}

theorem shifted_upwards (h : cells ≠ []) :
    Shifted cells (cells.getLast h) s (s.changeEach c cells) :=
  ⟨s.spares_changeEach c cells, s.describes_changeEach c h⟩

theorem shifted_downwards (h : cells ≠ []) :
    Shifted cells (cells.head h) s (s.changeEach c cells.reverse) := by
  refine ⟨(s.spares_changeEach c cells.reverse).mono fun _ =>
    List.mem_reverse.mp, ?_⟩
  rw [← List.getLast_reverse (List.reverse_ne_nil_iff.mpr h)]
  exact s.describes_changeEach c _

/-- The carry out of the lowest byte goes into the others. -/
theorem total_rotateLeft (distinct : cells.Nodup) :
    number (cells.map (s.changeEach .rotateLeft cells).read) +
        256 ^ cells.length * (s.changeEach .rotateLeft cells).carry =
      2 * number (cells.map s.read) + s.carry := by
  induction cells generalizing s with
  | nil => simp
  | cons cell cells ih =>
      rw [List.nodup_cons] at distinct
      have hbyte : ((s.changeCell .rotateLeft cell).read cell).toNat +
          256 * (s.changeCell .rotateLeft cell).carry =
            2 * (s.read cell).toNat + s.carry := by
        rw [read_changeCell, if_pos rfl,
          s.carry_changeCell .rotateLeft cell rfl]
        exact Change.toNat_rotateLeft ..
      have hrest := ih (s.changeCell .rotateLeft cell) distinct.2
      rw [s.map_read_changeCell _ distinct.1] at hrest
      have hcell :=
        ((s.changeCell .rotateLeft cell).spares_changeEach .rotateLeft
          cells).read cell distinct.1
      simp only [changeEach_cons, List.map_cons, number_cons, hcell,
        List.length_cons, Nat.pow_succ, Nat.mul_right_comm _ 256]
      omega

/-- The carry out of the higher bytes goes into the lowest. -/
theorem total_rotateRight (distinct : cells.Nodup) :
    2 * number (cells.map (s.changeEach .rotateRight cells.reverse).read) +
        (s.changeEach .rotateRight cells.reverse).carry =
      number (cells.map s.read) + 256 ^ cells.length * s.carry := by
  induction cells with
  | nil => simp
  | cons cell cells ih =>
      rw [List.nodup_cons] at distinct
      have hrest := ih distinct.2
      have hcell := (s.spares_changeEach .rotateRight cells.reverse).read cell
        (mt List.mem_reverse.mp distinct.1)
      rw [List.reverse_cons, changeEach_append, changeEach_cons, changeEach_nil]
      generalize s.changeEach .rotateRight cells.reverse = t at hrest hcell ⊢
      have hbyte : 2 * ((t.changeCell .rotateRight cell).read cell).toNat +
          (t.changeCell .rotateRight cell).carry =
            (t.read cell).toNat + 256 * t.carry := by
        rw [read_changeCell, if_pos rfl,
          t.carry_changeCell .rotateRight cell rfl]
        exact Change.toNat_rotateRight ..
      simp only [List.map_cons, number_cons,
        t.map_read_changeCell _ distinct.1, ← hcell, List.length_cons,
        Nat.pow_succ, Nat.mul_right_comm _ 256]
      omega

end

/-! ## What the number and the carry tell -/

section

variable {cells : List Word} {s t u : Machine} {last : Word}

theorem number_and_carry_eq_of_low
    (h : 2 * number (cells.map t.read) + t.carry =
      2 * number (cells.map s.read) + s.carry) :
    number (cells.map t.read) = number (cells.map s.read) ∧
      t.carry = s.carry := by
  have hs := s.carry_le
  have ht := t.carry_le
  omega

theorem number_and_carry_eq_of_high
    (h : number (cells.map t.read) + 256 ^ cells.length * t.carry =
      number (cells.map s.read) + 256 ^ cells.length * s.carry) :
    number (cells.map t.read) = number (cells.map s.read) ∧
      t.carry = s.carry := by
  have hlt (v : Machine) : number (cells.map v.read) < 256 ^ cells.length := by
    simpa using number_lt (cells.map v.read)
  have hs := hlt s
  have ht := hlt t
  rcases Nat.le_one_iff_eq_zero_or_eq_one.mp s.carry_le with
      hbefore | hbefore <;>
    rcases Nat.le_one_iff_eq_zero_or_eq_one.mp t.carry_le with
        hafter | hafter <;>
      rw [hbefore, hafter] at h ⊢ <;> omega

/-- Where the number is the same, so is all memory. -/
theorem Spares.read_eq (spared : Spares cells s t)
    (h : number (cells.map t.read) = number (cells.map s.read)) (cell : Word) :
    t.read cell = s.read cell := by
  by_cases hcell : cell ∈ cells
  · exact List.map_inj_left.mp (number_injective (by simp) h) cell hcell
  · exact spared.read cell hcell

theorem Shifted.trans {last' : Word} (first : Shifted cells last s t)
    (rest : Shifted cells last' t u) : Shifted cells last' s u :=
  ⟨(first.spares.trans rest.spares).mono (by simp), rest.sign⟩

theorem Shifted.of_clear (h : Shifted cells last (s.setFlag .carry false) t) :
    Shifted cells last s t :=
  ⟨(Spares.setCarry [] s false).trans h.spares, h.sign⟩

end

end Machine

/-! ## Instructions in a row -/

namespace Instruction

theorem execute_of_modify {i : Instruction} {c : Change} {cell : Word}
    (hchange : i.mnemonic.operation = .modify c)
    (hcell : i.operand = .cell cell) (s : Machine) :
    i.execute s = (.ok (), s.changeCell c cell) := by
  simp only [execute, hchange, modify, hcell, Operand.read?, store,
    Operand.write?]
  rfl

/-- Executes instructions one after the other, as long as none of them fails. -/
def executeAll : List Instruction → Machine → Except Fault Unit × Machine
  | [], s => (.ok (), s)
  | i :: is, s =>
      match i.execute s with
      | (.ok (), t) => executeAll is t
      | (.error fault, t) => (.error fault, t)

theorem executeAll_append {is js : List Instruction} {s t : Machine}
    (h : executeAll is s = (.ok (), t)) :
    executeAll (is ++ js) s = executeAll js t := by
  induction is generalizing s with
  | nil =>
      cases h
      rfl
  | cons i is ih =>
      rw [executeAll] at h
      rw [List.cons_append, executeAll]
      cases hi : i.execute s with
      | mk result u =>
          cases result with
          | error fault => simp [hi] at h
          | ok =>
              simp only [hi] at h ⊢
              exact ih h

/-- The instructions work on the cells in turn, all but the first alike. -/
def Sweep (first rest : Mnemonic) (cells : List Word) (is : List Instruction) :
    Prop :=
  is.map mnemonic = first :: List.replicate (cells.length - 1) rest ∧
    is.map operand = cells.map .cell

instance (first rest : Mnemonic) (cells : List Word) (is : List Instruction) :
    Decidable (Sweep first rest cells is) :=
  inferInstanceAs (Decidable (_ ∧ _))

theorem executeAll_of_modify {m : Mnemonic} {c : Change}
    (hchange : m.operation = .modify c)
    {cells : List Word} {is : List Instruction}
    (hmnemonic : is.map mnemonic = List.replicate cells.length m)
    (hoperand : is.map operand = cells.map .cell) (s : Machine) :
    executeAll is s = (.ok (), s.changeEach c cells) := by
  induction cells generalizing is s with
  | nil =>
      obtain rfl := List.map_eq_nil_iff.mp hoperand
      rfl
  | cons cell cells ih =>
      obtain ⟨i, is, rfl, hi, his⟩ := List.map_eq_cons_iff.mp hoperand
      rw [List.map_cons, List.length_cons, List.replicate_succ,
        List.cons.injEq] at hmnemonic
      obtain ⟨rfl, hmnemonic⟩ := hmnemonic
      rw [executeAll, execute_of_modify hchange hi]
      exact ih hmnemonic his _

namespace Sweep

variable {cells : List Word} {is : List Instruction}

theorem exists_executeAll {first rest : Mnemonic} {c d : Change}
    (h : Sweep first rest cells is) (hfirst : first.operation = .modify c)
    (hrest : rest.operation = .modify d) (s : Machine) :
    ∃ cell more, cells = cell :: more ∧
      executeAll is s = (.ok (), (s.changeCell c cell).changeEach d more) := by
  obtain ⟨hmnemonic, hoperand⟩ := h
  obtain ⟨i, is, rfl, rfl, his⟩ := List.map_eq_cons_iff.mp hmnemonic
  obtain ⟨cell, more, rfl, hi, hmore⟩ := List.map_eq_cons_iff.mp hoperand.symm
  refine ⟨cell, more, rfl, ?_⟩
  rw [executeAll, execute_of_modify hfirst hi.symm]
  exact executeAll_of_modify hrest his hmore.symm _

theorem executeAll_rotation {m : Mnemonic} {c : Change} (h : Sweep m m cells is)
    (hm : m.operation = .modify c) (s : Machine) :
    executeAll is s = (.ok (), s.changeEach c cells) := by
  obtain ⟨cell, more, rfl, hrun⟩ := h.exists_executeAll hm hm s
  exact hrun

theorem executeAll_shift {first rest : Mnemonic} {c d : Change}
    (h : Sweep first rest cells is)
    (hfirst : first.operation = .modify c) (hrest : rest.operation = .modify d)
    (hshift : (c, d) ∈ Change.shifting) (s : Machine) :
    executeAll is s = (.ok (),
      (s.setFlag .carry false).changeEach d cells) := by
  obtain ⟨cell, more, rfl, hrun⟩ := h.exists_executeAll hfirst hrest s
  rw [hrun, Machine.changeEach_cons, Machine.changeCell_clear s cell hshift]

end Sweep

end Instruction

open Instruction Machine

/--
Shifting the bytes of a number one after the other, each with the carry of the
one before, shifts the whole number; the bit that falls out is kept in the
carry.  Rotating there and back again restores all cells and the carry.
-/
theorem multi_byte_shifts_lose_nothing {cells : List Word} (hcells : cells ≠ [])
    (distinct : cells.Nodup) (s : Machine) (up down : List Instruction) :
    (Sweep .rol .rol cells up → ∃ t, executeAll up s = (.ok (), t) ∧
        number (cells.map t.read) + 256 ^ cells.length * t.carry =
          2 * number (cells.map s.read) + s.carry ∧
        Shifted cells (cells.getLast hcells) s t) ∧
      (Sweep .asl .rol cells up → ∃ t, executeAll up s = (.ok (), t) ∧
        number (cells.map t.read) + 256 ^ cells.length * t.carry =
          2 * number (cells.map s.read) ∧
        Shifted cells (cells.getLast hcells) s t) ∧
      (Sweep .ror .ror cells.reverse down → ∃ t,
        executeAll down s = (.ok (), t) ∧
        2 * number (cells.map t.read) + t.carry =
          number (cells.map s.read) + 256 ^ cells.length * s.carry ∧
        Shifted cells (cells.head hcells) s t) ∧
      (Sweep .lsr .ror cells.reverse down → ∃ t,
        executeAll down s = (.ok (), t) ∧
        2 * number (cells.map t.read) + t.carry = number (cells.map s.read) ∧
        Shifted cells (cells.head hcells) s t) ∧
      (Sweep .rol .rol cells up → Sweep .ror .ror cells.reverse down →
        (∃ t, executeAll (up ++ down) s = (.ok (), t) ∧
          (∀ cell, t.read cell = s.read cell) ∧ t.carry = s.carry ∧
          Shifted cells (cells.head hcells) s t) ∧
        ∃ t, executeAll (down ++ up) s = (.ok (), t) ∧
          (∀ cell, t.read cell = s.read cell) ∧ t.carry = s.carry ∧
          Shifted cells (cells.getLast hcells) s t) := by
  refine ⟨fun hup => ?_, fun hup => ?_, fun hdown => ?_, fun hdown => ?_,
    fun hup hdown => ?_⟩
  · exact ⟨_, hup.executeAll_rotation rfl s, s.total_rotateLeft distinct,
      s.shifted_upwards _ hcells⟩
  · have htotal := (s.setFlag .carry false).total_rotateLeft distinct
    rw [carry_clear] at htotal
    exact ⟨_, hup.executeAll_shift rfl rfl (by decide) s, htotal,
      (shifted_upwards _ _ hcells).of_clear⟩
  · exact ⟨_, hdown.executeAll_rotation rfl s, s.total_rotateRight distinct,
      s.shifted_downwards _ hcells⟩
  · have htotal := (s.setFlag .carry false).total_rotateRight distinct
    rw [carry_clear] at htotal
    exact ⟨_, hdown.executeAll_shift rfl rfl (by decide) s, htotal,
      (shifted_downwards _ _ hcells).of_clear⟩
  · constructor
    · have htotal :=
        (total_rotateRight _ distinct).trans (s.total_rotateLeft distinct)
      obtain ⟨hnumber, hcarry⟩ := number_and_carry_eq_of_low htotal
      have shifted := (s.shifted_upwards .rotateLeft hcells).trans
        (shifted_downwards _ .rotateRight hcells)
      refine ⟨_, ?_, shifted.spares.read_eq hnumber, hcarry, shifted⟩
      rw [executeAll_append (hup.executeAll_rotation rfl s),
        hdown.executeAll_rotation rfl]
    · have htotal :=
        (total_rotateLeft _ distinct).trans (s.total_rotateRight distinct)
      obtain ⟨hnumber, hcarry⟩ := number_and_carry_eq_of_high htotal
      have shifted := (s.shifted_downwards .rotateRight hcells).trans
        (shifted_upwards _ .rotateLeft hcells)
      refine ⟨_, ?_, shifted.spares.read_eq hnumber, hcarry, shifted⟩
      rw [executeAll_append (hdown.executeAll_rotation rfl s),
        hup.executeAll_rotation rfl]

/-- Three bytes that lie apart, the lowest in the stack page, and a carry. -/
def scattered : Machine where
  regs := { Registers.powerOn with p := ⟨0x25⟩ }
  memory := (Memory.zeroed.write 0x01FD 0x80).write 0xFFFF 0x81

def scatteredCells : List Word :=
  [0x01FD, 0x0000, 0xFFFF]

def cellShift (byte : Byte) (m : Mnemonic) (cell : Word) : Instruction :=
  ⟨0x0600, ⟨byte, m, .absolute⟩, .cell cell, byte, Word.low cell,
    Word.high cell⟩

theorem scattered_loses_nothing :
    scatteredCells ≠ [] ∧ scatteredCells.Nodup ∧
      (∃ t, executeAll (scatteredCells.map (cellShift 0x2E .rol)) scattered =
        (.ok (), t) ∧
        number (scatteredCells.map t.read) + 0x1000000 * t.carry = 0x1020101 ∧
        t.regs.sp = 0xFD ∧ t.regs.p.Describes (t.read 0xFFFF)) ∧
      (∃ t, executeAll [cellShift 0x4E .lsr 0xFFFF, cellShift 0x6E .ror 0x0000,
          cellShift 0x6E .ror 0x01FD] scattered = (.ok (), t) ∧
        2 * number (scatteredCells.map t.read) + t.carry = 0x810080) ∧
      ∃ t, executeAll (scatteredCells.map (cellShift 0x2E .rol) ++
          scatteredCells.reverse.map (cellShift 0x6E .ror)) scattered =
            (.ok (), t) ∧
        (∀ cell, t.read cell = scattered.read cell) ∧ t.carry = 1 := by
  have hcells : scatteredCells ≠ [] := by decide
  have distinct : scatteredCells.Nodup := by decide
  have hup : Sweep .rol .rol scatteredCells
      (scatteredCells.map (cellShift 0x2E .rol)) := by
    decide
  have hdown : Sweep .ror .ror scatteredCells.reverse
      (scatteredCells.reverse.map (cellShift 0x6E .ror)) := by
    decide
  have hshift : Sweep .lsr .ror scatteredCells.reverse
      [cellShift 0x4E .lsr 0xFFFF, cellShift 0x6E .ror 0x0000,
        cellShift 0x6E .ror 0x01FD] := by
    decide
  have hbefore : number (scatteredCells.map scattered.read) = 0x810080 := by
    decide +kernel
  obtain ⟨hleft, -, -, -, hboth⟩ :=
    multi_byte_shifts_lose_nothing hcells distinct scattered _ _
  obtain ⟨-, -, -, hright, -⟩ :=
    multi_byte_shifts_lose_nothing hcells distinct scattered [] _
  obtain ⟨t, ht, htotal, hshifted⟩ := hleft hup
  obtain ⟨u, hu, hutotal, -⟩ := hright hshift
  obtain ⟨⟨v, hv, hread, hcarry, -⟩, -⟩ := hboth hup hdown
  rw [hbefore] at htotal hutotal
  exact ⟨hcells, distinct,
    ⟨t, ht, htotal, hshifted.spares.register .sp, hshifted.sign⟩,
    ⟨u, hu, hutotal⟩, v, hv, hread, hcarry⟩

end Cpu6502
