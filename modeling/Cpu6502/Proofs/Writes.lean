import Cpu6502.Proofs.Runs

/-!
# Which cells a program may change

An instruction changes the cell of its operand if it stores there, and the cells
of the bytes that it pushes, and no others.  So a run leaves a cell alone that
none of its instructions writes, and without storing instructions it writes
nothing outside the stack page.
-/

namespace Cpu6502

namespace Instruction

/-- A result goes to the operand, and the operand is not the accumulator. -/
def altersOperand (i : Instruction) : Bool :=
  match i.mnemonic with
  | .sta | .stx | .sty | .inc | .dec => true
  | .asl | .lsr | .rol | .ror => i.mode != .accumulator
  | _ => false

/-- The bytes pushed, from the top down, for an opcode at `r.pc`. -/
def pushes (i : Instruction) (r : Registers) : List Byte :=
  match i.mnemonic with
  | .pha => [r.a]
  | .php => [r.p.bits]
  | .jsr => [Word.high (r.pc + 2), Word.low (r.pc + 2)]
  | .brk =>
      [Word.high (r.pc + 1), Word.low (r.pc + 1),
        (r.p.set .breakCommand true).bits]
  | _ => []

def footprint (i : Instruction) (r : Registers) : List Word :=
  (if i.altersOperand then i.operand.address?.toList else []) ++
    (stacked r.sp (i.pushes r)).map Prod.fst

end Instruction

/-- The footprints of instructions that are carried out one after the other. -/
def Machine.touched (s : Machine) : List Instruction → List Word
  | [] => []
  | i :: is => i.footprint s.regs ++ s.step.2.touched is

theorem getElem?_of_mem_stacked {sp : Byte} {bytes : List Byte}
    {write : Word × Byte} (h : write ∈ stacked sp bytes) :
    ∃ k, bytes[k]? = some write.2 ∧
      write.1 = Word.stackPage (sp - BitVec.ofNat 8 k) := by
  induction bytes generalizing sp with
  | nil => cases h
  | cons byte bytes ih =>
      rw [stacked, List.mem_cons] at h
      rcases h with rfl | h
      · exact ⟨0, rfl, by simp⟩
      · obtain ⟨k, hbyte, hcell⟩ := ih h
        refine ⟨k + 1, hbyte, ?_⟩
        rw [hcell]
        congr 1
        bv_omega

theorem stackPage_mem_stacked {sp : Byte} {bytes : List Byte} {k : Nat}
    (h : k < bytes.length) :
    Word.stackPage (sp - BitVec.ofNat 8 k) ∈
      (stacked sp bytes).map Prod.fst := by
  induction bytes generalizing sp k with
  | nil => simp at h
  | cons byte bytes ih =>
      rw [stacked, List.map_cons, List.mem_cons]
      cases k with
      | zero => exact .inl (by simp)
      | succ k =>
          have hsp : sp - BitVec.ofNat 8 (k + 1) =
              sp - 1 - BitVec.ofNat 8 k := by
            bv_omega
          rw [hsp]
          exact .inr (ih (by simpa using h))

theorem Word.stackPage_mem (offset : Byte) :
    0x0100 ≤ stackPage offset ∧ stackPage offset ≤ 0x01FF := by
  have h := toNat_ofBytes offset 0x01
  have hoffset := offset.isLt
  simp only [BitVec.le_def, stackPage, h]
  simp
  omega

/-- The lengths that make the pushed addresses what they are. -/
theorem Encoding.length_of_mem_documented :
    ∀ e ∈ documented,
      (e.mnemonic = .jsr → e.length = 3) ∧
        (e.mnemonic = .brk → e.length = 1) := by
  decide +kernel

namespace Instruction.DecodedFrom

variable {i : Instruction} {r : Registers} {m : Memory}

theorem altersOperand_of_stores (h : i.DecodedFrom r m) {cell : Word}
    (hstores : i.mnemonic.operation.stores) (hcell : i.operand = .cell cell) :
    i.altersOperand := by
  have hmode : i.mode ≠ .accumulator := by
    intro haccumulator
    rw [h.operand, haccumulator] at hcell
    cases hcell
  unfold altersOperand
  cases hmnemonic : i.mnemonic <;>
    simp_all [Mnemonic.operation, Operation.stores]

theorem pushedBytes_eq (h : i.DecodedFrom r m) :
    (⟨r.advance (BitVec.ofNat 16 i.encoding.length), m⟩ : Machine).pushedBytes
      i.mnemonic.operation = i.pushes r := by
  obtain ⟨hjsr, hbrk⟩ :=
    Encoding.length_of_mem_documented i.encoding
      (Encoding.mem_of_lookup h.encoding)
  unfold pushes
  cases hmnemonic : i.mnemonic
  case jsr =>
    rw [hjsr hmnemonic]
    simp only [Mnemonic.operation, Machine.pushedBytes, Registers.advance]
    rw [show r.pc + BitVec.ofNat 16 3 - 1 = r.pc + 2 by bv_omega]
  case brk =>
    rw [hbrk hmnemonic]
    rfl
  all_goals rfl

theorem mem_footprint (h : i.DecodedFrom r m) {cell : Word}
    (hcell : cell ∈
      ((⟨r.advance (BitVec.ofNat 16 i.encoding.length), m⟩ : Machine).writes
      i.operand i.mnemonic.operation).map Prod.fst) : cell ∈ i.footprint r := by
  rw [footprint, List.mem_append]
  rcases Machine.mem_writes hcell with ⟨hstores, hoperand⟩ | ⟨k, hk, rfl⟩
  · left
    rw [if_pos (h.altersOperand_of_stores hstores hoperand), hoperand]
    simp [Operand.address?]
  · right
    rw [← length_pushedBytes, h.pushedBytes_eq] at hk
    exact stackPage_mem_stacked hk

end Instruction.DecodedFrom

namespace Machine

variable {s : Machine} {i : Instruction}

theorem read_step_of_not_mem_footprint
    (h : (Instruction.decode s.regs s.memory).1 = .ok i)
    {cell : Word} (hcell : cell ∉ i.footprint s.regs) :
    s.step.2.read cell = s.read cell := by
  have hfrom := (Instruction.decodedFrom_of_decode (Prod.ext h rfl)).1
  rw [read, (effect_of_step h).memory_eq]
  apply Memory.read_writeAll_of_not_mem
  exact mt hfrom.mem_footprint hcell

theorem read_pushed_of_step (h : (Instruction.decode s.regs s.memory).1 = .ok i)
    {write : Word × Byte}
    (hwrite : write ∈ stacked s.regs.sp (i.pushes s.regs)) :
    s.step.2.read write.1 = write.2 := by
  have hfrom := (Instruction.decodedFrom_of_decode (Prod.ext h rfl)).1
  obtain ⟨k, hbyte, hcell⟩ := getElem?_of_mem_stacked hwrite
  rw [← hfrom.pushedBytes_eq] at hbyte
  rw [hcell]
  exact (effect_of_step h).read_pushed hbyte

end Machine

namespace Runs

variable {s t : Machine} {is : List Instruction} {cell : Word}

theorem read_of_not_mem_touched (run : Runs s is t) (h : cell ∉ s.touched is) :
    t.read cell = s.read cell := by
  induction run with
  | refl => rfl
  | @next s s' t i is decoded succeeded rest ih =>
      obtain rfl : s' = s.step.2 := by rw [succeeded]
      rw [Machine.touched, List.mem_append, not_or] at h
      rw [ih h.2, Machine.read_step_of_not_mem_footprint decoded h.1]

theorem stackPage_of_mem_touched (h : ∀ i ∈ is, i.altersOperand = false)
    (hcell : cell ∈ s.touched is) : 0x0100 ≤ cell ∧ cell ≤ 0x01FF := by
  induction is generalizing s with
  | nil => cases hcell
  | cons i is ih =>
      rw [List.forall_mem_cons] at h
      rw [Machine.touched, List.mem_append, Instruction.footprint, h.1] at hcell
      simp only [Bool.false_eq_true, if_false, List.nil_append,
        List.mem_map] at hcell
      rcases hcell with ⟨write, hwrite, rfl⟩ | hcell
      · obtain ⟨k, -, hcell⟩ := getElem?_of_mem_stacked hwrite
        rw [hcell]
        exact Word.stackPage_mem _
      · exact ih h.2 hcell

end Runs

/--
A step changes no cell outside the footprint of its instruction and leaves the
bytes it pushes on the stack.  A run changes no cell outside the footprints of
its instructions, so that without an instruction that writes its operand it
stays in the page of the stack.
-/
theorem only_footprints_change (s : Machine) :
    (∀ t, s.step = (.ok (), t) → ∃ i,
      (Instruction.decode s.regs s.memory).1 = .ok i ∧
        (∀ cell, cell ∉ i.footprint s.regs → t.read cell = s.read cell) ∧
        ∀ write ∈ stacked s.regs.sp (i.pushes s.regs),
        t.read write.1 = write.2) ∧
      ∀ is t, Runs s is t →
        (∀ cell, cell ∉ s.touched is → t.read cell = s.read cell) ∧
          ((∀ i ∈ is, i.altersOperand = false) →
            ∀ cell, cell < 0x0100 ∨ 0x01FF < cell →
              t.read cell = s.read cell) := by
  constructor
  · intro t hstep
    obtain ⟨i, hdecode⟩ := Machine.decode_of_step hstep
    obtain rfl : t = s.step.2 := by rw [hstep]
    exact ⟨i, hdecode,
      fun cell hcell => Machine.read_step_of_not_mem_footprint hdecode hcell,
      fun write hwrite => Machine.read_pushed_of_step hdecode hwrite⟩
  · intro is t run
    refine ⟨fun cell hcell => run.read_of_not_mem_touched hcell, ?_⟩
    intro hstores cell hcell
    apply run.read_of_not_mem_touched
    intro hmem
    obtain ⟨hlow, hhigh⟩ := Runs.stackPage_of_mem_touched hstores hmem
    rcases hcell with hcell | hcell
    · exact absurd hlow (BitVec.not_le.mpr hcell)
    · exact absurd hhigh (BitVec.not_le.mpr hcell)

/-- The status is pushed, and then the cell that it lies in is incremented. -/
def pushThenIncrement : Machine :=
  ⟨{ Registers.powerOn with pc := 0x0200 },
    Memory.zeroed.load 0x0200 [0x08, 0xEE, 0xFD, 0x01]⟩

def pushRun : List Instruction :=
  [ ⟨0x0200, ⟨0x08, .php, .implicit⟩, .absent, 0x08, 0, 0⟩ ]

def pushThenIncrementRun : List Instruction :=
  pushRun ++
    [ ⟨0x0201, ⟨0xEE, .inc, .absolute⟩, .cell 0x01FD, 0xEE, 0xFD, 0x01⟩ ]

theorem pushThenIncrement_changes :
    pushThenIncrement.step.2.read 0x01FD = 0x24 ∧
      (∀ cell, 0x01FF < cell →
        pushThenIncrement.step.2.read cell = pushThenIncrement.read cell) ∧
      ∀ cell, cell ≠ 0x01FD →
        pushThenIncrement.step.2.step.2.read cell =
          pushThenIncrement.read cell := by
  have hstep : pushThenIncrement.step = (.ok (), pushThenIncrement.step.2) :=
    Prod.ext rfl rfl
  have push : Runs pushThenIncrement pushRun pushThenIncrement.step.2 :=
    .next_of_decode rfl (.refl _)
  have increment : Runs pushThenIncrement pushThenIncrementRun
      pushThenIncrement.step.2.step.2 :=
    .next_of_decode rfl (.next_of_decode rfl (.refl _))
  have htouched : pushThenIncrement.touched pushThenIncrementRun =
      [0x01FD, 0x01FD] := by
    decide +kernel
  obtain ⟨hbyte, hruns⟩ := only_footprints_change pushThenIncrement
  refine ⟨?_,
    fun cell hcell => (hruns _ _ push).2 (by decide) cell (.inr hcell), ?_⟩
  · obtain ⟨i, hdecode, -, hpushed⟩ := hbyte _ hstep
    cases hdecode
    exact hpushed (0x01FD, 0x24) (by decide +kernel)
  · intro cell hcell
    apply (hruns _ _ increment).1
    rw [htouched]
    simpa using hcell

end Cpu6502
