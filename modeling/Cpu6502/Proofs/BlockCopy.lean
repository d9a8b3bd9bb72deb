import Cpu6502.Proofs.Loop
import Cpu6502.Proofs.Registers

/-!
# Copying a block

Two pointers in page zero tell where the bytes come from and where they go, and
Y counts them up to a bound, where zero stands for 256.  What has been copied so
far is read from memory as it was at the beginning, since no byte goes where one
is still to be fetched.
-/

namespace Cpu6502

open Statement

structure BlockCopy where
  sourcePointer : Byte
  targetPointer : Byte
  count : Byte

namespace BlockCopy

def clearY : Statement :=
  ⟨⟨0xA0, .ldy, .immediate⟩, [0x00], rfl, rfl⟩

def countUp : Statement :=
  .implied 0xC8 .iny rfl

variable (copy : BlockCopy)

def fetch : Statement :=
  ⟨⟨0xB1, .lda, .indirectIndexed⟩, [copy.sourcePointer], rfl, rfl⟩

def put : Statement :=
  ⟨⟨0x91, .sta, .indirectIndexed⟩, [copy.targetPointer], rfl, rfl⟩

def compareCount : Statement :=
  ⟨⟨0xC0, .cpy, .immediate⟩, [copy.count], rfl, rfl⟩

def code : List Byte :=
  [0xA0, 0x00, 0xB1, copy.sourcePointer, 0x91, copy.targetPointer, 0xC8,
    0xC0, copy.count, 0xD0, 0xF7]

def loop : Loop where
  body := [copy.fetch, copy.put, countUp, copy.compareCount]
  straight := by
    simp only [Straight, List.forall_mem_cons, List.not_mem_nil, false_implies,
      implies_true, and_true]
    exact ⟨⟨rfl, rfl⟩, ⟨rfl, rfl⟩, ⟨rfl, rfl⟩, rfl, rfl⟩
  short := by
    have hlength : (Statement.code
        [copy.fetch, copy.put, countUp, copy.compareCount]).length = 7 :=
      rfl
    rw [hlength]
    decide

theorem code_eq : copy.code = clearY.bytes ++ copy.loop.code := by
  have hlength : (Statement.code copy.loop.body).length = 7 := rfl
  have hbranch : copy.loop.branch.bytes = [0xD0, 0xF7] := by
    simp only [bytes, Loop.branch, hlength]
    decide
  rw [Loop.code, code_append, code_cons, hbranch]
  rfl

/-- How many bytes are copied. -/
def size : Nat :=
  Byte.turns copy.count

/-- Where the bytes come from. -/
def source (s : Machine) : Word :=
  s.memory.readZeroPageWord copy.sourcePointer

/-- Where the bytes go. -/
def target (s : Machine) : Word :=
  s.memory.readZeroPageWord copy.targetPointer

/-- The cells in page zero that hold the two addresses. -/
def pointers : List Word :=
  [Word.zeroPage copy.sourcePointer, Word.zeroPage (copy.sourcePointer + 1),
    Word.zeroPage copy.targetPointer, Word.zeroPage (copy.targetPointer + 1)]

/--
The bytes are copied neither over the code nor over the pointers nor over bytes
that are still to be copied.
-/
structure Apart (s : Machine) : Prop where
  code : ∀ i < copy.size, ∀ k < copy.code.length,
    copy.target s + BitVec.ofNat 16 i ≠ s.regs.pc + BitVec.ofNat 16 k
  pointers : ∀ i < copy.size, copy.target s + BitVec.ofNat 16 i ∉ copy.pointers
  ahead : ∀ j < copy.size, ∀ i < j,
    copy.target s + BitVec.ofNat 16 i ≠ copy.source s + BitVec.ofNat 16 j

/-- A step to clear Y, and for each byte the four of the body and the branch. -/
def steps : Nat :=
  1 + copy.size * 5

/-- The address behind the code. -/
def exit (s : Machine) : Word :=
  s.regs.pc + BitVec.ofNat 16 copy.code.length

/-- Memory when some of the bytes have been copied. -/
def copied (s : Machine) (i : Nat) : Memory :=
  s.memory.load (copy.target s) (s.memory.stretch (copy.source s) i)

theorem size_bounds : 0 < copy.size ∧ copy.size ≤ 256 :=
  Byte.turns_bounds copy.count

/-- Y runs through all its other values before it comes to the count. -/
theorem sub_count_eq_zero_iff {j : Nat} (hj : 0 < j) (hle : j ≤ copy.size) :
    BitVec.ofNat 8 j - copy.count = 0 ↔ j = copy.size := by
  rw [size, ← Byte.ofNat_eq_iff_turns copy.count hj hle]
  bv_omega

theorem setWidth_ofNat {i : Nat} (hi : i < copy.size) :
    (BitVec.ofNat 8 i).setWidth 16 = BitVec.ofNat 16 i := by
  have hbounds := copy.size_bounds
  bv_omega

/-! ## Memory -/

variable {copy} {s : Machine}

theorem copied_succ (i : Nat) :
    copy.copied s (i + 1) =
      (copy.copied s i).write (copy.target s + BitVec.ofNat 16 i)
        (s.read (copy.source s + BitVec.ofNat 16 i)) := by
  have hlast : s.memory.stretch (copy.source s + BitVec.ofNat 16 i) 1 =
      [s.read (copy.source s + BitVec.ofNat 16 i)] := by
    simp [Memory.stretch, Machine.read]
  rw [copied, Memory.stretch_add, Memory.load_append,
    Memory.length_stretch, hlast]
  rfl

theorem read_copied_of_ne {i : Nat} {cell : Word}
    (h : ∀ j < i, cell ≠ copy.target s + BitVec.ofNat 16 j) :
    (copy.copied s i).read cell = s.read cell := by
  apply Memory.read_load_of_ne
  rwa [Memory.length_stretch]

theorem read_copied {i j : Nat} (hi : i ≤ 256) (hj : j < i) :
    (copy.copied s i).read (copy.target s + BitVec.ofNat 16 j) =
      s.read (copy.source s + BitVec.ofNat 16 j) := by
  have hlength : (s.memory.stretch (copy.source s) i).length ≤ Memory.size := by
    rw [Memory.length_stretch]
    exact Nat.le_trans hi (by decide)
  exact (Memory.Holds.of_load s.memory (copy.target s) hlength).read
    (Memory.getElem?_stretch s.memory (copy.source s) hj)

namespace Apart

variable (apart : copy.Apart s) {i : Nat} (hi : i ≤ copy.size)

include apart hi

theorem holds_copied (placed : s.memory.Holds s.regs.pc copy.code) :
    (copy.copied s i).Holds s.regs.pc copy.code := by
  refine Eq.trans (List.map_congr_left fun k hk => ?_) placed
  apply read_copied_of_ne
  intro j hj
  exact (apart.code j (Nat.lt_of_lt_of_le hj hi) k (List.mem_range.mp hk)).symm

theorem read_pointer {cell : Word} (hcell : cell ∈ copy.pointers) :
    (copy.copied s i).read cell = s.read cell := by
  apply read_copied_of_ne
  rintro j hj rfl
  exact apart.pointers j (Nat.lt_of_lt_of_le hj hi) hcell

theorem source_copied :
    (copy.copied s i).readZeroPageWord copy.sourcePointer = copy.source s := by
  rw [Memory.readZeroPageWord,
    apart.read_pointer hi (by simp [BlockCopy.pointers]),
    apart.read_pointer hi (by simp [BlockCopy.pointers])]
  rfl

theorem target_copied :
    (copy.copied s i).readZeroPageWord copy.targetPointer = copy.target s := by
  rw [Memory.readZeroPageWord,
    apart.read_pointer hi (by simp [BlockCopy.pointers]),
    apart.read_pointer hi (by simp [BlockCopy.pointers])]
  rfl

omit hi in
theorem read_source (hi : i < copy.size) :
    (copy.copied s i).read (copy.source s + BitVec.ofNat 16 i) =
      s.read (copy.source s + BitVec.ofNat 16 i) :=
  read_copied_of_ne fun j hj => (apart.ahead i hi j hj).symm

end Apart

/-! ## The body of the loop -/

/-- What holds whenever the loop begins. -/
structure Copied (copy : BlockCopy) (s : Machine) (i : Nat) (u : Machine) :
    Prop where
  memory : u.memory = copy.copied s i
  y : u.regs.y = BitVec.ofNat 8 i
  x : u.regs.x = s.regs.x
  sp : u.regs.sp = s.regs.sp
  flags : ∀ f, f ≠ .carry → f ≠ .zero → f ≠ .negative →
    u.regs.p.get f = s.regs.p.get f

/-- The byte that Y tells, in the accumulator and in its new place. -/
def moved (copy : BlockCopy) (s : Machine) (i : Nat) (u : Machine) : Machine :=
  (u.produce .a (s.read (copy.source s + BitVec.ofNat 16 i))).write
    (copy.target s + BitVec.ofNat 16 i)
    (s.read (copy.source s + BitVec.ofNat 16 i))

/-- Y counted up and compared with the count. -/
def counted (copy : BlockCopy) (i : Nat) (u : Machine) : Machine :=
  (u.produce .y (BitVec.ofNat 8 (i + 1))).compare .y copy.count

variable {u : Machine} {i : Nat}

theorem perform_fetch (apart : copy.Apart s) (hi : i < copy.size)
    (h : Copied copy s i u) :
    copy.fetch.perform u =
      (u.goto (u.regs.pc + 2)).produce .a
        (s.read (copy.source s + BitVec.ofNat 16 i)) := by
  have hperform : copy.fetch.perform u = (u.goto (u.regs.pc + 2)).produce .a
      (u.memory.read (u.memory.readZeroPageWord copy.sourcePointer +
        u.regs.y.setWidth 16)) := rfl
  rw [hperform, h.memory, h.y, copy.setWidth_ofNat hi,
    apart.source_copied (Nat.le_of_lt hi), apart.read_source hi]

/-- The first two statements of the body move one byte. -/
theorem perform_put (apart : copy.Apart s) (hi : i < copy.size)
    (h : Copied copy s i u) :
    copy.put.perform (copy.fetch.perform u) =
      copy.moved s i (u.goto (u.regs.pc + 4)) := by
  have hperform (v : Machine) : copy.put.perform v =
      (v.goto (v.regs.pc + 2)).write
        (v.memory.readZeroPageWord copy.targetPointer +
          v.regs.y.setWidth 16) v.regs.a := rfl
  have hpc : u.regs.pc + 2 + 2 = u.regs.pc + 4 := by
    bv_omega
  rw [hperform, perform_fetch apart hi h, moved, ← hpc]
  change Machine.write _ (u.memory.readZeroPageWord copy.targetPointer +
    u.regs.y.setWidth 16) _ = _
  rw [h.memory, h.y, copy.setWidth_ofNat hi,
    apart.target_copied (Nat.le_of_lt hi)]
  rfl

/-- The flags are those of the comparison, whatever was recorded before. -/
theorem get_counted (copy : BlockCopy) (s : Machine) (i : Nat)
    (u : Machine) (f : Flag) :
    (copy.counted i (copy.moved s i u)).regs.p.get f =
      if f = .carry then decide (copy.count ≤ BitVec.ofNat 8 (i + 1))
      else if f = .negative then (BitVec.ofNat 8 (i + 1) - copy.count).msb
      else if f = .zero then BitVec.ofNat 8 (i + 1) - copy.count == 0
      else u.regs.p.get f := by
  have hflags : (copy.counted i (copy.moved s i u)).regs.p =
      (((u.regs.p.recordResult
        (s.read (copy.source s + BitVec.ofNat 16 i))).recordResult
          (BitVec.ofNat 8 (i + 1))).recordResult
            (BitVec.ofNat 8 (i + 1) - copy.count)).set .carry
          (decide (copy.count ≤ BitVec.ofNat 8 (i + 1))) := rfl
  rw [hflags]
  cases f <;> simp [Status.get_set, Status.get_recordResult]

theorem memory_put (apart : copy.Apart s) (hi : i < copy.size)
    (h : Copied copy s i u) :
    (copy.put.perform (copy.fetch.perform u)).memory =
      copy.copied s (i + 1) := by
  rw [perform_put apart hi h, copied_succ, ← h.memory]
  rfl

/-- Memory changes only when the byte is put in its place. -/
theorem memory_performAll_take (apart : copy.Apart s) (hi : i < copy.size)
    (h : Copied copy s i u) {r : Nat} (hr : r ≤ copy.loop.body.length) :
    (performAll (copy.loop.body.take r) u).memory =
      if r < 2 then copy.copied s i else copy.copied s (i + 1) := by
  have hcountUp (v : Machine) : (countUp.perform v).memory = v.memory := rfl
  have hcompare (v : Machine) : (copy.compareCount.perform v).memory =
      v.memory := rfl
  have hput := memory_put apart hi h
  match r, hr with
  | 0, _ => exact h.memory
  | 1, _ =>
      exact (congrArg Machine.memory (perform_fetch apart hi h)).trans h.memory
  | 2, _ => exact hput
  | 3, _ => exact (hcountUp _).trans hput
  | 4, _ => exact ((hcompare _).trans (hcountUp _)).trans hput

/-- The body moves one byte and counts it. -/
theorem performAll_body (apart : copy.Apart s)
    (placed : s.memory.Holds s.regs.pc copy.code)
    (hi : i < copy.size) (h : Copied copy s i u)
    (hpc : u.regs.pc = s.regs.pc + 2) :
    performAll copy.loop.body u =
      copy.counted i (copy.moved s i (u.goto (s.regs.pc + 9))) := by
  have hperform (v : Machine) : copy.compareCount.perform (countUp.perform v) =
      ((v.goto (v.regs.pc + 1 + 2)).produce .y (v.regs.y + 1)).compare .y
        (v.read (v.regs.pc + 1 + 1)) := rfl
  -- The count is read where it stands in the code, after the byte is written.
  have hcount :
      (copy.moved s i (u.goto (u.regs.pc + 4))).read (u.regs.pc + 4 + 1 + 1) =
      copy.count := by
    have hcell : s.regs.pc + 2 + 4 + 1 + 1 = s.regs.pc + BitVec.ofNat 16 8 := by
      bv_omega
    rw [Machine.read, ← perform_put apart hi h,
      memory_put apart hi h, hpc, hcell]
    exact (apart.holds_copied hi placed).read rfl
  have hnext : s.regs.pc + 2 + 4 + 1 + 2 = s.regs.pc + 9 := by
    bv_omega
  have hy : u.regs.y + 1 = BitVec.ofNat 8 (i + 1) := by
    rw [h.y, BitVec.ofNat_add]
    rfl
  calc performAll copy.loop.body u
      = copy.compareCount.perform (countUp.perform
          (copy.put.perform (copy.fetch.perform u))) := rfl
    _ = ((copy.moved s i (u.goto (u.regs.pc + 4 + 1 + 2))).produce .y
          (u.regs.y + 1)).compare .y
        ((copy.moved s i (u.goto (u.regs.pc + 4))).read
          (u.regs.pc + 4 + 1 + 1)) := by
        rw [perform_put apart hi h, hperform]
        rfl
    _ = copy.counted i (copy.moved s i (u.goto (s.regs.pc + 9))) := by
        rw [hcount, hpc, hnext, hy]
        rfl

/-- What holds whenever the loop begins again. -/
theorem copied_body (apart : copy.Apart s)
    (placed : s.memory.Holds s.regs.pc copy.code)
    (hi : i < copy.size) (h : Copied copy s i u)
    (hpc : u.regs.pc = s.regs.pc + 2) :
    Copied copy s (i + 1) (performAll copy.loop.body u) where
  memory := by
    have hmemory := memory_performAll_take apart hi h (Nat.le_refl _)
    rwa [List.take_length] at hmemory
  y := by
    rw [performAll_body apart placed hi h hpc]
    rfl
  x := by
    rw [performAll_body apart placed hi h hpc]
    exact h.x
  sp := by
    rw [performAll_body apart placed hi h hpc]
    exact h.sp
  flags f hcarry hzero hnegative := by
    rw [performAll_body apart placed hi h hpc, get_counted, if_neg hcarry,
      if_neg hnegative, if_neg hzero]
    exact h.flags f hcarry hzero hnegative

theorem Copied.goto (h : Copied copy s i u) (address : Word) :
    Copied copy s i (u.goto address) :=
  ⟨h.memory, h.y, h.x, h.sp, h.flags⟩

/-! ## The whole run -/

/-- The address that the branch leads back to. -/
def again (s : Machine) : Word :=
  s.regs.pc + 2

theorem perform_clearY (placed : s.memory.Holds s.regs.pc copy.code) :
    clearY.perform s = (s.goto (again s)).produce .y 0 := by
  have hperform : clearY.perform s =
      (s.goto (s.regs.pc + 2)).produce .y
        (s.memory.read (s.regs.pc + BitVec.ofNat 16 1)) := rfl
  rw [hperform, placed.read rfl, again]

theorem copied_clearY (placed : s.memory.Holds s.regs.pc copy.code) :
    Copied copy s 0 (clearY.perform s) := by
  rw [perform_clearY placed]
  refine ⟨rfl, rfl, rfl, rfl, fun f _ hzero hnegative => ?_⟩
  change (s.regs.p.recordResult 0).get f = _
  rw [Status.get_recordResult, if_neg hnegative, if_neg hzero]

theorem copied_passes (apart : copy.Apart s)
    (placed : s.memory.Holds s.regs.pc copy.code) :
    ∀ j ≤ copy.size,
    Copied copy s j ((copy.loop.pass (again s))^[j] (clearY.perform s)) := by
  intro j hj
  induction j with
  | zero => exact copied_clearY placed
  | succ j ih =>
      rw [Function.iterate_succ_apply']
      exact copied_body apart placed hj ((ih (Nat.le_of_succ_le hj)).goto _) rfl

theorem passes_succ (apart : copy.Apart s)
    (placed : s.memory.Holds s.regs.pc copy.code)
    (hi : i < copy.size) : ∃ u, Copied copy s i u ∧
      (copy.loop.pass (again s))^[i + 1] (clearY.perform s) =
        copy.counted i (copy.moved s i (u.goto (s.regs.pc + 9))) := by
  refine ⟨_, copied_passes apart placed i (Nat.le_of_lt hi), ?_⟩
  rw [Function.iterate_succ_apply']
  exact performAll_body apart placed hi
    ((copied_passes apart placed i (Nat.le_of_lt hi)).goto _)
    rfl

/-- The zero flag is set when the last byte has been copied and not before. -/
theorem zero_passes (apart : copy.Apart s)
    (placed : s.memory.Holds s.regs.pc copy.code)
    {j : Nat} (hj : 0 < j) (hle : j ≤ copy.size) :
    ((copy.loop.pass (again s))^[j] (clearY.perform s)).regs.p.get .zero =
      decide (j = copy.size) := by
  obtain ⟨i, rfl⟩ := Nat.exists_eq_add_of_le' hj
  obtain ⟨u, -, hpasses⟩ := passes_succ apart placed hle
  rw [hpasses, get_counted, if_neg (by decide), if_neg (by decide), if_pos rfl,
    Bool.eq_iff_iff, beq_iff_eq, copy.sub_count_eq_zero_iff hj hle,
    decide_eq_true_iff]

/-- The registers when all bytes have been copied. -/
theorem regs_passes (apart : copy.Apart s)
    (placed : s.memory.Holds s.regs.pc copy.code) :
    ((copy.loop.pass (again s))^[copy.size] (clearY.perform s)).regs =
      { pc := s.regs.pc + 9
        sp := s.regs.sp
        a := s.read (copy.source s + BitVec.ofNat 16 (copy.size - 1))
        x := s.regs.x
        y := copy.count
        p := ((s.regs.p.set .zero true).set .negative false).set
          .carry true } := by
  obtain ⟨i, hi⟩ := Nat.exists_eq_add_of_le' copy.size_bounds.1
  have hlt : i < copy.size := Nat.lt_of_succ_le (Nat.le_of_eq hi.symm)
  obtain ⟨u, h, hpasses⟩ := passes_succ apart placed hlt
  have hcount : BitVec.ofNat 8 (i + 1) = copy.count := by
    rw [← hi]
    exact Byte.ofNat_turns copy.count
  have hp : (copy.counted i (copy.moved s i (u.goto (s.regs.pc + 9)))).regs.p =
      ((s.regs.p.set .zero true).set .negative false).set .carry true := by
    apply Status.ext_get
    intro f
    rw [get_counted, hcount, BitVec.sub_self,
      decide_eq_true (BitVec.le_refl copy.count)]
    simp only [Status.get_set]
    split
    · rfl
    · split
      · rfl
      next hcarry hnegative =>
        split
        · rfl
        next hzero => exact h.flags f hcarry hzero hnegative
  rw [hi, hpasses, Nat.add_sub_cancel, ← hcount, ← hp, ← h.x, ← h.sp]
  rfl

/-- The loop ends when all bytes have been copied. -/
theorem after_steps (placed : s.memory.Holds s.regs.pc copy.code)
    (apart : copy.Apart s) :
    s.Proceeds copy.steps (copy.exit s) ∧
      s.after copy.steps =
        ((copy.loop.pass (again s))^[copy.size] (clearY.perform s)).goto
          (copy.exit s) := by
  have hstep : s.step = (.ok (), clearY.perform s) := by
    rw [code_eq] at placed
    exact step_of_holds placed.of_append.1
  have hafter : s.after 1 = clearY.perform s := by
    rw [Machine.after, Machine.after, hstep]
  have hagain : (clearY.perform s).regs.pc = again s := by
    rw [perform_clearY placed]
    rfl
  have hexit : copy.loop.exit (again s) = copy.exit s := by
    rw [Loop.exit, exit, code_eq, List.length_append, BitVec.ofNat_add,
      ← BitVec.add_assoc]
    rfl
  have hfirst : s.Proceeds 1 (copy.exit s) := by
    intro k hk
    obtain rfl : k = 0 := Nat.lt_one_iff.mp hk
    refine ⟨congrArg Prod.fst hstep, ?_⟩
    change s.regs.pc ≠ s.regs.pc + 11
    bv_omega
  have hheld (j : Nat) (hj : j < copy.size) (r : Nat)
      (hr : r ≤ copy.loop.body.length) :
      (performAll (copy.loop.body.take r) (((copy.loop.pass (again s))^[j]
        (clearY.perform s)).goto (again s))).memory.Holds
          (again s) copy.loop.code := by
    have hmemory := memory_performAll_take apart hj
      ((copied_passes apart placed j (Nat.le_of_lt hj)).goto (again s)) hr
    have hcode :
        (if r < 2 then copy.copied s j else copy.copied s (j + 1)).Holds
          s.regs.pc copy.code := by
      split
      · exact apart.holds_copied (Nat.le_of_lt hj) placed
      · exact apart.holds_copied hj placed
    rw [hmemory]
    rw [code_eq] at hcode
    exact hcode.of_append.2
  have hloop := copy.loop.repeats (s := clearY.perform s) (k := copy.size)
  rw [hagain, hexit] at hloop
  obtain ⟨hproceeds, hend⟩ := hloop
    (fun j hj r hr heq => by rw [heq]; exact hheld j hj r hr)
    (fun j hj hlt => (zero_passes apart placed hj (Nat.le_of_lt hlt)).trans
      (decide_eq_false (Nat.ne_of_lt hlt)))
    ((zero_passes apart placed copy.size_bounds.1 (Nat.le_refl _)).trans
      (decide_eq_true rfl))
    copy.size_bounds.1
  rw [← hafter] at hproceeds hend
  refine ⟨hfirst.append hproceeds, ?_⟩
  rw [steps, Machine.after_add]
  rw [hafter] at hend ⊢
  exact hend

end BlockCopy

open BlockCopy in
/--
The copying loop leaves at the target what was at the source, and everything
else as it was, if the two blocks, the pointers and the loop itself do not get
in each other's way.
-/
theorem blockCopy_copies (copy : BlockCopy) {s : Machine}
    (placed : s.memory.Holds s.regs.pc copy.code) (apart : copy.Apart s) :
    s.Proceeds copy.steps (copy.exit s) ∧
      (∀ i < copy.size,
        (s.after copy.steps).read (copy.target s + BitVec.ofNat 16 i) =
        s.read (copy.source s + BitVec.ofNat 16 i)) ∧
      (∀ cell, (∀ i < copy.size, cell ≠ copy.target s + BitVec.ofNat 16 i) →
        (s.after copy.steps).read cell = s.read cell) ∧
      (s.after copy.steps).regs =
        { pc := copy.exit s
          sp := s.regs.sp
          a := s.read (copy.source s + BitVec.ofNat 16 (copy.size - 1))
          x := s.regs.x
          y := copy.count
          p := ((s.regs.p.set .zero true).set .negative false).set
            .carry true } := by
  obtain ⟨hproceeds, hafter⟩ := after_steps placed apart
  have hmemory : (s.after copy.steps).memory = copy.copied s copy.size := by
    rw [hafter]
    exact (copied_passes apart placed copy.size (Nat.le_refl _)).memory
  refine ⟨hproceeds, fun i hi => ?_, fun cell hcell => ?_, ?_⟩
  · rw [Machine.read, hmemory]
    exact read_copied copy.size_bounds.2 hi
  · rw [Machine.read, hmemory]
    exact read_copied_of_ne hcell
  · rw [hafter]
    exact congrArg (fun r : Registers => { r with pc := copy.exit s })
      (regs_passes apart placed)

/-- Three bytes are to be moved to the cells that begin one below. -/
def moveDown : BlockCopy :=
  ⟨0xFF, 0x10, 3⟩

/-- The bytes lie across the end of memory, their pointer across page zero's. -/
def atMemoryEnd : Machine where
  regs := { Registers.powerOn with pc := 0x0600, x := 0x55 }
  memory := (((Memory.zeroed.load 0x0600 moveDown.code).load 0x00FF [0xFE]).load
    0x0010 [0xFD, 0xFF]).load 0xFFFE [0x41, 0x42, 0xFF]

theorem moveDown_copies_three_bytes :
    atMemoryEnd.memory.Holds 0x0600 moveDown.code ∧ moveDown.Apart atMemoryEnd ∧
      atMemoryEnd.Proceeds 16 0x060B ∧
      (atMemoryEnd.after 16).read 0xFFFD = 0x41 ∧
      (atMemoryEnd.after 16).read 0xFFFE = 0x42 ∧
      (atMemoryEnd.after 16).read 0xFFFF = 0xFF ∧
      (atMemoryEnd.after 16).regs =
        { pc := 0x060B, sp := 0xFD, a := 0xFF, x := 0x55, y := 3,
          p := ⟨0x27⟩ } := by
  have placed : atMemoryEnd.memory.Holds 0x0600 moveDown.code := by
    decide +kernel
  have apart : moveDown.Apart atMemoryEnd :=
    ⟨by decide +kernel, by decide +kernel, by decide +kernel⟩
  obtain ⟨hproceeds, hcopied, -, hregs⟩ :=
    blockCopy_copies moveDown placed apart
  have htarget : moveDown.target atMemoryEnd = 0xFFFD := by
    decide +kernel
  rw [htarget] at hcopied
  exact ⟨placed, apart, hproceeds,
    (hcopied 0 (by decide)).trans (by decide +kernel),
    (hcopied 1 (by decide)).trans (by decide +kernel),
    (hcopied 2 (by decide)).trans (by decide +kernel),
    hregs.trans (by decide +kernel)⟩

end Cpu6502
