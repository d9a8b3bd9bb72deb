import Cpu6502.Proofs.Step
import Cpu6502.Proofs.Writes

/-!
# What a step depends on

A step looks at the registers, at the bytes of its instruction and at few other
cells: those of a pointer, that of an operand that is read, those that are
pulled, and the vector of interrupts.  Two machines that agree on these take the
same step, also if their instructions stand at different places.  The program
counters stay as far apart as they were, unless execution goes on elsewhere, and
only the return addresses that are pushed tell one place from the other.
-/

namespace Cpu6502

namespace Operation

def readsOperand : Operation → Bool
  | .load _ | .combine _ | .testBits | .add | .subtract | .compare _
  | .modify _ => true
  | _ => false

/-- How many bytes are pulled from the stack. -/
def pulls : Operation → Nat
  | .pull _ | .pullStatus => 1
  | .returnFromCall => 2
  | .returnFromInterrupt => 3
  | _ => 0

def branches : Operation → Bool
  | .branch .. => true
  | _ => false

/-- Where execution goes on does not depend on where the instruction is. -/
def leaves : Operation → Bool
  | .jump | .call | .returnFromCall | .returnFromInterrupt | .interrupt => true
  | _ => false

theorem eq_branch_of_branches {op : Operation} (h : op.branches) :
    ∃ f value, op = .branch f value := by
  cases op with
  | branch f value => exact ⟨f, value, rfl⟩
  | _ => cases h

end Operation

theorem Mnemonic.leaves_operation (m : Mnemonic) :
    m.operation.leaves = true ↔ m ∈ [.jmp, .jsr, .rts, .rti, .brk] := by
  cases m <;> decide

/-- Branches have operands beside them, and others there are only read. -/
theorem Encoding.mode_of_mem_documented :
    ∀ e ∈ documented,
      (e.mode = .relative ↔ e.mnemonic.operation.branches) ∧
        (e.mode = .immediate →
          e.mnemonic.operation.readsOperand ∧
            e.mnemonic.operation.stores = false) := by
  decide +kernel

namespace Machine

/-- The cells of the pointer that a mode follows to its operand. -/
def pointerCells (s : Machine) (mode : Mode) : List Word :=
  match mode with
  | .indirect =>
      let pointer := s.memory.readWord (s.regs.pc + 1)
      [pointer, pointer + 1]
  | .indexedIndirect =>
      let pointer := s.read (s.regs.pc + 1) + s.regs.x
      [Word.zeroPage pointer, Word.zeroPage (pointer + 1)]
  | .indirectIndexed =>
      let pointer := s.read (s.regs.pc + 1)
      [Word.zeroPage pointer, Word.zeroPage (pointer + 1)]
  | _ => []

def operandCells (s : Machine) (e : Encoding) : List Word :=
  if e.mnemonic.operation.readsOperand ∧ e.mode ≠ .immediate then
    (e.mode.operand s.regs s.memory).address?.toList
  else []

def pulledCells (s : Machine) (op : Operation) : List Word :=
  (List.range op.pulls).map fun k =>
    Word.stackPage (s.regs.sp + 1 + BitVec.ofNat 8 k)

/-- The cells that the next instruction reads, apart from its own. -/
def readCells (s : Machine) (e : Encoding) : List Word :=
  s.pointerCells e.mode ++ s.operandCells e ++
    s.pulledCells e.mnemonic.operation ++
    if e.mnemonic = .brk then [0xFFFE, 0xFFFF] else []

/-- A machine with the same registers elsewhere in another memory. -/
def moved (s : Machine) (pc : Word) (m : Memory) : Machine :=
  ⟨{ s.regs with pc }, m⟩

section Moved

variable (s : Machine) (pc : Word) (m : Memory)

theorem get_moved (r : Register) : (s.moved pc m).get r = s.get r := by
  cases r <;> rfl

theorem produce_moved (r : Register) (byte : Byte) :
    (s.moved pc m).produce r byte = (s.produce r byte).moved pc m := by
  cases r <;> rfl

theorem transfer_moved (source target : Register) :
    (s.moved pc m).transfer source target =
      (s.transfer source target).moved pc m := by
  cases target <;> simp only [transfer, get_moved, produce_moved]
  rfl

theorem change_moved (c : Change) (byte : Byte) :
    (s.moved pc m).change c byte =
      ((s.change c byte).1, (s.change c byte).2.moved pc m) := by
  cases c <;> rfl

theorem pull_snd_moved : (s.moved pc m).pull.2 = s.pull.2.moved pc m := rfl

theorem branch_moved (f : Flag) (value : Bool) (target target' : Word) :
    ∃ pc', (s.moved pc m).branch f value target' =
      (s.branch f value target).moved pc' m := by
  have hflag : (s.moved pc m).regs.p.get f = s.regs.p.get f := rfl
  unfold branch
  rw [hflag]
  split
  · exact ⟨target', rfl⟩
  · exact ⟨pc, rfl⟩

end Moved

end Machine

theorem Operand.write?_moved {o : Operand} {s u v : Machine}
    {pc : Word} {m : Memory} {byte : Byte} (hu : o.write? s byte = some u)
    (hv : o.write? (s.moved pc m) byte = some v) : ∃ m', v = u.moved pc m' := by
  rcases write?_eq_some hu with ⟨rfl, rfl⟩ | ⟨address, rfl, rfl⟩
  · cases hv
    exact ⟨m, rfl⟩
  · cases hv
    exact ⟨m.write address byte, rfl⟩

namespace Effect

open Machine

variable {o o' : Operand} {s s' t : Machine} {op : Operation}
    {pc : Word} {m : Memory}

/-- Machines that read and pull the same bytes get the same registers. -/
theorem exists_eq_moved (hs : Effect o s op s')
    (ht : Effect o' (s.moved pc m) op t)
    (hread : op.readsOperand → o'.read? (s.moved pc m) = o.read? s)
    (hstored : op.stores → o' = o)
    (hpulled : 0 < op.pulls → (s.moved pc m).pull.1 = s.pull.1) :
    ∃ pc' m', t = s'.moved pc' m' := by
  cases hs
  case load found | combine found | testBits found | add found | subtract found
      | compare found =>
    cases ht
    rename_i found'
    rw [hread rfl, found, Option.some.injEq] at found'
    subst found'
    first
      | exact ⟨_, _, rfl⟩
      | exact ⟨_, _, produce_moved ..⟩
  case store stored =>
    obtain rfl := hstored rfl
    cases ht
    rename_i stored'
    rw [get_moved] at stored'
    obtain ⟨m', rfl⟩ := Operand.write?_moved stored stored'
    exact ⟨_, _, rfl⟩
  case modify found stored =>
    obtain rfl := hstored rfl
    cases ht
    rename_i found' stored'
    rw [hread rfl, found, Option.some.injEq] at found'
    subst found'
    rw [change_moved] at stored' ⊢
    obtain ⟨m', rfl⟩ := Operand.write?_moved stored stored'
    exact ⟨_, _, rfl⟩
  case transfer =>
    cases ht
    exact ⟨_, _, transfer_moved ..⟩
  case push =>
    cases ht
    rw [get_moved]
    exact ⟨_, _, rfl⟩
  case pull =>
    cases ht
    rw [hpulled Nat.one_pos, pull_snd_moved, produce_moved]
    exact ⟨_, _, rfl⟩
  case pullStatus =>
    cases ht
    rw [hpulled Nat.one_pos, pull_snd_moved]
    exact ⟨_, _, rfl⟩
  case adjust =>
    cases ht
    rw [get_moved, change_moved, produce_moved]
    exact ⟨_, _, rfl⟩
  case branch =>
    cases ht
    obtain ⟨pc', hbranch⟩ := branch_moved s pc m _ _ _ _
    exact ⟨pc', m, hbranch⟩
  case returnFromInterrupt =>
    cases ht
    simp only [Machine.returnFromInterrupt, hpulled (Nat.succ_pos 2),
      pull_snd_moved]
    exact ⟨_, _, rfl⟩
  all_goals
    cases ht
    exact ⟨_, _, rfl⟩

end Effect

theorem Memory.readWord_congr {m m' : Memory} {address address' : Word}
    (hlow : m'.read address' = m.read address)
    (hhigh : m'.read (address' + 1) = m.read (address + 1)) :
    m'.readWord address' = m.readWord address := by
  rw [readWord, readWord, hlow, hhigh]

theorem Memory.readZeroPageWord_congr {m m' : Memory} {offset : Byte}
    (hlow : m'.read (Word.zeroPage offset) = m.read (Word.zeroPage offset))
    (hhigh : m'.read (Word.zeroPage (offset + 1)) =
      m.read (Word.zeroPage (offset + 1))) :
    m'.readZeroPageWord offset = m.readZeroPageWord offset := by
  rw [readZeroPageWord, readZeroPageWord, hlow, hhigh]

/-- Decoding follows the same pointers to an operand that is not beside it. -/
theorem Mode.operand_moved {mode : Mode} {s : Machine} {pc : Word} {m : Memory}
    (hmode : mode ≠ .immediate ∧ mode ≠ .relative)
    (hfirst : 1 ≤ mode.operandLength → m.read (pc + 1) = s.read (s.regs.pc + 1))
    (hword : mode.operandLength = 2 →
      m.readWord (pc + 1) = s.memory.readWord (s.regs.pc + 1))
    (hpointer : ∀ cell ∈ s.pointerCells mode, m.read cell = s.read cell) :
    mode.operand { s.regs with pc } m = mode.operand s.regs s.memory := by
  rw [← resolve_fst, ← resolve_fst]
  cases mode with
  | implicit | accumulator => rfl
  | immediate | relative => simp at hmode
  | zeroPage | zeroPageX | zeroPageY =>
      have hoffset : m.read (pc + 1) = s.memory.read (s.regs.pc + 1) :=
        hfirst (Nat.le_refl 1)
      simp only [resolve, Registers.fetch, Registers.advance, hoffset]
  | absolute | absoluteX | absoluteY =>
      simp only [resolve, Registers.fetchWord, Registers.advance, hword rfl]
  | indirect =>
      simp only [Machine.pointerCells, List.forall_mem_cons] at hpointer
      have hbase := Memory.readWord_congr hpointer.1 hpointer.2.1
      simp only [resolve, Registers.fetchWord, Registers.advance,
        hword rfl, hbase]
  | indexedIndirect | indirectIndexed =>
      have hoffset : m.read (pc + 1) = s.memory.read (s.regs.pc + 1) :=
        hfirst (Nat.le_refl 1)
      simp only [Machine.pointerCells, List.forall_mem_cons,
        Machine.read] at hpointer
      have hbase := Memory.readZeroPageWord_congr hpointer.1 hpointer.2.1
      simp only [resolve, Registers.fetch, Registers.advance, hoffset, hbase]

namespace Machine

variable {s : Machine} {pc : Word} {m : Memory} {op : Operation}

theorem pushedBytes_moved (hop : op ≠ .call ∧ op ≠ .interrupt) :
    (s.moved pc m).pushedBytes op = s.pushedBytes op := by
  cases op with
  | push r => exact congrArg ([·]) (get_moved ..)
  | call | interrupt => simp at hop
  | _ => rfl

theorem storedByte?_moved {o : Operand}
    (hread : op.readsOperand → o.read? (s.moved pc m) = o.read? s) :
    (s.moved pc m).storedByte? o op = s.storedByte? o op := by
  cases op with
  | store r => exact congrArg some (get_moved ..)
  | modify change =>
      simp only [storedByte?, hread rfl, change_moved]
  | _ => rfl

theorem writes_of_not_stores {o : Operand} (h : op.stores = false) :
    s.writes o op = stacked s.regs.sp (s.pushedBytes op) := by
  have hstored : s.storedByte? o op = none := by
    cases op <;> simp_all [storedByte?, Operation.stores]
  cases o <;> simp [writes, hstored]

theorem writes_moved {o o' : Operand} (hop : op ≠ .call ∧ op ≠ .interrupt)
    (hread : op.readsOperand → o'.read? (s.moved pc m) = o.read? s)
    (hstored : op.stores → o' = o) :
    (s.moved pc m).writes o' op = s.writes o op := by
  cases hstores : op.stores with
  | false =>
      rw [writes_of_not_stores hstores, writes_of_not_stores hstores,
        pushedBytes_moved hop]
      rfl
  | true =>
      obtain rfl := hstored hstores
      simp only [writes, pushedBytes_moved hop, storedByte?_moved hread]
      rfl

theorem read_of_pulled
    (h : ∀ cell ∈ s.pulledCells op, m.read cell = s.read cell) {k : Nat}
    (hk : k < op.pulls) :
    m.read (Word.stackPage (s.regs.sp + 1 + BitVec.ofNat 8 k)) =
      s.read (Word.stackPage (s.regs.sp + 1 + BitVec.ofNat 8 k)) :=
  h _ (List.mem_map.mpr ⟨k, List.mem_range.mpr hk, rfl⟩)

theorem word_of_pulled
    (h : ∀ cell ∈ s.pulledCells op, m.read cell = s.read cell) {k : Nat}
    (hk : k + 1 < op.pulls) :
    Word.ofBytes (m.read (Word.stackPage (s.regs.sp + 1 + BitVec.ofNat 8 k)))
        (m.read (Word.stackPage (s.regs.sp + 1 + BitVec.ofNat 8 k + 1))) =
      Word.ofBytes (s.read (Word.stackPage (s.regs.sp + 1 + BitVec.ofNat 8 k)))
        (s.read (Word.stackPage (s.regs.sp + 1 + BitVec.ofNat 8 k + 1))) := by
  have hnext : s.regs.sp + 1 + BitVec.ofNat 8 k + 1 =
      s.regs.sp + 1 + BitVec.ofNat 8 (k + 1) := by
    rw [BitVec.ofNat_add, ← BitVec.add_assoc]
    rfl
  rw [hnext, read_of_pulled h (Nat.lt_of_succ_lt hk), read_of_pulled h hk]

theorem successor_moved_of_leaves {o : Operand} (hleaves : op.leaves)
    (hpulled : ∀ cell ∈ s.pulledCells op, m.read cell = s.read cell)
    (hvector : op = .interrupt →
      m.readWord Memory.interruptVector =
        s.memory.readWord Memory.interruptVector) :
    (s.moved pc m).successor o op = s.successor o op := by
  cases op with
  | jump | call => rfl
  | returnFromCall =>
      have hpull := word_of_pulled hpulled (k := 0) (by decide)
      rw [BitVec.add_zero] at hpull
      exact congrArg (· + 1) hpull
  | returnFromInterrupt =>
      exact congrArg (· + 1) (word_of_pulled hpulled (k := 1) (by decide))
  | interrupt => exact hvector rfl
  | _ => cases hleaves

theorem successor_of_sequential {o : Operand} (hleaves : op.leaves = false)
    (hbranches : op.branches = false) : s.successor o op = s.regs.pc := by
  cases op with
  | jump | call | returnFromCall | returnFromInterrupt | interrupt =>
      cases hleaves
  | branch f value => cases hbranches
  | _ => rfl

/-- Another memory shows elsewhere what the machine looks at in its own. -/
structure Matches (s : Machine) (e : Encoding) (pc : Word) (m : Memory) :
    Prop where
  documented : Encoding.lookup (s.read s.regs.pc) = some e
  code : m.stretch pc e.length = s.memory.stretch s.regs.pc e.length
  cells : ∀ cell ∈ s.readCells e, m.read cell = s.read cell

theorem behind_moved (e : Encoding) :
    (s.moved pc m).behind e =
      (s.behind e).moved (pc + BitVec.ofNat 16 e.length) m := rfl

namespace Matches

variable {e : Encoding}

theorem read_code (h : s.Matches e pc m) {k : Nat} (hk : k < e.length) :
    m.read (pc + BitVec.ofNat 16 k) = s.read (s.regs.pc + BitVec.ofNat 16 k) :=
  Memory.read_of_stretch_eq h.code hk

theorem documented_moved (h : s.Matches e pc m) :
    Encoding.lookup ((s.moved pc m).read (s.moved pc m).regs.pc) = some e := by
  have hopcode := h.read_code (k := 0) (Nat.lt_add_right _ Nat.one_pos)
  rw [BitVec.add_zero, BitVec.add_zero] at hopcode
  exact (congrArg Encoding.lookup hopcode).trans h.documented

theorem operand_eq (h : s.Matches e pc m)
    (hmode : e.mode ≠ .immediate ∧ e.mode ≠ .relative) :
    e.mode.operand { s.regs with pc } m = e.mode.operand s.regs s.memory := by
  apply Mode.operand_moved hmode
  · intro hlength
    exact h.read_code (k := 1) (by unfold Encoding.length; omega)
  · intro hlength
    apply Memory.readWord_congr
    · exact h.read_code (k := 1) (by unfold Encoding.length; omega)
    · rw [BitVec.add_assoc, BitVec.add_assoc]
      exact h.read_code (k := 2) (by unfold Encoding.length; omega)
  · intro cell hcell
    exact h.cells cell (by simp [readCells, hcell])

theorem relative_iff (h : s.Matches e pc m) :
    e.mode = .relative ↔ e.mnemonic.operation.branches :=
  (Encoding.mode_of_mem_documented e (Encoding.mem_of_lookup h.documented)).1

theorem mode_ne (h : s.Matches e pc m)
    (hbranches : e.mnemonic.operation.branches = false)
    (hreads : e.mnemonic.operation.readsOperand = false ∨
      e.mnemonic.operation.stores = true) :
    e.mode ≠ .immediate ∧ e.mode ≠ .relative := by
  constructor
  · intro hmode
    obtain ⟨hread, hkeeps⟩ :=
      (Encoding.mode_of_mem_documented e
        (Encoding.mem_of_lookup h.documented)).2 hmode
    simp [hread, hkeeps] at hreads
  · intro hmode
    rw [h.relative_iff.mp hmode] at hbranches
    cases hbranches

theorem operand_eq_of_stores (h : s.Matches e pc m)
    (hstores : e.mnemonic.operation.stores) :
    e.mode.operand { s.regs with pc } m = e.mode.operand s.regs s.memory := by
  apply h.operand_eq
  apply h.mode_ne _ (.inr hstores)
  revert hstores
  cases e.mnemonic.operation <;> simp [Operation.stores, Operation.branches]

theorem operand_eq_of_leaves (h : s.Matches e pc m)
    (hleaves : e.mnemonic.operation.leaves) :
    e.mode.operand { s.regs with pc } m = e.mode.operand s.regs s.memory := by
  have hop : e.mnemonic.operation.branches = false ∧
      e.mnemonic.operation.readsOperand = false := by
    revert hleaves
    cases e.mnemonic.operation <;>
      simp [Operation.leaves, Operation.branches, Operation.readsOperand]
  exact h.operand_eq (h.mode_ne hop.1 (.inl hop.2))

theorem read?_eq (h : s.Matches e pc m)
    (hreads : e.mnemonic.operation.readsOperand) :
    (e.mode.operand { s.regs with pc } m).read? ((s.moved pc m).behind e) =
      (e.mode.operand s.regs s.memory).read? (s.behind e) := by
  have hbranches : e.mnemonic.operation.branches = false := by
    revert hreads
    cases e.mnemonic.operation <;>
      simp [Operation.branches, Operation.readsOperand]
  by_cases himmediate : e.mode = .immediate
  · have hbyte := h.read_code (k := 1)
      (by simp [Encoding.length, himmediate, Mode.operandLength])
    rw [himmediate, ← Mode.resolve_fst, ← Mode.resolve_fst]
    exact congrArg some hbyte
  · rw [h.operand_eq ⟨himmediate, by simp [h.relative_iff, hbranches]⟩]
    cases hoperand : e.mode.operand s.regs s.memory with
    | absent | accumulator => rfl
    | cell address =>
        have hcell := h.cells address
          (by simp [readCells, operandCells, hreads, himmediate, hoperand,
            Operand.address?])
        exact congrArg some hcell

theorem pulled (h : s.Matches e pc m) :
    ∀ cell ∈ s.pulledCells e.mnemonic.operation, m.read cell = s.read cell := by
  intro cell hcell
  exact h.cells cell (by simp [readCells, hcell])

theorem vector (h : s.Matches e pc m)
    (hop : e.mnemonic.operation = .interrupt) :
    m.readWord Memory.interruptVector =
      s.memory.readWord Memory.interruptVector := by
  have hbrk : e.mnemonic = .brk := by
    revert hop
    cases e.mnemonic <;> simp [Mnemonic.operation]
  apply Memory.readWord_congr
  · exact h.cells 0xFFFE (by simp [readCells, hbrk])
  · exact h.cells 0xFFFF (by simp [readCells, hbrk])

/-- The step is the same but for the program counter and the memory. -/
theorem exists_step_moved (h : s.Matches e pc m) :
    ∃ pc' m', (s.moved pc m).step.2 = s.step.2.moved pc' m' := by
  have heffect := effect_of_documented h.documented
  have heffect' := effect_of_documented h.documented_moved
  apply heffect.exists_eq_moved heffect' h.read?_eq h.operand_eq_of_stores
  intro hpulls
  have hbyte := read_of_pulled h.pulled hpulls
  rwa [BitVec.add_zero] at hbyte

theorem pc_eq_of_leaves (h : s.Matches e pc m)
    (hleaves : e.mnemonic.operation.leaves) :
    (s.moved pc m).step.2.regs.pc = s.step.2.regs.pc := by
  rw [pc_step h.documented, pc_step h.documented_moved, behind_moved]
  calc ((s.behind e).moved _ m).successor
        (e.mode.operand { s.regs with pc } m) _
    _ = ((s.behind e).moved _ m).successor
          (e.mode.operand s.regs s.memory) _ := by
        rw [h.operand_eq_of_leaves hleaves]
    _ = (s.behind e).successor (e.mode.operand s.regs s.memory) _ :=
        successor_moved_of_leaves hleaves h.pulled h.vector

theorem pc_sub_of_branches (h : s.Matches e pc m)
    (hbranches : e.mnemonic.operation.branches) :
    (s.moved pc m).step.2.regs.pc - s.step.2.regs.pc = pc - s.regs.pc := by
  have hmode := h.relative_iff.mpr hbranches
  have hbyte : m.read (pc + 1) = s.read (s.regs.pc + 1) :=
    h.read_code (k := 1) (by simp [Encoding.length, hmode, Mode.operandLength])
  obtain ⟨f, value, hop⟩ := Operation.eq_branch_of_branches hbranches
  rw [pc_step h.documented, pc_step h.documented_moved, hop, hmode,
    Mode.operand_relative, Mode.operand_relative]
  have hflag : ((s.moved pc m).behind e).regs.p.get f =
      (s.behind e).regs.p.get f := rfl
  simp only [successor, hflag]
  split
  · simp only [Operand.address?, Option.getD_some, Word.displace]
    change pc + 1 + 1 + BitVec.signExtend 16 (m.read (pc + 1)) -
      (s.regs.pc + 1 + 1 + BitVec.signExtend 16 (s.read (s.regs.pc + 1))) = _
    rw [hbyte]
    bv_omega
  · simp only [behind, moved, Registers.advance]
    bv_omega

theorem pc_sub_of_not_leaves (h : s.Matches e pc m)
    (hleaves : e.mnemonic.operation.leaves = false) :
    (s.moved pc m).step.2.regs.pc - s.step.2.regs.pc = pc - s.regs.pc := by
  cases hbranches : e.mnemonic.operation.branches with
  | false =>
      rw [pc_step h.documented, pc_step h.documented_moved,
        successor_of_sequential hleaves hbranches,
        successor_of_sequential hleaves hbranches]
      simp only [behind, moved, Registers.advance]
      bv_omega
  | true => exact h.pc_sub_of_branches hbranches

theorem written_eq (h : s.Matches e pc m) (hjsr : e.mnemonic ≠ .jsr)
    (hbrk : e.mnemonic ≠ .brk) : (s.moved pc m).written = s.written := by
  have hop : e.mnemonic.operation ≠ .call ∧
      e.mnemonic.operation ≠ .interrupt := by
    revert hjsr hbrk
    cases e.mnemonic <;> simp [Mnemonic.operation]
  rw [written_eq_writes h.documented, written_eq_writes h.documented_moved,
    behind_moved]
  exact writes_moved hop h.read?_eq h.operand_eq_of_stores

end Matches

theorem written_of_jsr {e : Encoding}
    (h : Encoding.lookup (s.read s.regs.pc) = some e)
    (hjsr : e.mnemonic = .jsr) :
    s.written = stacked s.regs.sp [Word.high (s.regs.pc + 2),
      Word.low (s.regs.pc + 2)] := by
  have hlength :=
    (Encoding.length_of_mem_documented e (Encoding.mem_of_lookup h)).1 hjsr
  have hlast : s.regs.pc + BitVec.ofNat 16 3 - 1 = s.regs.pc + 2 := by
    bv_omega
  rw [written_eq_writes h, hjsr, writes_of_not_stores rfl, behind,
    hlength, ← hlast]
  rfl

theorem written_of_brk {e : Encoding}
    (h : Encoding.lookup (s.read s.regs.pc) = some e)
    (hbrk : e.mnemonic = .brk) :
    s.written = stacked s.regs.sp [Word.high (s.regs.pc + 1),
      Word.low (s.regs.pc + 1), (s.regs.p.set .breakCommand true).bits] := by
  have hlength :=
    (Encoding.length_of_mem_documented e (Encoding.mem_of_lookup h)).2 hbrk
  rw [written_eq_writes h, hbrk, writes_of_not_stores rfl, behind, hlength]
  rfl

end Machine

/--
A step depends on the registers and on the cells that it reads.  Moved to
another address, in a memory that agrees in these, it does the same: the
registers and what is written differ at most by the distance of the two program
counters.
-/
theorem step_sees_only_what_it_reads {s : Machine} {e : Encoding}
    {pc : Word} {m : Memory} (h : s.Matches e pc m) :
    s.step.1 = .ok () ∧ (s.moved pc m).step.1 = .ok () ∧
      (s.moved pc m).step.2.regs =
        { s.step.2.regs with pc := (s.moved pc m).step.2.regs.pc } ∧
      (if e.mnemonic ∈ [.jmp, .jsr, .rts, .rti, .brk] then
          (s.moved pc m).step.2.regs.pc = s.step.2.regs.pc
        else (s.moved pc m).step.2.regs.pc - s.step.2.regs.pc =
          pc - s.regs.pc) ∧
      (∀ t ∈ [s, s.moved pc m], t.step.2.memory = t.memory.writeAll t.written) ∧
      (e.mnemonic ≠ .jsr ∧ e.mnemonic ≠ .brk →
        (s.moved pc m).written = s.written) ∧
      (e.mnemonic = .jsr → ∀ t ∈ [s, s.moved pc m],
        t.written = stacked t.regs.sp
          [Word.high (t.regs.pc + 2), Word.low (t.regs.pc + 2)]) ∧
      (e.mnemonic = .brk → ∀ t ∈ [s, s.moved pc m],
        t.written = stacked t.regs.sp
          [Word.high (t.regs.pc + 1), Word.low (t.regs.pc + 1),
            (t.regs.p.set .breakCommand true).bits]) := by
  have hlookup := h.documented
  have hlookup' := h.documented_moved
  obtain ⟨pc', m', hstep⟩ := h.exists_step_moved
  refine ⟨Machine.step_fst_of_lookup_eq_some hlookup,
    Machine.step_fst_of_lookup_eq_some hlookup', by rw [hstep]; rfl, ?_, ?_,
    fun hne => h.written_eq hne.1 hne.2, ?_, ?_⟩
  · split
    next hleaves =>
      exact h.pc_eq_of_leaves ((Mnemonic.leaves_operation _).mpr hleaves)
    next hleaves =>
      rw [← Mnemonic.leaves_operation, Bool.not_eq_true] at hleaves
      exact h.pc_sub_of_not_leaves hleaves
  · simp [Machine.memory_step hlookup, Machine.memory_step hlookup']
  · intro hjsr
    simp [Machine.written_of_jsr hlookup hjsr,
      Machine.written_of_jsr hlookup' hjsr]
  · intro hbrk
    simp [Machine.written_of_brk hlookup hbrk,
      Machine.written_of_brk hlookup' hbrk]

/-- An addition through a pointer whose bytes lie at both ends of page zero. -/
def addition : Machine :=
  ⟨{ Registers.powerOn with pc := 0x0600, y := 0xF0 },
    (((Memory.zeroed.load 0x0600 [0x71, 0xFF]).write 0x00FF 0x34).write
      0x0000 0xFF).write 0x0024 0x55⟩

/-- A memory with this addition across its end, where its pointer is too. -/
def overlappingAddition : Memory :=
  (((Memory.zeroed.load 0xFFFF [0x71, 0xFF]).write 0x00FF 0x34).write
    0x0024 0x55).write 0x0600 0x99

theorem overlappingAddition_adds :
    addition.Matches ⟨0x71, .adc, .indirectIndexed⟩ 0xFFFF overlappingAddition ∧
      addition.step.2.regs.pc = 0x0602 ∧
      (addition.moved 0xFFFF overlappingAddition).step.2.regs =
        { addition.step.2.regs with pc := 0x0001, a := 0x55 } := by
  have hmatches : addition.Matches ⟨0x71, .adc, .indirectIndexed⟩ 0xFFFF
      overlappingAddition := by
    refine ⟨rfl, by decide +kernel, ?_⟩
    have hcells : addition.readCells ⟨0x71, .adc, .indirectIndexed⟩ =
        [0x00FF, 0x0000, 0x0024] := by decide +kernel
    have hread : overlappingAddition.read 0x00FF = addition.read 0x00FF ∧
        overlappingAddition.read 0x0000 = addition.read 0x0000 ∧
        overlappingAddition.read 0x0024 = addition.read 0x0024 := by
          decide +kernel
    rw [hcells]
    simpa using hread
  obtain ⟨-, -, hregs, -⟩ := step_sees_only_what_it_reads hmatches
  exact ⟨hmatches, by decide +kernel, hregs.trans (by decide +kernel)⟩

end Cpu6502
