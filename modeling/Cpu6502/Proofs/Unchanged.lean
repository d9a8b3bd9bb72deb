import Cpu6502.Proofs.Flags
import Cpu6502.Proofs.Locality
import Cpu6502.Proofs.Refusal

/-!
# What instructions leave alone

Each register and each flag has a list of instructions that may change it, and
is left alone by all others.  The stack pointer is moved by as many cells as are
pulled and pushed, and execution goes on behind an instruction that leads
nowhere else.
-/

namespace Cpu6502

/-- The instructions that change a register, but for accumulator shifts. -/
def Register.changers : Register → List Mnemonic
  | .a => [.lda, .txa, .tya, .pla, .and, .eor, .ora, .adc, .sbc]
  | .x => [.ldx, .tax, .tsx, .inx, .dex]
  | .y => [.ldy, .tay, .iny, .dey]
  | .sp => [.txs, .pha, .php, .jsr, .brk, .pla, .plp, .rts, .rti]

/-- The instructions that may change a flag. -/
def Flag.changers : Flag → List Mnemonic
  | .carry =>
      [.adc, .sbc, .cmp, .cpx, .cpy, .asl, .lsr, .rol, .ror, .clc,
        .sec, .plp, .rti]
  | .zero | .negative =>
      [ .lda, .ldx, .ldy, .tax, .tay, .txa, .tya, .tsx, .pla, .plp, .and,
        .eor, .ora, .bit, .adc, .sbc, .cmp, .cpx, .cpy, .inc, .inx, .iny, .dec,
        .dex, .dey, .asl, .lsr, .rol, .ror, .rti ]
  | .interruptDisable => [.cli, .sei, .plp, .rti]
  | .decimal => [.cld, .sed, .plp, .rti]
  | .breakCommand => [.brk, .plp, .rti]
  | .unused => [.plp, .rti]
  | .overflow => [.adc, .sbc, .bit, .clv, .plp, .rti]

namespace Mnemonic

def shifts : List Mnemonic :=
  [.asl, .lsr, .rol, .ror]

/-- By how much the stack pointer moves, unless it is set as a whole. -/
def stackMove : Mnemonic → Int
  | .pha | .php => -1
  | .jsr => -2
  | .brk => -3
  | .pla | .plp => 1
  | .rts => 2
  | .rti => 3
  | _ => 0

/-- The instruction is a branch whose flag is right. -/
def taken (m : Mnemonic) (p : Status) : Bool :=
  match m with
  | .bcc => !p.get .carry
  | .bcs => p.get .carry
  | .bne => !p.get .zero
  | .beq => p.get .zero
  | .bpl => !p.get .negative
  | .bmi => p.get .negative
  | .bvc => !p.get .overflow
  | .bvs => p.get .overflow
  | _ => false

variable {m : Mnemonic}

theorem mem_changers_of_flags {f : Flag} (h : f ∈ m.operation.flags) :
    m ∈ f.changers := by
  have hflags : ∀ f ∈ m.operation.flags, m ∈ f.changers := by
    cases m <;> decide
  exact hflags f h

theorem mem_changers_of_target? {r : Register}
    (h : m.operation.target? = some r) : m ∈ r.changers := by
  have htarget : ∀ r ∈ m.operation.target?, m ∈ r.changers := by
    cases m <;> decide
  exact htarget r h

theorem growth_operation (m : Mnemonic) :
    m.operation.growth = -m.stackMove := by
  cases m <;> rfl

theorem stackMove_of_not_mem_changers (h : m ∉ Register.sp.changers) :
    m ≠ .txs ∧ m.stackMove = 0 := by
  revert h
  cases m <;> decide

theorem taken_of_branch {f : Flag} {value : Bool}
    (h : m.operation = .branch f value)
    (p : Status) : m.taken p = (p.get f == value) := by
  cases m <;> cases h <;> simp [taken]

end Mnemonic

/-- What an instruction keeps, and how it moves the two pointers. -/
structure Encoding.Keeps (e : Encoding) (s t : Machine) : Prop where
  pc : e.mnemonic ∉ [.jmp, .jsr, .rts, .rti, .brk] →
    e.mnemonic.taken s.regs.p = false →
    t.regs.pc = s.regs.pc + BitVec.ofNat 16 e.length
  register : ∀ r, e.mnemonic ∉ r.changers →
    (r = .a → e.mode = .accumulator → e.mnemonic ∉ Mnemonic.shifts) →
      t.get r = s.get r
  sp : e.mnemonic ≠ .txs →
    t.regs.sp = s.regs.sp + BitVec.ofInt 8 e.mnemonic.stackMove
  flag : ∀ f, e.mnemonic ∉ f.changers → t.regs.p.get f = s.regs.p.get f

theorem Encoding.mem_shifts_of_mem_documented :
    ∀ e ∈ documented, e.mode = .accumulator → e.mnemonic ∈ Mnemonic.shifts := by
  decide +kernel

theorem Mode.eq_accumulator_of_operand {mode : Mode}
    {r : Registers} {m : Memory}
    (h : mode.operand r m = .accumulator) : mode = .accumulator := by
  cases mode with
  | accumulator => rfl
  | _ => cases h

namespace Machine

variable {s : Machine} {e : Encoding}

theorem pc_step_of_not_taken (h : Encoding.lookup (s.read s.regs.pc) = some e)
    (hleaves : e.mnemonic ∉ [.jmp, .jsr, .rts, .rti, .brk])
    (htaken : e.mnemonic.taken s.regs.p = false) :
    s.step.2.regs.pc = s.regs.pc + BitVec.ofNat 16 e.length := by
  rw [← Mnemonic.leaves_operation, Bool.not_eq_true] at hleaves
  rw [pc_step h]
  cases hbranches : e.mnemonic.operation.branches with
  | false => exact successor_of_sequential hleaves hbranches
  | true =>
      obtain ⟨f, value, hop⟩ := Operation.eq_branch_of_branches hbranches
      rw [Mnemonic.taken_of_branch hop, beq_eq_false_iff_ne] at htaken
      rw [hop, successor]
      exact if_neg htaken

theorem sp_step_eq_add (h : Encoding.lookup (s.read s.regs.pc) = some e)
    (hm : e.mnemonic ≠ .txs) :
    s.step.2.regs.sp = s.regs.sp + BitVec.ofInt 8 e.mnemonic.stackMove := by
  rw [(effect_of_documented h).sp_eq (Mnemonic.target?_operation hm),
    Mnemonic.growth_operation, BitVec.ofInt_neg, BitVec.sub_neg]
  rfl

theorem get_step (h : Encoding.lookup (s.read s.regs.pc) = some e)
    {r : Register} (hr : e.mnemonic ∉ r.changers)
    (ha : r = .a → e.mode = .accumulator → e.mnemonic ∉ Mnemonic.shifts) :
    s.step.2.get r = s.get r := by
  by_cases hsp : r = .sp
  · subst hsp
    obtain ⟨hm, hmove⟩ := Mnemonic.stackMove_of_not_mem_changers hr
    have hstep := sp_step_eq_add h hm
    rw [hmove] at hstep
    exact hstep.trans (BitVec.add_zero _)
  · have hkept : s.step.2.get r = (s.behind e).get r := by
      apply (effect_of_documented h).get_kept hsp
        (mt Mnemonic.mem_changers_of_target? hr)
      intro hr _ haccumulator
      have hmode := Mode.eq_accumulator_of_operand haccumulator
      exact ha hr hmode (Encoding.mem_shifts_of_mem_documented e
        (Encoding.mem_of_lookup h) hmode)
    rw [hkept]
    cases r <;> rfl

theorem get_flag_step (h : Encoding.lookup (s.read s.regs.pc) = some e)
    {f : Flag}
    (hf : e.mnemonic ∉ f.changers) : s.step.2.regs.p.get f = s.regs.p.get f :=
  (effect_of_documented h).get_flag (mt Mnemonic.mem_changers_of_flags hf)

theorem keeps_step (h : Encoding.lookup (s.read s.regs.pc) = some e) :
    e.Keeps s s.step.2 where
  pc hleaves htaken := pc_step_of_not_taken h hleaves htaken
  register _ hr ha := get_step h hr ha
  sp hm := sp_step_eq_add h hm
  flag _ hf := get_flag_step h hf

end Machine

/--
An instruction changes no register and no flag but those that belong to it.  In
particular the unused bit stays set from power-on until a status byte is pulled.
-/
theorem instructions_keep_registers_and_flags (e : Emulator) :
    (e.step.result = .ok () →
        ∃ encoding, Encoding.lookup (e.machine.read e.machine.regs.pc) =
          some encoding ∧
          encoding.Keeps e.machine e.step.emulator.machine) ∧
      ∀ n, e.machine.regs.p = .powerOn →
        (∀ k < n, ∀ encoding,
          Encoding.lookup
              ((e.after k).machine.read (e.after k).machine.regs.pc) =
            some encoding →
          encoding.mnemonic ≠ .plp ∧ encoding.mnemonic ≠ .rti) →
        ∀ k ≤ n, (e.after k).machine.regs.p.get .unused = true := by
  constructor
  · intro succeeded
    obtain ⟨hok, hafter⟩ := Emulator.machine_step_of_ok succeeded
    cases hlookup : Encoding.lookup (e.machine.read e.machine.regs.pc) with
    | none =>
        rw [Machine.step_of_lookup_eq_none hlookup] at hok
        cases hok
    | some encoding =>
        rw [hafter]
        exact ⟨encoding, rfl, Machine.keeps_step hlookup⟩
  · intro n start spared
    apply Emulator.machine_after_of_step
      (P := fun s => s.regs.p.get .unused = true)
    · rw [start]
      rfl
    · intro k hk hset
      cases hlookup : Encoding.lookup
        ((e.after k).machine.read (e.after k).machine.regs.pc) with
      | none =>
          rw [Machine.step_of_lookup_eq_none hlookup]
          exact hset
      | some encoding =>
          obtain ⟨hplp, hrti⟩ := spared k hk encoding hlookup
          rw [Machine.get_flag_step hlookup]
          · exact hset
          · simp [Flag.changers, hplp, hrti]

/-- A rotation at the end of memory, and an interrupt behind it. -/
def rotateThenBreak : Emulator :=
  .unlogged ⟨{ Registers.powerOn with pc := 0xFFFF, a := 0x80 },
    Memory.zeroed.load 0xFFFF [0x2A, 0x00]⟩

theorem rotateThenBreak_keeps :
    rotateThenBreak.results 2 = [.ok (), .ok ()] ∧
      (rotateThenBreak.after 1).machine.regs.pc = 0x0000 ∧
      (rotateThenBreak.after 1).machine.regs.sp = 0xFD ∧
      (rotateThenBreak.after 1).machine.regs.p.get .overflow = false ∧
      ∀ k ≤ 2, (rotateThenBreak.after k).machine.regs.p.get .unused = true := by
  obtain ⟨hstep, hruns⟩ := instructions_keep_registers_and_flags rotateThenBreak
  obtain ⟨encoding, hlookup, keeps⟩ := hstep rfl
  obtain rfl : ⟨0x2A, .rol, .accumulator⟩ = encoding := Option.some.inj hlookup
  refine ⟨rfl, keeps.pc (by decide) rfl, keeps.sp (by decide),
    keeps.flag .overflow (by decide), hruns 2 rfl ?_⟩
  intro k hk encoding h
  have hnext : ∀ k < 2, ∀ encoding ∈ Encoding.lookup
      ((rotateThenBreak.after k).machine.read
        (rotateThenBreak.after k).machine.regs.pc),
      encoding.mnemonic ≠ .plp ∧ encoding.mnemonic ≠ .rti := by
    decide +kernel
  exact hnext k hk encoding h

end Cpu6502
