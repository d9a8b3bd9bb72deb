import Cpu6502.Proofs.Runs

/-!
# Return addresses

A call leaves its return address in the topmost cells of the stack, and an
interrupt leaves the status byte there as well.  As long as the stack pointer is
moved by pushing and pulling only, the stack neither shrinks below these cells
nor grows all the way round to them, and nothing is stored into them, they keep
their bytes, and the return that finds the stack at the same depth comes back to
the right place.
-/

namespace Cpu6502

/--
Instructions that leave the `size` cells at `top` and below alone, where the
stack has grown by `reached` bytes behind these cells when they begin.
-/
structure Sheltered (reached : Int) (top : Byte) (size : Nat)
    (is : List Instruction) : Prop where
  noTransfer : ∀ i ∈ is, i.mnemonic ≠ .txs
  depth : ∀ n ≤ is.length,
    0 ≤ reached + stackDepth (is.take n) ∧
      reached + stackDepth (is.take n) ≤ 256 - size
  spared : ∀ i ∈ is, i.mnemonic.operation.stores → ∀ k < size,
    i.operand ≠ .cell (Word.stackPage (top - BitVec.ofNat 8 k))

namespace Sheltered

variable {reached : Int} {top : Byte} {size : Nat} {i : Instruction}
    {is : List Instruction}

theorem tail (h : Sheltered reached top size (i :: is)) :
    Sheltered (reached + i.mnemonic.operation.growth) top size is where
  noTransfer j hj := h.noTransfer j (List.mem_cons_of_mem i hj)
  depth n hn := by
    have hdepth := h.depth (n + 1) (by simpa using hn)
    rw [List.take_succ_cons, stackDepth_cons] at hdepth
    omega
  spared j hj := h.spared j (List.mem_cons_of_mem i hj)

theorem depth_head (h : Sheltered reached top size (i :: is)) :
    0 ≤ reached ∧ reached + i.mnemonic.operation.growth ≤ 256 - size := by
  have hstart := h.depth 0 (by simp)
  have hnext := h.depth 1 (by simp)
  simp at hstart hnext
  omega

end Sheltered

/-- A push does not reach the sheltered cells if its depth leaves them room. -/
theorem Word.stackPage_ne_of_depth {top sp : Byte} {size : Nat}
    {reached growth : Int}
    (hsp : sp = top - BitVec.ofNat 8 size - BitVec.ofInt 8 reached)
    (hreached : 0 ≤ reached)
    (hdepth : reached + growth ≤ 256 - size) {j k : Nat} (hj : j < size)
    (hk : k < growth.toNat) :
    Word.stackPage (top - BitVec.ofNat 8 j) ≠
      Word.stackPage (sp - BitVec.ofNat 8 k) := by
  intro h
  have hoffset := Word.stackPage_injective h
  obtain ⟨n, rfl⟩ := Int.eq_ofNat_of_zero_le hreached
  have hroom : size + n + k < 256 := by omega
  subst hsp
  rw [BitVec.ofInt_natCast] at hoffset
  bv_omega

theorem Runs.frame_kept {s t : Machine} {is : List Instruction}
    (run : Runs s is t) {reached : Int} {top : Byte} {size : Nat}
    (h : Sheltered reached top size is)
    (hsp : s.regs.sp = top - BitVec.ofNat 8 size - BitVec.ofInt 8 reached) :
    t.regs.sp = top - BitVec.ofNat 8 size -
      BitVec.ofInt 8 (reached + stackDepth is) ∧
      ∀ k < size, t.read (Word.stackPage (top - BitVec.ofNat 8 k)) =
        s.read (Word.stackPage (top - BitVec.ofNat 8 k)) := by
  induction run generalizing reached with
  | refl => simpa using hsp
  | @next s s' t i is decoded succeeded rest ih =>
      have hs' : s' = s.step.2 := by rw [succeeded]
      subst hs'
      obtain ⟨hreached, hdepth⟩ := h.depth_head
      have hnext : s.step.2.regs.sp = top - BitVec.ofNat 8 size -
          BitVec.ofInt 8 (reached + i.mnemonic.operation.growth) := by
        rw [Machine.sp_step decoded (h.noTransfer i (by simp)), hsp,
          BitVec.ofInt_add, BitVec.sub_sub]
      obtain ⟨hfinal, hkept⟩ := ih h.tail hnext
      refine ⟨by rw [hfinal, stackDepth_cons, Int.add_assoc], ?_⟩
      intro k hk
      rw [hkept k hk]
      apply Machine.read_step decoded
      · intro hstores
        exact h.spared i (by simp) hstores k hk
      · intro j hj
        exact Word.stackPage_ne_of_depth hsp hreached hdepth hk hj

section Entry

variable {s t : Machine} {e : Encoding} {is : List Instruction} {size : Nat}

/-- What was pushed is still there after a sheltered run of no depth. -/
theorem Runs.pushed_kept (run : Runs s.step.2 is t)
    (hlookup : Encoding.lookup (s.read s.regs.pc) = some e)
    (hsize : e.mnemonic.operation.growth = size) (hmnemonic : e.mnemonic ≠ .txs)
    (hsheltered : Sheltered 0 s.regs.sp size is)
    (hbalanced : stackDepth is = 0) :
    t.regs.sp = s.regs.sp - BitVec.ofNat 8 size ∧
      ∀ k < size, ∀ byte,
        (({ s with regs := s.regs.advance (BitVec.ofNat 16 e.length) } :
          Machine).pushedBytes e.mnemonic.operation)[k]? = some byte →
        t.read (Word.stackPage (s.regs.sp - BitVec.ofNat 8 k)) = byte := by
  obtain ⟨o, heffect⟩ := Machine.effect_of_lookup hlookup
  have hsp : s.step.2.regs.sp =
      s.regs.sp - BitVec.ofNat 8 size - BitVec.ofInt 8 0 := by
    rw [heffect.sp_eq (Mnemonic.target?_operation hmnemonic), hsize,
      BitVec.ofInt_natCast]
    simp [Registers.advance]
  obtain ⟨hfinal, hkept⟩ := run.frame_kept hsheltered hsp
  refine ⟨by simpa [hbalanced] using hfinal, ?_⟩
  intro k hk byte hbyte
  rw [hkept k hk]
  exact heffect.read_pushed hbyte

end Entry

namespace Machine

variable {s : Machine}

theorem step_of_effect {e : Encoding} {u : Machine}
    (h : Encoding.lookup (s.read s.regs.pc) = some e)
    (hunique : ∀ o v,
      Effect o { s with regs := s.regs.advance (BitVec.ofNat 16 e.length) }
        e.mnemonic.operation v → v = u) :
    s.step = (.ok (), u) := by
  obtain ⟨o, heffect⟩ := effect_of_lookup h
  exact Prod.ext (step_fst_of_lookup_eq_some h) (hunique o _ heffect)

theorem step_of_rts (h : s.read s.regs.pc = 0x60) :
    s.step = (.ok (),
      ({ s with regs := s.regs.advance 1 } : Machine).returnFromCall) := by
  apply step_of_effect (e := ⟨0x60, .rts, .implicit⟩)
  · rw [h]
    rfl
  · intro o v heffect
    cases heffect
    rfl

theorem step_of_rti (h : s.read s.regs.pc = 0x40) :
    s.step = (.ok (),
      ({ s with regs := s.regs.advance 1 } : Machine).returnFromInterrupt) := by
  apply step_of_effect (e := ⟨0x40, .rti, .implicit⟩)
  · rw [h]
    rfl
  · intro o v heffect
    cases heffect
    rfl

theorem pc_returnFromCall (s : Machine) :
    s.returnFromCall.regs.pc =
      Word.ofBytes (s.read (Word.stackPage (s.regs.sp + 1)))
      (s.read (Word.stackPage (s.regs.sp + 1 + 1))) + 1 := rfl

theorem pc_returnFromInterrupt (s : Machine) :
    s.returnFromInterrupt.regs.pc =
      Word.ofBytes (s.read (Word.stackPage (s.regs.sp + 1 + 1)))
      (s.read (Word.stackPage (s.regs.sp + 1 + 1 + 1))) + 1 := rfl

theorem p_returnFromInterrupt (s : Machine) :
    s.returnFromInterrupt.regs.p =
      Status.set ⟨s.read
        (Word.stackPage (s.regs.sp + 1))⟩ .breakCommand false := rfl

end Machine

/-- A return at the depth at which the call ended goes on behind the call. -/
theorem Machine.returnFromCall_of_kept {t : Machine} {top : Byte} {next : Word}
    (hsp : t.regs.sp = top - 2)
    (hhigh : t.read (Word.stackPage top) = Word.high (next - 1))
    (hlow : t.read (Word.stackPage (top - 1)) = Word.low (next - 1)) :
    t.returnFromCall.regs.pc = next ∧ t.returnFromCall.regs.sp = top := by
  have hfirst : t.regs.sp + 1 = top - 1 := by bv_omega
  have hsecond : top - 1 + 1 = top := by bv_omega
  constructor
  · rw [pc_returnFromCall, hfirst, hsecond, hlow, hhigh, Word.ofBytes_low_high,
      BitVec.sub_add_cancel]
  · rw [sp_returnFromCall, hsp, BitVec.sub_add_cancel]

theorem Machine.returnFromInterrupt_of_kept {t : Machine} {top : Byte}
    {next : Word} {p : Status} (hsp : t.regs.sp = top - 3)
    (hhigh : t.read (Word.stackPage top) = Word.high next)
    (hlow : t.read (Word.stackPage (top - 1)) = Word.low next)
    (hstatus : t.read (Word.stackPage (top - 2)) =
      (p.set .breakCommand true).bits) :
    t.returnFromInterrupt.regs.pc = next + 1 ∧
      t.returnFromInterrupt.regs.sp = top ∧
      t.returnFromInterrupt.regs.p = p.set .breakCommand false := by
  have hfirst : t.regs.sp + 1 = top - 2 := by bv_omega
  have hsecond : top - 2 + 1 = top - 1 := by bv_omega
  have hthird : top - 1 + 1 = top := by bv_omega
  refine ⟨?_, ?_, ?_⟩
  · rw [pc_returnFromInterrupt, hfirst, hsecond, hthird, hlow, hhigh,
      Word.ofBytes_low_high]
  · rw [sp_returnFromInterrupt, hsp, BitVec.sub_add_cancel]
  · rw [p_returnFromInterrupt, hfirst, hstatus]
    exact Status.set_set p .breakCommand true false

/--
A call comes back behind itself and an interrupt to the address it has pushed,
with the stack pointer they began with, if the run in between leaves the stack
as deep as it found it and keeps away from what was pushed.
-/
theorem calls_and_interrupts_return {s t : Machine} {is : List Instruction}
    (run : Runs s.step.2 is t) (balanced : stackDepth is = 0) :
    (s.read s.regs.pc = 0x20 → Sheltered 0 s.regs.sp 2 is →
      t.read t.regs.pc = 0x60 →
        t.step.1 = .ok () ∧ t.step.2.regs.pc = s.regs.pc + 3 ∧
          t.step.2.regs.sp = s.regs.sp) ∧
      (s.read s.regs.pc = 0x00 → Sheltered 0 s.regs.sp 3 is →
        t.read t.regs.pc = 0x40 →
        t.step.1 = .ok () ∧ t.step.2.regs.pc = s.regs.pc + 2 ∧
          t.step.2.regs.sp = s.regs.sp ∧
          t.step.2.regs.p = s.regs.p.set .breakCommand false) := by
  constructor
  · intro hcall hsheltered hreturn
    obtain ⟨hsp, hkept⟩ :=
      run.pushed_kept (e := ⟨0x20, .jsr, .absolute⟩) (by rw [hcall]; rfl)
      rfl (by decide) hsheltered balanced
    have hhigh := hkept 0 (by decide) _ rfl
    have hlow := hkept 1 (by decide) _ rfl
    rw [BitVec.sub_zero] at hhigh
    rw [Machine.step_of_rts hreturn]
    exact ⟨rfl, Machine.returnFromCall_of_kept hsp hhigh hlow⟩
  · intro hbreak hsheltered hreturn
    obtain ⟨hsp, hkept⟩ := run.pushed_kept (e := ⟨0x00, .brk, .implicit⟩)
      (by rw [hbreak]; rfl) rfl (by decide) hsheltered balanced
    have hhigh := hkept 0 (by decide) _ rfl
    have hlow := hkept 1 (by decide) _ rfl
    have hstatus := hkept 2 (by decide) _ rfl
    rw [BitVec.sub_zero] at hhigh
    rw [Machine.step_of_rti hreturn]
    obtain ⟨hpc, hsp', hp⟩ := Machine.returnFromInterrupt_of_kept
      (t := { t with regs := t.regs.advance 1 }) hsp hhigh hlow hstatus
    refine ⟨rfl, ?_, hsp', hp⟩
    rw [hpc]
    change s.regs.pc + 1 + 1 = s.regs.pc + 2
    rw [BitVec.add_assoc]
    rfl

/-- A subroutine that calls another, and a handler that uses the stack. -/
def nestedProgram : Memory :=
  ((((Memory.zeroed.load 0x0200 [0x20, 0x10, 0x02]).load 0x0210
    [0x48, 0x20, 0x20, 0x02, 0x68, 0x60]).load 0x0220 [0x60]).load 0x0230
    [0x08, 0x28, 0x40]).load Memory.interruptVector [0x30, 0x02]

def nestedCall :
    Machine := ⟨{ Registers.powerOn with pc := 0x0200 }, nestedProgram⟩

def nestedInterrupt : Machine :=
  ⟨{ Registers.powerOn with pc := 0x0300 }, nestedProgram⟩

def nestedCallRun : List Instruction :=
  [ ⟨0x0210, ⟨0x48, .pha, .implicit⟩, .absent, 0x48, 0, 0⟩,
    ⟨0x0211, ⟨0x20, .jsr, .absolute⟩, .cell 0x0220, 0x20, 0x20, 0x02⟩,
    ⟨0x0220, ⟨0x60, .rts, .implicit⟩, .absent, 0x60, 0, 0⟩,
    ⟨0x0214, ⟨0x68, .pla, .implicit⟩, .absent, 0x68, 0, 0⟩ ]

def nestedInterruptRun : List Instruction :=
  [ ⟨0x0230, ⟨0x08, .php, .implicit⟩, .absent, 0x08, 0, 0⟩,
    ⟨0x0231, ⟨0x28, .plp, .implicit⟩, .absent, 0x28, 0, 0⟩ ]

theorem nestedProgram_returns :
    (Runs nestedCall.step.2 nestedCallRun
      nestedCall.step.2.step.2.step.2.step.2.step.2 ∧
        Sheltered 0 nestedCall.regs.sp 2 nestedCallRun ∧
        nestedCall.step.2.step.2.step.2.step.2.step.2.step.2.regs.pc = 0x0203) ∧
      Runs nestedInterrupt.step.2 nestedInterruptRun
        nestedInterrupt.step.2.step.2.step.2 ∧
        Sheltered 0 nestedInterrupt.regs.sp 3 nestedInterruptRun ∧
        nestedInterrupt.step.2.step.2.step.2.step.2.regs.pc = 0x0302 := by
  constructor
  · have run : Runs nestedCall.step.2 nestedCallRun
        nestedCall.step.2.step.2.step.2.step.2.step.2 := by
      refine .next_of_decode ?_ (.next_of_decode ?_ (.next_of_decode ?_
        (.next_of_decode ?_ (.refl _))))
      all_goals rfl
    have sheltered : Sheltered 0 nestedCall.regs.sp 2 nestedCallRun := by
      constructor <;> decide +kernel
    obtain ⟨hcall, -⟩ := calls_and_interrupts_return run (by decide +kernel)
    exact ⟨run, sheltered,
      (hcall (by decide +kernel) sheltered (by decide +kernel)).2.1⟩
  · have run : Runs nestedInterrupt.step.2 nestedInterruptRun
        nestedInterrupt.step.2.step.2.step.2 := by
      refine .next_of_decode ?_ (.next_of_decode ?_ (.refl _))
      all_goals rfl
    have sheltered :
        Sheltered 0 nestedInterrupt.regs.sp 3 nestedInterruptRun := by
      constructor <;> decide +kernel
    obtain ⟨-, hbreak⟩ := calls_and_interrupts_return run (by decide +kernel)
    exact ⟨run, sheltered,
      (hbreak (by decide +kernel) sheltered (by decide +kernel)).2.1⟩

end Cpu6502
