import Cpu6502.Proofs.Loop
import Cpu6502.Proofs.Registers

/-!
# Loops that count down

A loop that ends by counting X down to zero carries out what stands before as
often as X says, where zero stands for 256.  That takes a body whose
instructions follow one another and leave X alone, and code that nothing is
written over.
-/

namespace Cpu6502

namespace Mnemonic

/--
What a loop that counts in X cannot have in its body: branches, jumps, and
whatever sets X.
-/
def disturbing : List Mnemonic :=
  [.bcc, .bcs, .beq, .bmi, .bne, .bpl, .bvc, .bvs, .jmp, .jsr, .rts, .rti, .brk,
    .ldx, .tax, .tsx, .inx, .dex]

theorem operation_of_not_disturbing {m : Mnemonic} (h : m ∉ disturbing) :
    m.operation.leaves = false ∧ m.operation.branches = false ∧
      m.operation.target? ≠ some .x := by
  revert h
  cases m <;> decide

end Mnemonic

open Statement

structure Countdown where
  body : List Statement
  undisturbed : ∀ st ∈ body, st.mnemonic ∉ Mnemonic.disturbing
  short : (Statement.code body).length ≤ 125

namespace Countdown

def decrement : Statement :=
  .implied 0xCA .dex rfl

variable (c : Countdown)

/-- The body, the decrement, and the branch back over both. -/
def code : List Byte :=
  Statement.code c.body ++
    [0xCA, 0xD0, BitVec.ofInt 8 (-((Statement.code c.body).length + 3 : Nat))]

/-- The body and the decrement carried out once from the origin. -/
def round (origin : Word) (s : Machine) : Machine :=
  performAll (c.body ++ [decrement]) (s.goto origin)

/-- How often the body is carried out. -/
def rounds (s : Machine) : Nat :=
  Byte.turns s.regs.x

/-- A round takes two steps more than the body has instructions. -/
def steps (s : Machine) : Nat :=
  rounds s * (c.body.length + 2)

/-- The address behind a loop that begins at the program counter. -/
def exit (s : Machine) : Word :=
  s.regs.pc + BitVec.ofNat 16 c.code.length

def loop : Loop where
  body := c.body ++ [decrement]
  straight st hst := by
    rcases List.mem_append.mp hst with hst | hst
    · obtain ⟨hleaves, hbranches, -⟩ :=
        Mnemonic.operation_of_not_disturbing (c.undisturbed st hst)
      exact ⟨hleaves, hbranches⟩
    · rw [List.mem_singleton.mp hst]
      exact ⟨rfl, rfl⟩
  short := by
    rw [code_append, List.length_append]
    exact Nat.succ_le_succ c.short

theorem code_loop : c.loop.code = c.code := by
  simp [Loop.code, loop, code, Loop.branch, decrement, implied, bytes,
    Nat.add_assoc]

theorem x_performAll_body (s : Machine) :
    (performAll c.body s).regs.x = s.regs.x := by
  have hbody := c.undisturbed
  generalize c.body = sts at hbody
  induction sts generalizing s with
  | nil => rfl
  | cons st sts ih =>
      obtain ⟨hst, hrest⟩ := List.forall_mem_cons.mp hbody
      rw [performAll_cons, ih _ hrest]
      exact (st.effect_perform s).get_index (.inl rfl)
        (Mnemonic.operation_of_not_disturbing hst).2.2

/-- The flags after a round are those of the decrement. -/
theorem x_round (origin : Word) (s : Machine) :
    (c.round origin s).regs.x = s.regs.x - 1 ∧
      (c.round origin s).regs.p.get .zero = ((c.round origin s).regs.x == 0) ∧
      (c.round origin s).regs.p.get .negative =
        (c.round origin s).regs.x.msb := by
  have hbody := c.x_performAll_body (s.goto origin)
  have hround : c.round origin s =
      ((performAll c.body (s.goto origin)).behind decrement.encoding).produce .x
        ((performAll c.body (s.goto origin)).regs.x - 1) := by
    rw [round, performAll_append]
    rfl
  rw [hround, hbody]
  exact ⟨rfl, Status.get_recordResult _ _ .zero,
    Status.get_recordResult _ _ .negative⟩

theorem x_rounds (origin : Word) (s : Machine) (j : Nat) :
    ((c.round origin)^[j] s).regs.x = s.regs.x - BitVec.ofNat 8 j := by
  induction j with
  | zero => simp
  | succ j ih =>
      rw [Function.iterate_succ_apply', (c.x_round origin _).1, ih,
        BitVec.sub_sub, BitVec.ofNat_add]
      rfl

theorem flags_rounds (origin : Word) (s : Machine) {j : Nat} (hj : 0 < j) :
    ((c.round origin)^[j] s).regs.p.get .zero =
      (s.regs.x - BitVec.ofNat 8 j == 0) ∧
      ((c.round origin)^[j] s).regs.p.get .negative =
        (s.regs.x - BitVec.ofNat 8 j).msb := by
  rw [← c.x_rounds origin s j]
  obtain ⟨i, rfl⟩ := Nat.exists_eq_add_of_le' hj
  rw [Function.iterate_succ_apply']
  exact (c.x_round origin _).2

theorem rounds_pos (s : Machine) : 0 < rounds s :=
  (Byte.turns_bounds s.regs.x).1

/-- X runs through all its other values before it comes to zero. -/
theorem x_sub_eq_zero_iff (s : Machine) {j : Nat} (hj : 0 < j)
    (hle : j ≤ rounds s) : s.regs.x - BitVec.ofNat 8 j = 0 ↔ j = rounds s := by
  rw [rounds, ← Byte.ofNat_eq_iff_turns s.regs.x hj hle]
  bv_omega

/-- The loop goes on with its next round until X is zero. -/
theorem after_steps {s : Machine} (placed : s.memory.Holds s.regs.pc c.code)
    (spared : ∀ n < c.steps s, ∀ k < c.code.length,
      s.regs.pc + BitVec.ofNat 16 k ∉ (s.after n).written.map Prod.fst) :
    s.Proceeds (c.steps s) (c.exit s) ∧
      s.after (c.steps s) =
        ((c.round s.regs.pc)^[rounds s] s).goto (c.exit s) := by
  have hlength : c.loop.body.length + 1 = c.body.length + 2 := by
    simp [loop]
  have hexit : c.loop.exit s.regs.pc = c.exit s := by
    rw [Loop.exit, code_loop, exit]
  have hheld (j : Nat) (hj : j < rounds s) (r : Nat)
      (hr : r ≤ c.loop.body.length) :
      (s.after (j * (c.loop.body.length + 1) + r)).memory.Holds s.regs.pc
        c.loop.code := by
    rw [code_loop]
    apply Machine.holds_after placed spared
    calc j * (c.loop.body.length + 1) + r
        ≤ (j + 1) * (c.loop.body.length + 1) := by
          rw [Nat.succ_mul]
          omega
      _ ≤ rounds s * (c.loop.body.length + 1) := Nat.mul_le_mul_right _ hj
      _ = c.steps s := by rw [hlength, steps]
  have hzero {j : Nat} (hj : 0 < j) (hle : j ≤ rounds s) :
      ((c.round s.regs.pc)^[j] s).regs.p.get .zero = decide (j = rounds s) := by
    rw [(c.flags_rounds s.regs.pc s hj).1, Bool.eq_iff_iff, beq_iff_eq,
      x_sub_eq_zero_iff s hj hle, decide_eq_true_iff]
  have hpos := rounds_pos s
  have hloop := c.loop.repeats (fun j hj r hr _ => hheld j hj r hr)
    (fun j hj hlt => (hzero hj (Nat.le_of_lt hlt)).trans
      (decide_eq_false (Nat.ne_of_lt hlt)))
    ((hzero hpos (Nat.le_refl _)).trans (decide_eq_true rfl)) hpos
  rw [hlength, hexit] at hloop
  exact hloop

end Countdown

/--
A loop that counts the index register down runs its body as often as the
register says, with zero for a full turn of 256, and is left with the register
at zero, if the body does not write over the loop.
-/
theorem countdown_runs_body (c : Countdown) {s : Machine}
    (placed : s.memory.Holds s.regs.pc c.code)
    (spared : ∀ n < c.steps s, ∀ k < c.code.length,
      s.regs.pc + BitVec.ofNat 16 k ∉ (s.after n).written.map Prod.fst) :
    s.Proceeds (c.steps s) (c.exit s) ∧
      s.after (c.steps s) =
        ((c.round s.regs.pc)^[Countdown.rounds s] s).goto (c.exit s) ∧
      (s.after (c.steps s)).regs.x = 0 ∧
      (s.after (c.steps s)).regs.p.get .zero = true ∧
      (s.after (c.steps s)).regs.p.get .negative = false := by
  obtain ⟨hproceeds, hafter⟩ := c.after_steps placed spared
  have hpos := Countdown.rounds_pos s
  have hx : s.regs.x - BitVec.ofNat 8 (Countdown.rounds s) = 0 :=
    (Countdown.x_sub_eq_zero_iff s hpos (Nat.le_refl _)).mpr rfl
  obtain ⟨hzero, hnegative⟩ := c.flags_rounds s.regs.pc s hpos
  rw [hx] at hzero hnegative
  refine ⟨hproceeds, hafter, ?_⟩
  rw [hafter]
  exact ⟨(c.x_rounds s.regs.pc s _).trans hx, hzero, hnegative⟩

/-- A body that counts in memory and pushes what it counted. -/
def countAndPush : Countdown where
  body := [⟨⟨0xE6, .inc, .zeroPage⟩, [0x10], rfl, rfl⟩, .implied 0x48 .pha rfl]
  undisturbed := by decide
  short := by decide

/-- The loop lies across the end of memory and is gone through three times. -/
def threeTimes : Machine where
  regs := { Registers.powerOn with pc := 0xFFFE, x := 3, a := 0x77 }
  memory := Memory.zeroed.load 0xFFFE countAndPush.code

theorem countAndPush_runs_three_times :
    threeTimes.memory.Holds 0xFFFE countAndPush.code ∧
      threeTimes.Proceeds 12 0x0004 ∧
      (threeTimes.after 12).regs.pc = 0x0004 ∧
      (threeTimes.after 12).regs.sp = threeTimes.regs.sp - 3 ∧
      (threeTimes.after 12).read 0x0010 = 3 := by
  have placed : threeTimes.memory.Holds 0xFFFE countAndPush.code := by
    decide +kernel
  have spared : ∀ n < 12, ∀ k < countAndPush.code.length,
      (0xFFFE : Word) + BitVec.ofNat 16 k ∉
        (threeTimes.after n).written.map Prod.fst := by
    decide +kernel
  obtain ⟨hproceeds, hafter, -⟩ :=
    countdown_runs_body countAndPush placed spared
  have hrounds : threeTimes.after 12 =
      ((countAndPush.round 0xFFFE)^[3] threeTimes).goto 0x0004 := hafter
  rw [hrounds]
  exact ⟨placed, hproceeds, rfl, by decide +kernel, by decide +kernel⟩

end Cpu6502
