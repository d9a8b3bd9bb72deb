import Mathlib.Logic.Function.Iterate
import Cpu6502.Proofs.Statement

/-!
# Loops

Straight code that is followed by a branch back to its beginning, which is taken
unless the zero flag is set.  As long as nothing is written over it, the code is
carried out as often as it leaves the zero flag clear, and once more.
-/

namespace Cpu6502

namespace Byte

/-- How often a loop runs that counts to a byte, or down from it. -/
def turns (b : Byte) : Nat :=
  if b = 0 then 256 else b.toNat

theorem turns_bounds (b : Byte) : 0 < turns b ∧ turns b ≤ 256 := by
  have hb := b.isLt
  unfold turns
  split
  next => decide
  next hne => bv_omega

theorem ofNat_turns (b : Byte) : BitVec.ofNat 8 (turns b) = b := by
  unfold turns
  split
  next hzero => exact hzero.symm
  next => rw [BitVec.ofNat_toNat, BitVec.setWidth_eq]

/-- Counting up from zero comes to the byte at the last turn and not before. -/
theorem ofNat_eq_iff_turns (b : Byte) {j : Nat} (hj : 0 < j)
    (hle : j ≤ turns b) : BitVec.ofNat 8 j = b ↔ j = turns b := by
  have hbounds := turns_bounds b
  conv => lhs; rw [← ofNat_turns b]
  bv_omega

end Byte

namespace Machine

/-- The machine after a number of steps, whether or not they succeed. -/
def after (s : Machine) : Nat → Machine
  | 0 => s
  | n + 1 => s.step.2.after n

theorem after_add (s : Machine) (m n : Nat) :
    s.after (m + n) = (s.after m).after n := by
  induction m generalizing s with
  | zero => rw [Nat.zero_add, after]
  | succ m ih => rw [Nat.succ_add, after, ih, after]

theorem after_succ (s : Machine) (n : Nat) :
    s.after (n + 1) = (s.after n).step.2 :=
  s.after_add n 1

/-- The first steps succeed, and none of them starts at the address. -/
def Proceeds (s : Machine) (n : Nat) (exit : Word) : Prop :=
  ∀ k < n, (s.after k).step.1 = .ok () ∧ (s.after k).regs.pc ≠ exit

theorem Proceeds.append {s : Machine} {m n : Nat} {exit : Word}
    (first : s.Proceeds m exit)
    (rest : (s.after m).Proceeds n exit) : s.Proceeds (m + n) exit := by
  intro k hk
  rcases Nat.lt_or_ge k m with hlt | hge
  · exact first k hlt
  · obtain ⟨j, rfl⟩ := Nat.exists_eq_add_of_le hge
    rw [after_add]
    exact rest j (Nat.lt_of_add_lt_add_left hk)

end Machine

theorem Memory.Holds.writeAll {m : Memory} {address : Word} {bytes : List Byte}
    (h : m.Holds address bytes) {writes : List (Word × Byte)}
    (spared : ∀ k < bytes.length,
      address + BitVec.ofNat 16 k ∉ writes.map Prod.fst) :
    (m.writeAll writes).Holds address bytes := by
  refine Eq.trans (List.map_congr_left ?_) h
  intro k hk
  exact m.read_writeAll_of_not_mem (spared k (List.mem_range.mp hk))

namespace Machine

/-- A step that fails writes nothing. -/
theorem memory_step_eq_writeAll (s : Machine) :
    s.step.2.memory = s.memory.writeAll s.written := by
  cases hlookup : Encoding.lookup (s.read s.regs.pc) with
  | some e => exact memory_step hlookup
  | none =>
      have hdecode := Instruction.decode_of_lookup_eq_none (r := s.regs)
        (m := s.memory) hlookup
      rw [step_of_lookup_eq_none hlookup, written, hdecode]
      rfl

/-- Code stays in memory as long as no step writes one of its cells. -/
theorem holds_after {s : Machine} {address : Word} {bytes : List Byte} {n : Nat}
    (placed : s.memory.Holds address bytes)
    (spared : ∀ j < n, ∀ k < bytes.length,
      address + BitVec.ofNat 16 k ∉ (s.after j).written.map Prod.fst) :
    ∀ j ≤ n, (s.after j).memory.Holds address bytes := by
  intro j hj
  induction j with
  | zero => exact placed
  | succ j ih =>
      rw [after_succ, memory_step_eq_writeAll]
      exact (ih (Nat.le_of_succ_le hj)).writeAll (spared j hj)

end Machine

theorem Word.displace_back (origin : Word) {n : Nat} (h : n ≤ 128) :
    displace (origin + BitVec.ofNat 16 n) (BitVec.ofInt 8 (-n)) = origin := by
  have hdisplacement : (BitVec.ofInt 8 (-n)).toInt = -n := by
    rw [BitVec.toInt_ofInt, Int.bmod_eq_of_le] <;> omega
  rw [displace, BitVec.signExtend, hdisplacement, BitVec.ofInt_neg,
    BitVec.ofInt_natCast, BitVec.add_assoc, BitVec.add_right_neg,
    BitVec.add_zero]

namespace Statement

/-- Behind each of the statements execution goes on with the next one. -/
def Straight (sts : List Statement) : Prop :=
  ∀ st ∈ sts, st.mnemonic.operation.leaves = false ∧
    st.mnemonic.operation.branches = false

theorem pc_performAll {sts : List Statement} (straight : Straight sts)
    (s : Machine) :
    (performAll sts s).regs.pc =
      s.regs.pc + BitVec.ofNat 16 (code sts).length := by
  induction sts generalizing s with
  | nil => simp
  | cons st sts ih =>
      obtain ⟨⟨hleaves, hbranches⟩, hrest⟩ := List.forall_mem_cons.mp straight
      rw [performAll_cons, ih hrest,
        st.pc_perform s hleaves hbranches, code_cons, List.length_append,
        BitVec.ofNat_add, BitVec.add_assoc]

theorem length_code_take_le (sts : List Statement) (r : Nat) :
    (code (sts.take r)).length ≤ (code sts).length := by
  conv =>
    rhs
    rw [← List.take_append_drop r sts, code_append, List.length_append]
  exact Nat.le_add_right _ _

/-- Straight code is carried out in order, as long as it stays in memory. -/
theorem after_eq_performAll {sts : List Statement} {s : Machine}
    (straight : Straight sts)
    (intact : ∀ r < sts.length, s.after r = performAll (sts.take r) s →
      (s.after r).memory.Holds s.regs.pc (code sts)) :
    ∀ r ≤ sts.length, s.after r = performAll (sts.take r) s ∧
      (r < sts.length → (s.after r).step.1 = .ok ()) := by
  induction sts generalizing s with
  | nil =>
      intro r hr
      obtain rfl : r = 0 := Nat.le_zero.mp hr
      exact ⟨rfl, fun h => absurd h (Nat.lt_irrefl 0)⟩
  | cons st sts ih =>
      obtain ⟨⟨hleaves, hbranches⟩, hrest⟩ := List.forall_mem_cons.mp straight
      have hstep : s.step = (.ok (), st.perform s) :=
        step_of_holds (intact 0 (Nat.succ_pos _) rfl).of_append.1
      intro r hr
      cases r with
      | zero => exact ⟨rfl, fun _ => by rw [Machine.after, hstep]⟩
      | succ r =>
          have hafter (r : Nat) : s.after (r + 1) = (st.perform s).after r := by
            rw [Machine.after, hstep]
          rw [hafter, List.take_succ_cons, performAll_cons, List.length_cons,
            Nat.succ_lt_succ_iff]
          apply ih hrest _ r (Nat.le_of_succ_le_succ hr)
          intro j hj heq
          have hheld := intact (j + 1) (Nat.succ_lt_succ hj)
            (by rw [hafter, List.take_succ_cons, performAll_cons, heq])
          rw [st.pc_perform s hleaves hbranches, ← hafter]
          exact hheld.of_append.2

end Statement

open Statement

structure Loop where
  body : List Statement
  straight : Straight body
  /-- The branch must reach back over the body and over itself. -/
  short : (Statement.code body).length ≤ 126

namespace Loop

variable (loop : Loop)

def branch : Statement where
  encoding := ⟨0xD0, .bne, .relative⟩
  operand := [BitVec.ofInt 8 (-((Statement.code loop.body).length + 2 : Nat))]
  documented := rfl
  length_operand := rfl

def code : List Byte :=
  Statement.code (loop.body ++ [loop.branch])

/-- The address behind the loop. -/
def exit (origin : Word) : Word :=
  origin + BitVec.ofNat 16 loop.code.length

/-- The body carried out once from the origin. -/
def pass (origin : Word) (s : Machine) : Machine :=
  performAll loop.body (s.goto origin)

theorem length_code :
    loop.code.length = (Statement.code loop.body).length + 2 := by
  rw [code, code_append, List.length_append]
  rfl

theorem perform_branch {s : Machine} {origin : Word}
    (hpc : s.regs.pc =
      origin + BitVec.ofNat 16 (Statement.code loop.body).length) :
    loop.branch.perform s =
      s.goto (if s.regs.p.get .zero then loop.exit origin else origin) := by
  have hbehind : s.regs.pc + 2 = loop.exit origin := by
    rw [exit, length_code, BitVec.ofNat_add, ← BitVec.add_assoc, hpc]
    rfl
  have hback : Word.displace (s.regs.pc + 2) (BitVec.ofInt 8
      (-((Statement.code loop.body).length + 2 : Nat))) = origin := by
    rw [hbehind, exit, length_code]
    exact Word.displace_back origin (Nat.add_le_add_right loop.short 2)
  have hbranch : loop.branch.perform s =
      if s.regs.p.get .zero = false then s.goto (Word.displace (s.regs.pc + 2)
        (BitVec.ofInt 8 (-((Statement.code loop.body).length + 2 : Nat))))
      else s.goto (s.regs.pc + 2) := rfl
  rw [hbranch, hback, hbehind]
  cases s.regs.p.get .zero <;> rfl

/-- The loop is too short for its exit to be one of its own addresses. -/
theorem ne_exit (origin : Word) {n : Nat}
    (hn : n ≤ (Statement.code loop.body).length) :
    origin + BitVec.ofNat 16 n ≠ loop.exit origin := by
  have hshort := loop.short
  rw [exit, length_code]
  intro h
  bv_omega

/-- A pass leads to the exit if the zero flag is set, else to the origin. -/
theorem after_pass {s : Machine}
    (intact : ∀ r ≤ loop.body.length,
      s.after r = performAll (loop.body.take r) s →
      (s.after r).memory.Holds s.regs.pc loop.code) :
    s.Proceeds (loop.body.length + 1) (loop.exit s.regs.pc) ∧
      s.after (loop.body.length + 1) = (performAll loop.body s).goto
        (if (performAll loop.body s).regs.p.get .zero then loop.exit s.regs.pc
          else s.regs.pc) := by
  have hcode : loop.code =
      Statement.code loop.body ++ Statement.code [loop.branch] :=
    code_append ..
  have hbody := after_eq_performAll loop.straight fun r hr heq => by
    have hheld := intact r (Nat.le_of_lt hr) heq
    rw [hcode] at hheld
    exact hheld.of_append.1
  have hpc (r : Nat) (hr : r ≤ loop.body.length) : (s.after r).regs.pc =
      s.regs.pc + BitVec.ofNat 16
        (Statement.code (loop.body.take r)).length := by
    rw [(hbody r hr).1]
    exact pc_performAll (fun st hst =>
      loop.straight st (List.mem_of_mem_take hst)) s
  obtain ⟨hend, -⟩ := hbody loop.body.length (Nat.le_refl _)
  rw [List.take_length] at hend
  have hbranch : (s.after loop.body.length).step =
      (.ok (), loop.branch.perform (s.after loop.body.length)) := by
    have hheld :=
      intact loop.body.length (Nat.le_refl _) (by rw [hend, List.take_length])
    rw [hcode] at hheld
    apply step_of_holds
    rw [hpc _ (Nat.le_refl _), List.take_length]
    simpa using hheld.of_append.2
  constructor
  · intro r hr
    have hle : r ≤ loop.body.length := Nat.le_of_lt_succ hr
    constructor
    · rcases Nat.lt_or_eq_of_le hle with hlt | rfl
      · exact (hbody r hle).2 hlt
      · rw [hbranch]
    · rw [hpc r hle]
      exact loop.ne_exit s.regs.pc (length_code_take_le loop.body r)
  · rw [Machine.after_add, Machine.after, Machine.after, hbranch, hend]
    apply loop.perform_branch
    exact pc_performAll loop.straight s

/-- The body is carried out until the zero flag is set behind it. -/
theorem repeats {s : Machine} {k : Nat}
    (intact : ∀ j < k, ∀ r ≤ loop.body.length,
      s.after (j * (loop.body.length + 1) + r) =
          performAll (loop.body.take r)
            (((loop.pass s.regs.pc)^[j] s).goto s.regs.pc) →
        (s.after (j * (loop.body.length + 1) + r)).memory.Holds
          s.regs.pc loop.code)
    (again : ∀ j, 0 < j → j < k →
      ((loop.pass s.regs.pc)^[j] s).regs.p.get .zero = false)
    (done : ((loop.pass s.regs.pc)^[k] s).regs.p.get .zero = true)
    (hk : 0 < k) :
    s.Proceeds (k * (loop.body.length + 1)) (loop.exit s.regs.pc) ∧
      s.after (k * (loop.body.length + 1)) =
        ((loop.pass s.regs.pc)^[k] s).goto (loop.exit s.regs.pc) := by
  -- Behind each pass the loop begins again, but for the last, which leads to
  -- the exit.
  have hpasses : ∀ j ≤ k,
    s.Proceeds (j * (loop.body.length + 1)) (loop.exit s.regs.pc) ∧
      s.after (j * (loop.body.length + 1)) = ((loop.pass s.regs.pc)^[j] s).goto
        (if j = k then loop.exit s.regs.pc else s.regs.pc) := by
    intro j hj
    induction j with
    | zero =>
        rw [if_neg (Nat.ne_of_lt hk), Nat.zero_mul]
        exact ⟨fun r hr => absurd hr (Nat.not_lt_zero r), rfl⟩
    | succ j ih =>
        obtain ⟨hproceeds, hafter⟩ := ih (Nat.le_of_succ_le hj)
        rw [if_neg (Nat.ne_of_lt hj)] at hafter
        obtain ⟨hpass, hnext⟩ := loop.after_pass
          (s := s.after (j * (loop.body.length + 1))) fun r hr heq => by
            rw [← Machine.after_add] at heq ⊢
            rw [hafter] at heq ⊢
            exact intact j hj r hr heq
        have hpc : (s.after (j * (loop.body.length + 1))).regs.pc =
            s.regs.pc := by
          rw [hafter]
          rfl
        have hbody :
            performAll loop.body (s.after (j * (loop.body.length + 1))) =
            (loop.pass s.regs.pc)^[j + 1] s := by
          rw [hafter, Function.iterate_succ_apply']
          rfl
        rw [hpc] at hpass hnext
        rw [hbody] at hnext
        rw [Nat.succ_mul]
        refine ⟨hproceeds.append hpass, ?_⟩
        rw [Machine.after_add, hnext]
        rcases Nat.lt_or_eq_of_le hj with hlt | rfl
        · rw [again (j + 1) (Nat.succ_pos j) hlt, if_neg (Nat.ne_of_lt hlt)]
          rfl
        · rw [done, if_pos rfl, if_pos rfl]
  have hlast := hpasses k (Nat.le_refl k)
  rwa [if_pos rfl] at hlast

end Loop

end Cpu6502
