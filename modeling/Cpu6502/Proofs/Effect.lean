import Cpu6502.Instruction.Execution

/-!
# Effects of operations

The rules by which an operation that finds its operand takes one machine to
another, one rule for each operation.  Whatever an instruction does when it
succeeds is the effect of its operation, and a fact about all instructions is
proved by going through the rules.
-/

namespace Cpu6502

inductive Effect (o : Operand) (s : Machine) : Operation → Machine → Prop where
  | load {r byte} (found : o.read? s = some byte) :
      Effect o s (.load r) (s.produce r byte)
  | store {r t} (stored : o.write? s (s.get r) = some t) :
      Effect o s (.store r) t
  | transfer {source target} :
      Effect o s (.transfer source target) (s.transfer source target)
  | push {r} : Effect o s (.push r) (s.push (s.get r))
  | pushStatus : Effect o s .pushStatus (s.push s.regs.p.bits)
  | pull {r} : Effect o s (.pull r) (s.pull.2.produce r s.pull.1)
  | pullStatus : Effect o s .pullStatus (s.pull.2.setStatus s.pull.1)
  | combine {c byte} (found : o.read? s = some byte) :
      Effect o s (.combine c) (s.produce .a (c.apply s.regs.a byte))
  | testBits {byte} (found : o.read? s = some byte) :
      Effect o s .testBits (s.testBits byte)
  | add {byte} (found : o.read? s = some byte) : Effect o s .add (s.add byte)
  | subtract {byte} (found : o.read? s = some byte) :
      Effect o s .subtract (s.subtract byte)
  | compare {r byte} (found : o.read? s = some byte) :
      Effect o s (.compare r) (s.compare r byte)
  | modify {change byte t} (found : o.read? s = some byte)
      (stored : o.write? (s.change change byte).2 (s.change change byte).1 =
        some t) :
      Effect o s (.modify change) (t.recordResult (s.change change byte).1)
  | adjust {r change} :
      Effect o s (.adjust r change)
        ((s.change change (s.get r)).2.produce r (s.change change (s.get r)).1)
  | jump {address} (found : o.address? = some address) :
      Effect o s .jump (s.goto address)
  | call {address} (found : o.address? = some address) :
      Effect o s .call (s.call address)
  | returnFromCall : Effect o s .returnFromCall s.returnFromCall
  | branch {f value address} (found : o.address? = some address) :
      Effect o s (.branch f value) (s.branch f value address)
  | assign {f value} : Effect o s (.assign f value) (s.setFlag f value)
  | interrupt : Effect o s .interrupt s.interrupt
  | idle : Effect o s .idle s
  | returnFromInterrupt : Effect o s .returnFromInterrupt s.returnFromInterrupt

theorem Operand.write?_eq_some {o : Operand} {s t : Machine} {byte : Byte}
    (h : o.write? s byte = some t) :
    (o = .accumulator ∧ t = s.set .a byte) ∨
      ∃ address, o = .cell address ∧ t = s.write address byte := by
  cases o with
  | absent => cases h
  | accumulator =>
      cases h
      exact .inl ⟨rfl, rfl⟩
  | cell address =>
      cases h
      exact .inr ⟨address, rfl, rfl⟩

namespace Instruction

variable {i : Instruction} {s t : Machine}

theorem withByte_eq_ok {next : Byte → Machine}
    (h : i.withByte s next = (.ok (), t)) :
    ∃ byte, i.operand.read? s = some byte ∧ next byte = t := by
  unfold withByte at h
  cases found : i.operand.read? s with
  | none => simp [found] at h
  | some byte =>
      simp only [found, Prod.mk.injEq, true_and] at h
      exact ⟨byte, rfl, h⟩

theorem withAddress_eq_ok {next : Word → Machine}
    (h : i.withAddress s next = (.ok (), t)) :
    ∃ address, i.operand.address? = some address ∧ next address = t := by
  unfold withAddress at h
  cases found : i.operand.address? with
  | none => simp [found] at h
  | some address =>
      simp only [found, Prod.mk.injEq, true_and] at h
      exact ⟨address, rfl, h⟩

theorem store_eq_ok {byte : Byte} (h : i.store s byte = (.ok (), t)) :
    i.operand.write? s byte = some t := by
  unfold store at h
  cases stored : i.operand.write? s byte with
  | none => simp [stored] at h
  | some s' =>
      simp only [stored, Prod.mk.injEq, true_and] at h
      rw [h]

theorem modify_eq_ok {change : Change} (h : i.modify s change = (.ok (), t)) :
    Effect i.operand s (.modify change) t := by
  unfold modify at h
  cases found : i.operand.read? s with
  | none => simp [found] at h
  | some byte =>
      simp only [found] at h
      cases stored : i.store (s.change change byte).2
        (s.change change byte).1 with
      | mk result s' =>
          cases result with
          | error fault => simp [stored] at h
          | ok =>
              simp only [stored, Prod.mk.injEq, true_and] at h
              subst h
              exact .modify found (store_eq_ok stored)

theorem effect_of_execute (h : i.execute s = (.ok (), t)) :
    Effect i.operand s i.mnemonic.operation t := by
  unfold execute at h
  cases operation : i.mnemonic.operation <;> simp only [operation] at h
  case load | combine | testBits | add | subtract | compare =>
    obtain ⟨byte, found, rfl⟩ := withByte_eq_ok h
    constructor
    exact found
  case jump | call | branch =>
    obtain ⟨address, found, rfl⟩ := withAddress_eq_ok h
    constructor
    exact found
  case store => exact .store (store_eq_ok h)
  case modify => exact modify_eq_ok h
  all_goals
    cases h
    constructor

end Instruction

end Cpu6502
