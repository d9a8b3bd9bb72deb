import Mathlib.Algebra.Ring.Int.Defs
import Cpu6502.Proofs.Footprint

/-!
# Runs of a machine

A run is a sequence of steps that succeed, told by the instructions that it
executes.
-/

namespace Cpu6502

inductive Runs : Machine → List Instruction → Machine → Prop where
  | refl (s : Machine) : Runs s [] s
  | next {s s' t : Machine} {i : Instruction} {is : List Instruction}
      (decoded : (Instruction.decode s.regs s.memory).1 = .ok i)
      (succeeded : s.step = (.ok (), s'))
      (rest : Runs s' is t) : Runs s (i :: is) t

/-- A decoded instruction is carried out, so that a run goes on behind it. -/
theorem Runs.next_of_decode {s t : Machine} {i : Instruction}
    {is : List Instruction}
    (decoded : (Instruction.decode s.regs s.memory).1 = .ok i)
    (rest : Runs s.step.2 is t) : Runs s (i :: is) t := by
  have succeeded : s.step.1 = .ok () := by
    cases hdecode : Instruction.decode s.regs s.memory with
    | mk result next =>
        rw [hdecode] at decoded
        cases decoded
        exact Machine.step_fst_of_decode hdecode
  exact .next decoded (Prod.ext succeeded rfl) rest

theorem Runs.append {s t u : Machine} {is js : List Instruction}
    (first : Runs s is t) (rest : Runs t js u) : Runs s (is ++ js) u := by
  induction first with
  | refl => exact rest
  | next decoded succeeded _ ih => exact .next decoded succeeded (ih rest)

/-- By how many bytes the stack has grown after the instructions. -/
def stackDepth (is : List Instruction) : Int :=
  (is.map fun i => i.mnemonic.operation.growth).sum

@[simp] theorem stackDepth_nil : stackDepth [] = 0 := rfl

@[simp] theorem stackDepth_cons (i : Instruction) (is : List Instruction) :
    stackDepth (i :: is) = i.mnemonic.operation.growth + stackDepth is := rfl

end Cpu6502
