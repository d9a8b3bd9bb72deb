import Cpu6502.Proofs.Emulator

/-!
# Successive steps

Steps that are taken one after the other whether or not they succeed, with the
results they give and the emulator they leave behind.  Without a log they are
the steps of the machine.
-/

namespace Cpu6502.Emulator

def unlogged (s : Machine) : Emulator := ⟨s, none⟩

def logged (s : Machine) (bytes : List Byte) : Emulator :=
  ⟨s, some (.content bytes)⟩

def after (e : Emulator) : Nat → Emulator
  | 0 => e
  | n + 1 => e.step.emulator.after n

def results (e : Emulator) : Nat → List (Except Fault Unit)
  | 0 => []
  | n + 1 => e.step.result :: e.step.emulator.results n

theorem after_succ (e : Emulator) (n : Nat) :
    e.after (n + 1) = (e.after n).step.emulator := by
  induction n generalizing e with
  | zero => rfl
  | succ n ih => rw [after, ih, after]

@[simp] theorem length_results (e : Emulator) (n : Nat) :
    (e.results n).length = n := by
  induction n generalizing e with
  | zero => rfl
  | succ n ih => simp [results, ih]

theorem result_step_unlogged (s : Machine) :
    (unlogged s).step.result = s.step.1 :=
  (step_unlogged s).1

theorem emulator_step_unlogged (s : Machine) :
    (unlogged s).step.emulator = unlogged s.step.2 :=
  (step_unlogged s).2

/-- An emulator that keeps to the steps of its machine keeps to its runs. -/
theorem results_and_after_eq_unlogged {P : Emulator → Prop}
    (hstep : ∀ e, P e → e.step.result = e.machine.step.1 ∧
      e.step.emulator.machine = e.machine.step.2 ∧ P e.step.emulator)
    {e : Emulator} (h : P e) (n : Nat) :
    e.results n = (unlogged e.machine).results n ∧
      (e.after n).machine = ((unlogged e.machine).after n).machine := by
  induction n generalizing e with
  | zero => exact ⟨rfl, rfl⟩
  | succ n ih =>
      obtain ⟨hresult, hafter, hnext⟩ := hstep e h
      obtain ⟨hresults, hmachine⟩ := ih hnext
      rw [hafter] at hresults hmachine
      simp only [results, after, result_step_unlogged, emulator_step_unlogged]
      exact ⟨by rw [hresult, hresults], hmachine⟩

end Cpu6502.Emulator
