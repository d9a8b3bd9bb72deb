import Cpu6502.Proofs.Calls

/-!
# Refusals

A log can hold a machine back and cannot do anything else to it.  A step that is
refused leaves the machine as it was, and every other step is the one that the
machine would take without a log.
-/

namespace Cpu6502

def refused : Except Fault Unit → Bool
  | .ok () => false
  | .error fault => fault.fromLog

namespace Emulator

theorem step_free_or_refused (e : Emulator) :
    (e.step.result = e.machine.step.1 ∧
      e.step.emulator.machine = e.machine.step.2 ∧
        refused e.step.result = false) ∨
      (refused e.step.result = true ∧ e.step.emulator.machine = e.machine) := by
  cases e.ending with
  | undocumented missing result after =>
      left
      refine ⟨result, by rw [after], ?_⟩
      rw [result, Machine.step_of_lookup_eq_none missing]
      rfl
  | refused _ _ fromLog result after =>
      right
      refine ⟨?_, by rw [after]⟩
      rw [result]
      exact fromLog
  | agreed decoded _ result after =>
      left
      refine ⟨by rw [result, Machine.step_fst_of_decode decoded],
        by rw [after], ?_⟩
      rw [result]
      rfl

theorem machine_step_of_ok {e : Emulator} (h : e.step.result = .ok ()) :
    e.machine.step.1 = .ok () ∧ e.step.emulator.machine = e.machine.step.2 := by
  rcases step_free_or_refused e with ⟨hresult, hafter, -⟩ | ⟨hrefused, -⟩
  · exact ⟨hresult ▸ h, hafter⟩
  · rw [h] at hrefused
    cases hrefused

/-- A log can only hold back a machine that keeps to something. -/
theorem machine_after_of_step {P : Machine → Prop} {e : Emulator} {n : Nat}
    (start : P e.machine)
    (hstep : ∀ k < n, P (e.after k).machine → P (e.after k).machine.step.2) :
    ∀ k ≤ n, P (e.after k).machine := by
  intro k hk
  induction k with
  | zero => exact start
  | succ k ih =>
      have hkept := ih (Nat.le_of_succ_le hk)
      rw [after_succ]
      rcases step_free_or_refused (e.after k) with ⟨-, hafter, -⟩ | ⟨-, hafter⟩
      · rw [hafter]
        exact hstep k hk hkept
      · rw [hafter]
        exact hkept

/-- The steps that were not refused are those of the machine without a log. -/
theorem after_and_results_eq_unlogged (e : Emulator) (n : Nat) :
    (e.after n).machine =
        ((unlogged e.machine).after
          (n - (e.results n).countP refused)).machine ∧
      (e.results n).filter (fun r => !refused r) =
        (unlogged e.machine).results (n - (e.results n).countP refused) := by
  induction n generalizing e with
  | zero => exact ⟨rfl, rfl⟩
  | succ n ih =>
      obtain ⟨hmachine, hresults⟩ := ih e.step.emulator
      rcases step_free_or_refused e with
          ⟨hresult, hafter, hfree⟩ | ⟨hrefused, hafter⟩
      · have hcount : (e.step.emulator.results n).countP refused ≤ n := by
          simpa using List.countP_le_length (p := refused)
            (l := e.step.emulator.results n)
        have hn : n + 1 - (e.step.emulator.results n).countP refused =
            n - (e.step.emulator.results n).countP refused + 1 := by
          omega
        rw [hafter] at hmachine hresults
        simp only [after, results, List.countP_cons, List.filter_cons, hfree,
          Bool.false_eq_true, if_false, Nat.add_zero,
          Bool.not_false, if_true, hn, emulator_step_unlogged,
          result_step_unlogged]
        exact ⟨hmachine, by rw [hresults, hresult]⟩
      · rw [hafter] at hmachine hresults
        simp only [after, results, List.countP_cons, List.filter_cons,
          hrefused, if_true, Bool.not_true, Bool.false_eq_true, if_false,
          Nat.add_sub_add_right]
        exact ⟨hmachine, hresults⟩

end Emulator

/--
A log can stop a machine and cannot bend its way.  A step with a log is the step
without one, or it is refused and the machine stays as it was.  So the steps of
a run that are not refused are, one after the other, those of the run without a
log.
-/
theorem log_stops_without_bending (e : Emulator) (n : Nat) :
    ((e.step.result = (Emulator.unlogged e.machine).step.result ∧
          e.step.emulator.machine =
            (Emulator.unlogged e.machine).step.emulator.machine) ∨
        (refused e.step.result ∧ e.step.emulator.machine = e.machine)) ∧
      (e.after n).machine =
        ((Emulator.unlogged e.machine).after
          (n - (e.results n).countP refused)).machine ∧
      (e.results n).filter (fun r => !refused r) =
        (Emulator.unlogged e.machine).results
          (n - (e.results n).countP refused) := by
  refine ⟨?_, Emulator.after_and_results_eq_unlogged e n⟩
  rw [Emulator.result_step_unlogged, Emulator.emulator_step_unlogged]
  rcases Emulator.step_free_or_refused e with ⟨hresult, hafter, -⟩ | h
  · exact .inl ⟨hresult, hafter⟩
  · exact .inr h

end Cpu6502
