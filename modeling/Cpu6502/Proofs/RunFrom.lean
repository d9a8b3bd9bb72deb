import Cpu6502.Proofs.Calls

/-!
# Runs that end at the first failure

A run either takes all its steps or ends with the first that fails, and the
notes made on the way have no influence on that.  How many more steps it was to
take makes no difference to a run that fails.
-/

namespace Cpu6502.Emulator

variable {e : Emulator} {j n : Nat} {fault : Fault}

/-- The first steps succeed. -/
def Succeeds (e : Emulator) (n : Nat) : Prop :=
  ∀ result ∈ e.results n, result = .ok ()

/-- The step behind the first `j` is the first that fails. -/
structure Fails (e : Emulator) (j : Nat) (fault : Fault) : Prop where
  before : e.Succeeds j
  failure : (e.after j).step.result = .error fault

/-- What steps preserve holds after any number of them. -/
theorem after_of_step {P : Emulator → Prop}
    (hstep : ∀ e, P e → P e.step.emulator)
    (h : P e) (n : Nat) : P (e.after n) := by
  induction n with
  | zero => exact h
  | succ n ih =>
      rw [after_succ]
      exact hstep _ ih

theorem succeeds_zero (e : Emulator) : e.Succeeds 0 :=
  fun _ h => absurd h List.not_mem_nil

theorem succeeds_succ :
    e.Succeeds (n + 1) ↔ e.step.result = .ok () ∧ e.step.emulator.Succeeds n :=
  List.forall_mem_cons

theorem fails_zero : e.Fails 0 fault ↔ e.step.result = .error fault :=
  ⟨Fails.failure, fun h => ⟨e.succeeds_zero, h⟩⟩

theorem fails_succ :
    e.Fails (j + 1) fault ↔ e.step.result = .ok () ∧
      e.step.emulator.Fails j fault := by
  constructor
  · rintro ⟨hbefore, hfailure⟩
    obtain ⟨hfirst, hrest⟩ := succeeds_succ.mp hbefore
    exact ⟨hfirst, hrest, hfailure⟩
  · rintro ⟨hfirst, hrest, hfailure⟩
    exact ⟨succeeds_succ.mpr ⟨hfirst, hrest⟩, hfailure⟩

theorem succeeds_or_fails (e : Emulator) (n : Nat) :
    e.Succeeds n ∨ ∃ j < n, ∃ fault, e.Fails j fault := by
  induction n generalizing e with
  | zero => exact .inl e.succeeds_zero
  | succ n ih =>
      cases hresult : e.step.result with
      | error fault =>
          exact .inr ⟨0, Nat.succ_pos n, fault, fails_zero.mpr hresult⟩
      | ok =>
          rcases ih e.step.emulator with h | ⟨j, hj, fault, h⟩
          · exact .inl (succeeds_succ.mpr ⟨hresult, h⟩)
          · exact .inr ⟨j + 1, Nat.succ_lt_succ hj, fault,
              fails_succ.mpr ⟨hresult, h⟩⟩

variable (verbose : Bool) (noted : Array Note)

theorem runFrom_of_succeeds (h : e.Succeeds n) :
    (runFrom verbose noted n e).result = .ok () ∧
      (runFrom verbose noted n e).emulator = e.after n := by
  induction n generalizing e noted with
  | zero => exact ⟨rfl, rfl⟩
  | succ n ih =>
      obtain ⟨hfirst, hrest⟩ := succeeds_succ.mp h
      obtain ⟨hresult, hafter⟩ := e.stepWith_eq_step verbose
      simp only [runFrom, hresult, hfirst, hafter]
      exact ih _ hrest

theorem runFrom_of_fails (h : e.Fails j fault) (hj : j < n) :
    (runFrom verbose noted n e).result = .error fault ∧
      (runFrom verbose noted n e).emulator = e.after (j + 1) := by
  induction n generalizing e noted j with
  | zero => exact absurd hj (Nat.not_lt_zero j)
  | succ n ih =>
      obtain ⟨hresult, hafter⟩ := e.stepWith_eq_step verbose
      cases j with
      | zero =>
          simp only [runFrom, hresult, fails_zero.mp h, hafter]
          exact ⟨trivial, rfl⟩
      | succ j =>
          obtain ⟨hfirst, hrest⟩ := fails_succ.mp h
          simp only [runFrom, hresult, hfirst, hafter]
          exact ih _ hrest (Nat.lt_of_succ_lt_succ hj)

/-- A run that fails is the same however many more steps it was to take. -/
theorem runFrom_eq_of_fails {n' : Nat} (h : e.Fails j fault) (hj : j < n)
    (hj' : j < n') :
    runFrom verbose noted n e = runFrom verbose noted n' e := by
  obtain ⟨n, rfl⟩ := Nat.exists_eq_add_of_lt hj
  obtain ⟨n', rfl⟩ := Nat.exists_eq_add_of_lt hj'
  induction j generalizing e noted with
  | zero =>
      have hresult := (e.stepWith_eq_step verbose).1
      simp only [runFrom, hresult, fails_zero.mp h]
  | succ j ih =>
      obtain ⟨hfirst, hrest⟩ := fails_succ.mp h
      obtain ⟨hresult, hafter⟩ := e.stepWith_eq_step verbose
      rw [Nat.add_right_comm j 1 n, Nat.add_right_comm j 1 n']
      simp only [runFrom, hresult, hfirst, hafter]
      exact ih _ hrest (by omega) (by omega)

/-- A run ends in the same way whether or not notes are made of it. -/
theorem runFrom_eq_quiet (n : Nat) (e : Emulator) :
    (runFrom verbose noted n e).result = (runFrom false #[] n e).result ∧
      (runFrom verbose noted n e).emulator =
        (runFrom false #[] n e).emulator := by
  rcases e.succeeds_or_fails n with h | ⟨j, hj, fault, h⟩
  · obtain ⟨hresult, hafter⟩ := runFrom_of_succeeds verbose noted h
    obtain ⟨hresult', hafter'⟩ := runFrom_of_succeeds false #[] h
    exact ⟨hresult.trans hresult'.symm, hafter.trans hafter'.symm⟩
  · obtain ⟨hresult, hafter⟩ := runFrom_of_fails verbose noted h hj
    obtain ⟨hresult', hafter'⟩ := runFrom_of_fails false #[] h hj
    exact ⟨hresult.trans hresult'.symm, hafter.trans hafter'.symm⟩

/-- What holds of the notes of all steps holds of the notes of a run. -/
theorem forall_mem_notes_runFrom {P : Note → Prop}
    (hstep : ∀ e : Emulator, ∀ note ∈ (e.stepWith verbose).notes, P note)
    (hnoted : ∀ note ∈ noted.toList, P note) (n : Nat) (e : Emulator) :
    ∀ note ∈ (runFrom verbose noted n e).notes, P note := by
  induction n generalizing e noted with
  | zero => exact hnoted
  | succ n ih =>
      have hfirst : ∀ note ∈ (noted ++ (e.stepWith verbose).notes).toList,
          P note := by
        intro note hnote
        rw [Array.toList_appendList, List.mem_append] at hnote
        exact hnote.elim (hnoted note) (hstep e note)
      cases hresult : (e.stepWith verbose).result with
      | error =>
          simp only [runFrom, hresult]
          exact hfirst
      | ok =>
          simp only [runFrom, hresult]
          exact ih _ hfirst _

end Cpu6502.Emulator
